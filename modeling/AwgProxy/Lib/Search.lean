import Mathlib.Data.List.FinRange
import Mathlib.Tactic.Common

/-!
# First Matches

Loops that stop at the first match, as `List.find?` over an interval of indices: the match
is the least index that satisfies the test.

* `find?_map_range_eq_some_iff` — a window given by a function of the first `n` numbers.
* `find?_finRange_eq_some_iff` — a table of `n` slots.
* `isFirstMin_foldl` — the loop that keeps the first of the least values.
-/

namespace List

variable {α : Type*} {n : ℕ}

/-- The first match in a window of `n` places. -/
theorem find?_map_range_eq_some_iff {f : ℕ → α} {p : α → Bool} {a : α} :
    ((range n).map f).find? p = some a ↔
      ∃ i, i < n ∧ f i = a ∧ p (f i) = true ∧ ∀ j, j < i → p (f j) = false := by
  rw [find?_map, Option.map_eq_some_iff]
  constructor
  · rintro ⟨i, hi, rfl⟩
    obtain ⟨hp, hmem, hlt⟩ := find?_range_eq_some.mp hi
    refine ⟨i, mem_range.mp hmem, rfl, hp, fun j hj => ?_⟩
    simpa using hlt j hj
  · rintro ⟨i, hi, rfl, hp, hlt⟩
    refine ⟨i, find?_range_eq_some.mpr ⟨hp, mem_range.mpr hi, fun j hj => ?_⟩, rfl⟩
    simpa using hlt j hj

/-- No match in a window of `n` places. -/
theorem find?_map_range_eq_none_iff {f : ℕ → α} {p : α → Bool} :
    ((range n).map f).find? p = none ↔ ∀ i, i < n → p (f i) = false := by
  simp

/-- The first match in a table of `n` slots. -/
theorem find?_finRange_eq_some_iff {p : Fin n → Bool} {a : Fin n} :
    (finRange n).find? p = some a ↔ p a = true ∧ ∀ j, j < a → p j = false := by
  constructor
  · intro h
    refine ⟨find?_some h, fun j hj => ?_⟩
    obtain ⟨-, as, bs, hsplit, has⟩ := find?_eq_some_iff_append.mp h
    have hsorted : (as ++ a :: bs).Pairwise (· < ·) := hsplit ▸ pairwise_lt_finRange n
    have hmem : j ∈ as ++ a :: bs := hsplit ▸ mem_finRange j
    rcases mem_append.mp hmem with hj' | hj'
    · simpa using has j hj'
    · have hle : a ≤ j := by
        rcases mem_cons.mp hj' with rfl | hbs
        · exact le_rfl
        · exact (rel_of_pairwise_cons (pairwise_append.mp hsorted).2.1 hbs).le
      exact absurd hj (not_lt.mpr hle)
  · rintro ⟨hp, hlt⟩
    rcases hf : (finRange n).find? p with _ | b
    · have := find?_eq_none.mp hf a (mem_finRange a)
      contradiction
    · obtain ⟨-, as, bs, hsplit, has⟩ := find?_eq_some_iff_append.mp hf
      have hsorted : (as ++ b :: bs).Pairwise (· < ·) := hsplit ▸ pairwise_lt_finRange n
      have hmem : a ∈ as ++ b :: bs := hsplit ▸ mem_finRange a
      rcases mem_append.mp hmem with ha | ha
      · have := has a ha
        rw [hp] at this
        contradiction
      · rcases mem_cons.mp ha with rfl | ha
        · rfl
        · have hba : b < a := rel_of_pairwise_cons (pairwise_append.mp hsorted).2.1 ha
          have hpb := find?_some hf
          rw [hlt b hba] at hpb
          contradiction

/-- No match in a table of `n` slots. -/
theorem find?_finRange_eq_none_iff {p : Fin n → Bool} :
    (finRange n).find? p = none ↔ ∀ j, p j = false := by
  simp

section FirstMin

variable {β : Type*} [LinearOrder β]

/-- Of the numbers below `n`, `b` is the first at which `f` is least. -/
def IsFirstMin (f : ℕ → β) (n b : ℕ) : Prop :=
  b < n ∧ (∀ j < n, f b ≤ f j) ∧ ∀ j < b, f b < f j

/-- There is one of them only. -/
theorem IsFirstMin.unique {f : ℕ → β} {b c : ℕ} (hb : IsFirstMin f n b)
    (hc : IsFirstMin f n c) : b = c := by
  rcases Nat.lt_trichotomy b c with hlt | rfl | hlt
  · exact absurd (hc.2.2 b hlt) (not_lt.mpr (hb.2.1 c hc.1))
  · rfl
  · exact absurd (hb.2.2 c hlt) (not_lt.mpr (hc.2.1 b hb.1))

/-- The loop that starts at the first number and moves on to a smaller value. -/
theorem isFirstMin_foldl (f : ℕ → β) (n : ℕ) :
    IsFirstMin f (n + 1)
      ((range' 1 n).foldl (fun best i => if f i < f best then i else best) 0) := by
  induction n with
  | zero =>
      refine ⟨Nat.zero_lt_one, fun j hj => ?_, fun j hj => absurd hj (Nat.not_lt_zero j)⟩
      obtain rfl : j = 0 := by omega
      exact le_rfl
  | succ n ih =>
      rw [range'_1_concat, foldl_append, foldl_cons, foldl_nil, Nat.add_comm 1 n]
      generalize (range' 1 n).foldl _ 0 = b at ih ⊢
      obtain ⟨hb, hle, hlt⟩ := ih
      by_cases hn : f (n + 1) < f b
      · rw [if_pos hn]
        have hall : ∀ j < n + 1, f (n + 1) < f j := fun j hj => hn.trans_le (hle j hj)
        refine ⟨by omega, fun j hj => ?_, hall⟩
        rcases Nat.lt_succ_iff_lt_or_eq.mp hj with hj | rfl
        · exact (hall j hj).le
        · exact le_rfl
      · rw [if_neg hn]
        refine ⟨by omega, fun j hj => ?_, hlt⟩
        rcases Nat.lt_succ_iff_lt_or_eq.mp hj with hj | rfl
        · exact hle j hj
        · exact not_lt.mp hn

end FirstMin

end List
