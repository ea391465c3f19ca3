import Mathlib.Data.List.Cycle
import Mathlib.Dynamics.PeriodicPts.Defs

/-!
# Walking Round a List

The successor of an element is what stands behind its first occurrence, or the first element
where nothing does. A walk that goes from an element to its successor again and again knows
where it is by the element alone, so a list that repeats itself may trap it.

* `covers_iff` — the walk comes past every element exactly when the list repeats nothing, or
  only, from its first repetition on, elements it has had, the first one first (`LoopsBack`).
-/

namespace CyclicWalk

variable {α : Type*} [DecidableEq α]

/-- The element behind the first occurrence of `a`, or the first one of the list. -/
def succ (l : List α) (a : α) : α := l.nextOr a (l.headD a)

/-- From `a`, as many steps as the list is long come past all of its elements. -/
def Covers (l : List α) (a : α) : Prop :=
  ∀ b ∈ l, ∃ k, 1 ≤ k ∧ k ≤ l.length ∧ (succ l)^[k] a = b

/-- From its first repetition on, the list has nothing new, and begins anew. -/
def LoopsBack (l : List α) : Prop :=
  ∃ d r, l = d ++ r ∧ d.Nodup ∧ r ⊆ d ∧ ∀ a ∈ r.head?, a ∈ d.head?

omit [DecidableEq α] in
/-- A list without a repetition. -/
theorem loopsBack_of_nodup {l : List α} (h : l.Nodup) : LoopsBack l :=
  ⟨l, [], (List.append_nil l).symm, h, List.nil_subset l, nofun⟩

/-- The successor, by position. -/
theorem succ_eq (l : List α) (a : α) : succ l a = l[l.idxOf a + 1]?.getD (l.headD a) := by
  rw [succ]
  generalize l.headD a = b
  induction l with
  | nil => rfl
  | cons x l ih =>
      cases l with
      | nil => simp
      | cons y l =>
          rcases eq_or_ne a x with rfl | hne
          · simp
          · rw [List.nextOr_cons_of_ne _ _ _ _ hne, ih, List.idxOf_cons_ne _ hne.symm]
            rfl

theorem idxOf_append_getElem {d : List α} (hd : d.Nodup) (r : List α) {i : ℕ}
    (hi : i < d.length) : (d ++ r).idxOf d[i] = i := by
  rw [List.idxOf_append_of_mem (List.getElem_mem hi), hd.idxOf_getElem]

/-- In front of the first repetition the successor is the next element. -/
theorem succ_getElem {d : List α} (hd : d.Nodup) (r : List α) {i : ℕ} (hi : i + 1 < d.length) :
    succ (d ++ r) d[i] = d[i + 1] := by
  rw [succ_eq, idxOf_append_getElem hd, List.getElem?_append_left hi,
    List.getElem?_eq_getElem hi, Option.getD_some]

/-- At the first repetition the walk goes on where it stands, or where the list begins. -/
theorem succ_getLast {d : List α} (hd : d.Nodup) (r : List α) {i : ℕ} (hi : i + 1 = d.length) :
    (r ++ d).head? = some (succ (d ++ r) (d[i])) := by
  rw [succ_eq, idxOf_append_getElem hd, List.getElem?_append_right hi.ge, hi, Nat.sub_self]
  cases r with
  | nil =>
      obtain ⟨x, d, rfl⟩ := List.exists_cons_of_length_pos (by omega : 0 < d.length)
      simp
  | cons x r => simp

/-- Every list has a front part without a repetition, which ends where one follows. -/
theorem exists_nodup_append (l : List α) :
    ∃ d r, l = d ++ r ∧ d.Nodup ∧ ∀ a ∈ r.head?, a ∈ d := by
  have hextend : ∀ (r d : List α), d.Nodup →
      ∃ d' r', d ++ r = d' ++ r' ∧ d'.Nodup ∧ ∀ a ∈ r'.head?, a ∈ d' := by
    intro r
    induction r with
    | nil => exact fun d hd => ⟨d, [], rfl, hd, nofun⟩
    | cons a r ih =>
        intro d hd
        by_cases ha : a ∈ d
        · exact ⟨d, a :: r, rfl, hd, by simpa using ha⟩
        · obtain ⟨d', r', heq, h⟩ := ih (d.concat a) ((List.nodup_concat d a).mpr ⟨ha, hd⟩)
          exact ⟨d', r', by rw [← heq, List.concat_append], h⟩
  exact hextend l [] List.nodup_nil

section Front

variable {d r : List α} (hd : d.Nodup)

include hd

/-- The walk does not leave the front part. -/
theorem succ_mem (hr : ∀ a ∈ r.head?, a ∈ d) {a : α} (ha : a ∈ d) : succ (d ++ r) a ∈ d := by
  obtain ⟨i, hi, rfl⟩ := List.getElem_of_mem ha
  rcases Nat.lt_or_ge (i + 1) d.length with hlt | hge
  · rw [succ_getElem hd r hlt]
    exact List.getElem_mem hlt
  · have hlast := succ_getLast hd r (by omega : i + 1 = d.length)
    cases r with
    | nil => exact List.mem_of_mem_head? hlast
    | cons x r => exact hr _ hlast

theorem iterate_succ_mem (hr : ∀ a ∈ r.head?, a ∈ d) {a : α} (ha : a ∈ d) (k : ℕ) :
    (succ (d ++ r))^[k] a ∈ d := by
  induction k with
  | zero => exact ha
  | succ k ih =>
      rw [Function.iterate_succ_apply']
      exact succ_mem hd hr ih

/-- Only the end of the front part can lead to its beginning. -/
theorem head_of_succ_eq {a x : α} (ha : a ∈ d) (hx : x ∈ d.head?)
    (hsucc : succ (d ++ r) a = x) : (r ++ d).head? = some x := by
  obtain ⟨i, hi, rfl⟩ := List.getElem_of_mem ha
  rcases Nat.lt_or_ge (i + 1) d.length with hlt | hge
  · rw [succ_getElem hd r hlt] at hsucc
    rw [List.head?_eq_getElem?, List.getElem?_eq_getElem (by omega)] at hx
    have hzero : i + 1 = 0 := (hd.getElem_inj_iff).mp (hsucc.trans (Option.some.inj hx).symm)
    omega
  · rw [← hsucc]
    exact succ_getLast hd r (by omega)

/-- The walk goes round the front part when the list begins anew behind it. -/
theorem iterate_succ_getElem (hr : ∀ a ∈ r.head?, a ∈ d.head?) {i : ℕ} (hi : i < d.length)
    (k : ℕ) : d[(i + k) % d.length]? = some ((succ (d ++ r))^[k] d[i]) := by
  induction k with
  | zero => rw [Nat.add_zero, Nat.mod_eq_of_lt hi, List.getElem?_eq_getElem hi]; rfl
  | succ k ih =>
      have hlt : (i + k) % d.length < d.length := Nat.mod_lt _ (by omega)
      rw [List.getElem?_eq_getElem hlt, Option.some_inj] at ih
      rw [Function.iterate_succ_apply', ← ih, ← Nat.add_assoc, ← Nat.mod_add_mod]
      rcases Nat.lt_or_ge ((i + k) % d.length + 1) d.length with hin | hend
      · rw [succ_getElem hd r hin, Nat.mod_eq_of_lt hin, List.getElem?_eq_getElem hin]
      · have hlast : (i + k) % d.length + 1 = d.length := by omega
        rw [hlast, Nat.mod_self, ← List.head?_eq_getElem?, ← succ_getLast hd r hlast]
        cases r with
        | nil => rfl
        | cons x r => exact hr x rfl

end Front

/-- **The walk comes past every element, from any of them, exactly when the list loops back.** -/
theorem covers_iff {l : List α} {a : α} (ha : a ∈ l) : Covers l a ↔ LoopsBack l := by
  constructor
  · intro hcov
    obtain ⟨d, r, rfl, hd, hr⟩ := exists_nodup_append l
    -- the walk comes past the first element, stays in front of the repetition from there on,
    -- and comes back
    obtain ⟨x, hx⟩ : ∃ x, x ∈ d.head? := by
      cases d with
      | nil =>
          cases r with
          | nil => cases ha
          | cons x r => exact absurd (hr x rfl) List.not_mem_nil
      | cons x d => exact ⟨x, rfl⟩
    have hxd : x ∈ d := List.mem_of_mem_head? hx
    obtain ⟨j, -, -, hj⟩ := hcov x (List.mem_append_left r hxd)
    obtain ⟨k, hk, -, hback⟩ := hcov a ha
    have had : a ∈ d := by
      have hper : (succ (d ++ r))^[k * j] a = a :=
        Function.IsPeriodicPt.mul_const hback j
      have hle : j ≤ k * j := Nat.le_mul_of_pos_left j hk
      rw [← Nat.sub_add_cancel hle, Function.iterate_add_apply, hj] at hper
      exact hper ▸ iterate_succ_mem hd hr hxd _
    refine ⟨d, r, rfl, hd, fun b hb => ?_, fun b hb => ?_⟩
    · obtain ⟨i, -, -, rfl⟩ := hcov b (List.mem_append_right d hb)
      exact iterate_succ_mem hd hr had i
    · obtain ⟨i, hi, -, hlast⟩ := hcov x (List.mem_append_left r hxd)
      obtain ⟨i, rfl⟩ := Nat.exists_eq_add_of_le' hi
      rw [Function.iterate_succ_apply'] at hlast
      have hhead := head_of_succ_eq hd (iterate_succ_mem hd hr had i) hx hlast
      rw [List.head?_append, hb, Option.some_or] at hhead
      rwa [Option.some_inj.mp hhead]
  · rintro ⟨d, r, rfl, hd, hsub, hr⟩ b hb
    have hfront : ∀ c ∈ d ++ r, c ∈ d := by
      intro c hc
      exact (List.mem_append.mp hc).elim id fun hc => hsub hc
    obtain ⟨i, hi, rfl⟩ := List.getElem_of_mem (hfront a ha)
    obtain ⟨j, hj, rfl⟩ := List.getElem_of_mem (hfront b hb)
    have hlen : d.length ≤ (d ++ r).length := by simp
    obtain ⟨k, hk, hkle, hmod⟩ : ∃ k, 1 ≤ k ∧ k ≤ d.length ∧ (i + k) % d.length = j := by
      rcases Nat.lt_or_ge i j with hij | hij
      · refine ⟨j - i, by omega, by omega, ?_⟩
        rw [Nat.add_sub_cancel' hij.le, Nat.mod_eq_of_lt hj]
      · refine ⟨d.length + j - i, by omega, by omega, ?_⟩
        rw [Nat.add_sub_cancel' (by omega), Nat.add_mod_left, Nat.mod_eq_of_lt hj]
    have hwalk := iterate_succ_getElem hd hr hi k
    rw [hmod, List.getElem?_eq_getElem hj, Option.some_inj] at hwalk
    exact ⟨k, hk, hkle.trans hlen, hwalk.symm⟩

end CyclicWalk
