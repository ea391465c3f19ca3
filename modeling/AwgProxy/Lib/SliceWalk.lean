import Mathlib.Data.List.Basic
import Mathlib.Tactic.Ring

/-!
# Walking a Range in Slices, over Several Turns

A range of `total` units is cut into slices of `seg` units, the last one possibly shorter
(`slices`). A turn walks over them from its cursor on, for as long as its state asks for more
(`walk`), and the cursor it stops at is where the next turn goes on. Whatever the state makes
of a slice, a turn takes a run of consecutive slices (`exists_taken`), so what several turns
have taken is always the first `k` of them, with the cursor at the next (`CursorAt`).

* `walk_eq_foldl` — a walk is the fold over what it has taken.
* `exists_taken` — a turn takes the slices from its cursor to the one it stops at, and at
  least one when it can.
* `CursorAt.pending_iff` — the cursor tells whether slices are left.
-/

namespace SliceWalk

/-! ### The slices of a range -/

/-- The number of slices. -/
def sliceCount (seg total : ℕ) : ℕ :=
  (total + seg - 1) / seg

/-- The `k`-th slice: where it starts, and where it ends. -/
def slice (seg total k : ℕ) : ℕ × ℕ :=
  (k * seg, min ((k + 1) * seg) total)

/-- The slices of a range, in order. -/
def slices (seg total : ℕ) : List (ℕ × ℕ) :=
  (List.range (sliceCount seg total)).map (slice seg total)

@[simp] theorem length_slices (seg total : ℕ) :
    (slices seg total).length = sliceCount seg total := by
  rw [slices, List.length_map, List.length_range]

/-- A slice starts inside the range. -/
theorem lt_sliceCount_iff {seg total k : ℕ} (hseg : 0 < seg) :
    k < sliceCount seg total ↔ k * seg < total := by
  rw [sliceCount, Nat.lt_div_iff_mul_lt hseg]
  omega

/-- A slice is a part of the range that is not empty. -/
theorem slice_bounds {seg total k : ℕ} (hseg : 0 < seg) (hk : k < sliceCount seg total) :
    (slice seg total k).1 < (slice seg total k).2 ∧ (slice seg total k).2 ≤ total := by
  have hlt := (lt_sliceCount_iff hseg).mp hk
  refine ⟨lt_min ?_ hlt, min_le_right _ _⟩
  rw [Nat.succ_mul]
  exact Nat.lt_add_of_pos_right hseg

/-- A range of at most one slice. -/
theorem sliceCount_of_le {seg total : ℕ} (hpos : 0 < total) (h : total ≤ seg) :
    sliceCount seg total = 1 := by
  rw [sliceCount, Nat.div_eq_iff (by omega)]
  omega

/-- The only slice of a short range is all of it. -/
theorem slices_of_le {seg total : ℕ} (hpos : 0 < total) (h : total ≤ seg) :
    slices seg total = [(0, total)] := by
  rw [slices, sliceCount_of_le hpos h, List.range_one, List.map_singleton, slice, Nat.zero_mul,
    Nat.zero_add, Nat.one_mul, min_eq_right h]

/-- The slices from the `k`-th to the `j`-th follow the first `k`. -/
theorem take_slices_append {seg total k j : ℕ} (hkj : k ≤ j) (hj : j ≤ sliceCount seg total) :
    (slices seg total).take k ++ (List.range' k (j - k)).map (slice seg total) =
      (slices seg total).take j := by
  have htake : ∀ i ≤ sliceCount seg total,
      (slices seg total).take i = (List.range' 0 i).map (slice seg total) := by
    intro i hi
    rw [slices, ← List.map_take, List.take_range, min_eq_left hi, List.range_eq_range']
  rw [htake k (hkj.trans hj), htake j hj, ← List.map_append]
  have happ := @List.range'_append 0 k (j - k) 1
  rw [Nat.one_mul, Nat.zero_add, Nat.add_sub_cancel' hkj] at happ
  rw [happ]

/-! ### A turn -/

variable {σ : Type*} (more : σ → Prop) [DecidablePred more] (step : σ → ℕ × ℕ → σ)
  (seg total : ℕ)

/-- A turn from the cursor `off` on: slices are worked on while there are any and the state
asks for more. Returns the state and the cursor; `fuel` bounds the slices. -/
def walk : ℕ → σ → ℕ → σ × ℕ
  | 0, s, off => (s, off)
  | fuel + 1, s, off =>
      if off < total ∧ more s then walk fuel (step s (off, min (off + seg) total)) (off + seg)
      else (s, off)

/-- The slices such a turn takes, each with the state it is taken in. -/
def taken : ℕ → σ → ℕ → List (σ × ℕ × ℕ)
  | 0, _, _ => []
  | fuel + 1, s, off =>
      if off < total ∧ more s then
        (s, off, min (off + seg) total) ::
          taken fuel (step s (off, min (off + seg) total)) (off + seg)
      else []

/-- A walk works on what it takes, and its cursor moves by as many slices. -/
theorem walk_eq_foldl (fuel : ℕ) (s : σ) (off : ℕ) :
    walk more step seg total fuel s off =
      (((taken more step seg total fuel s off).map Prod.snd).foldl step s,
        off + (taken more step seg total fuel s off).length * seg) := by
  induction fuel generalizing s off with
  | zero => rw [walk, taken, List.length_nil, Nat.zero_mul, Nat.add_zero]; rfl
  | succ fuel ih =>
      rw [walk, taken]
      split
      · rw [ih, List.map_cons, List.foldl_cons, List.length_cons, Nat.succ_mul]
        congr 1
        omega
      · rw [List.length_nil, Nat.zero_mul, Nat.add_zero]
        rfl

variable {more step seg total}

/-- What every slice of the range keeps while the state asks for more, a turn keeps. -/
theorem walk_induction {P : σ → Prop}
    (hstep : ∀ s off, P s → more s → off < total → P (step s (off, min (off + seg) total)))
    (fuel : ℕ) {s : σ} (off : ℕ) (h : P s) : P (walk more step seg total fuel s off).1 := by
  induction fuel generalizing s off with
  | zero => exact h
  | succ fuel ih =>
      rw [walk]
      split
      · rename_i hgo
        exact ih (off + seg) (hstep s off h hgo.2 hgo.1)
      · exact h

/-- **A turn takes consecutive slices**, from the one its cursor is at, and at least one when
there is one and the state asks for it. -/
theorem exists_taken (hseg : 0 < seg) (fuel : ℕ) (s : σ) {k : ℕ}
    (hk : k ≤ sliceCount seg total) :
    ∃ j, (k ≤ j ∧ j ≤ sliceCount seg total) ∧
      (taken more step seg total fuel s (k * seg)).map Prod.snd =
        (List.range' k (j - k)).map (slice seg total) ∧
      (0 < fuel → k < sliceCount seg total → more s → k < j) := by
  induction fuel generalizing s k with
  | zero => exact ⟨k, ⟨le_rfl, hk⟩, by rw [Nat.sub_self]; rfl, fun h => absurd h (Nat.lt_irrefl 0)⟩
  | succ fuel ih =>
      rw [taken]
      split
      · rename_i hgo
        have hlt : k < sliceCount seg total := (lt_sliceCount_iff hseg).mpr hgo.1
        obtain ⟨j, ⟨hkj, hj⟩, htaken, -⟩ :=
          ih (step s (k * seg, min (k * seg + seg) total)) (k := k + 1) hlt
        refine ⟨j, ⟨by omega, hj⟩, ?_, fun _ _ _ => hkj⟩
        rw [← Nat.succ_mul] at htaken ⊢
        rw [List.map_cons, htaken, show j - k = (j - (k + 1)) + 1 by omega, List.range'_succ,
          List.map_cons]
        rfl
      · rename_i hstop
        refine ⟨k, ⟨le_rfl, hk⟩, by rw [Nat.sub_self]; rfl, fun _ hlt hmore => ?_⟩
        exact absurd ⟨(lt_sliceCount_iff hseg).mp hlt, hmore⟩ hstop

/-- The number of slices a turn takes. -/
theorem length_taken {fuel : ℕ} {s : σ} {off k j : ℕ}
    (h : (taken more step seg total fuel s off).map Prod.snd =
      (List.range' k (j - k)).map (slice seg total)) :
    (taken more step seg total fuel s off).length = j - k := by
  have hlen := congrArg List.length h
  rwa [List.length_map, List.length_map, List.length_range'] at hlen

/-! ### The cursor between turns -/

/-- The cursor when the first `k` slices are taken: it keeps the range and stands at the next
slice, or is cleared when there is none. -/
def CursorAt (seg total k off ptotal pseg : ℕ) : Prop :=
  k < sliceCount seg total ∧ off = k * seg ∧ ptotal = total ∧ pseg = seg ∨
    k = sliceCount seg total ∧ off = 0 ∧ ptotal = 0

theorem CursorAt.le {k off ptotal pseg : ℕ} (h : CursorAt seg total k off ptotal pseg) :
    k ≤ sliceCount seg total := by
  rcases h with ⟨hk, -⟩ | ⟨hk, -⟩
  · exact hk.le
  · exact hk.le

/-- The cursor tells whether slices are left. -/
theorem CursorAt.pending_iff {k off ptotal pseg : ℕ} (hseg : 0 < seg)
    (h : CursorAt seg total k off ptotal pseg) : off < ptotal ↔ k < sliceCount seg total := by
  rcases h with ⟨hk, rfl, rfl, -⟩ | ⟨rfl, rfl, rfl⟩
  · exact (lt_sliceCount_iff hseg).symm
  · exact iff_of_false (Nat.lt_irrefl 0) (Nat.lt_irrefl _)

/-- A pending cursor keeps the range and stands at the next slice. -/
theorem CursorAt.of_pending {k off ptotal pseg : ℕ} (h : CursorAt seg total k off ptotal pseg)
    (hp : off < ptotal) :
    k < sliceCount seg total ∧ off = k * seg ∧ ptotal = total ∧ pseg = seg := by
  refine h.resolve_right ?_
  rintro ⟨-, rfl, rfl⟩
  exact Nat.lt_irrefl 0 hp

/-- The cursor where a turn stops is kept inside the range and cleared behind it. -/
theorem cursorAt_of_stop {k off ptotal pseg : ℕ} (hseg : 0 < seg) (hk : k ≤ sliceCount seg total)
    (h : if k * seg < total then off = k * seg ∧ ptotal = total ∧ pseg = seg
      else off = 0 ∧ ptotal = 0) : CursorAt seg total k off ptotal pseg := by
  have hlt : k < sliceCount seg total ↔ k * seg < total := lt_sliceCount_iff hseg
  split at h
  · rename_i hin
    exact Or.inl ⟨hlt.mpr hin, h⟩
  · rename_i hout
    exact Or.inr ⟨le_antisymm hk (Nat.not_lt.mp fun hcon => hout (hlt.mp hcon)), h⟩

end SliceWalk
