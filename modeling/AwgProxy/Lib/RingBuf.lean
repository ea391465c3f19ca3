import Mathlib.Data.List.Basic
import Mathlib.Logic.Function.Basic

/-!
# Ring Buffers

A ring buffer of `N` slots: the slot of the oldest item and the number of items, the slots
counted round. Seen from outside it is the list of its items, oldest first.

* `items_push` — an item more is an item at the end.
* `items_drop` — the oldest ones leave first.
* `Ok` — the head is a slot, and there are no more items than slots.
-/

/-- A ring buffer, of a capacity its operations are given. -/
structure RingBuf (α : Type*) where
  /-- The slots. -/
  buf : ℕ → α
  /-- The slot of the oldest item. -/
  head : ℕ
  /-- The number of items. -/
  n : ℕ

namespace RingBuf

variable {α : Type*} (N : ℕ)

/-- Slot `i` from the oldest item on. -/
def get (r : RingBuf α) (i : ℕ) : α := r.buf ((r.head + i) % N)

/-- The items, oldest first. -/
def items (r : RingBuf α) : List α := (List.range r.n).map (r.get N)

/-- An item more. -/
def push (a : α) (r : RingBuf α) : RingBuf α :=
  { r with buf := Function.update r.buf ((r.head + r.n) % N) a, n := r.n + 1 }

/-- Without the `k` oldest items. -/
def drop (k : ℕ) (r : RingBuf α) : RingBuf α :=
  { r with head := (r.head + k) % N, n := r.n - k }

/-- Without its items. -/
def clear (r : RingBuf α) : RingBuf α := { r with n := 0 }

/-- The head is a slot, and the items have a slot each. -/
structure Ok (r : RingBuf α) : Prop where
  /-- The head is a slot. -/
  head_lt : r.head < N
  /-- There are no more items than slots. -/
  n_le : r.n ≤ N

variable {N} {r : RingBuf α}

@[simp] theorem length_items : (r.items N).length = r.n := by
  simp [items]

@[simp] theorem items_clear : r.clear.items N = [] := rfl

@[simp] theorem n_push (a : α) : (r.push N a).n = r.n + 1 := rfl

@[simp] theorem n_drop (k : ℕ) : (r.drop N k).n = r.n - k := rfl

theorem items_eq_nil_iff : r.items N = [] ↔ r.n = 0 := by
  rw [← List.length_eq_zero_iff, length_items]

/-- The oldest item stands at the head. -/
theorem items_eq_cons (h : r.n ≠ 0) : ∃ l, r.items N = r.get N 0 :: l := by
  obtain ⟨n, hn⟩ := Nat.exists_eq_succ_of_ne_zero h
  rw [items, hn, List.range_succ_eq_map, List.map_cons]
  exact ⟨_, rfl⟩

/-- Slots less than a turn apart are different. -/
theorem slot_ne {h i j : ℕ} (hij : i < j) (hj : j < i + N) : (h + i) % N ≠ (h + j) % N := by
  intro heq
  have hdvd : N ∣ (h + j) - (h + i) :=
    Nat.dvd_of_mod_eq_zero (Nat.sub_mod_eq_zero_of_mod_eq heq.symm)
  have hle := Nat.le_of_dvd (by omega) hdvd
  omega

/-- The item pushed is behind the others. -/
theorem items_push (hr : r.n < N) (a : α) : (r.push N a).items N = r.items N ++ [a] := by
  rw [items, n_push, List.range_succ, List.map_append, List.map_singleton]
  congr 1
  · refine List.map_congr_left fun i hi => ?_
    have hi := List.mem_range.mp hi
    exact Function.update_of_ne (slot_ne hi (by omega)) _ _
  · exact congrArg ([·]) (Function.update_self _ _ _)

/-- The items left behind the oldest ones. -/
theorem items_drop (k : ℕ) : (r.drop N k).items N = (r.items N).drop k := by
  refine List.ext_getElem (by simp) fun i hi _ => ?_
  simp only [items, List.getElem_map, List.getElem_range, List.getElem_drop, get, drop,
    Nat.mod_add_mod, Nat.add_assoc]

/-- The oldest items. -/
theorem take_items {k : ℕ} (hk : k ≤ r.n) :
    (List.range k).map (r.get N) = (r.items N).take k := by
  rw [items, ← List.map_take, List.take_range, Nat.min_eq_left hk]

theorem Ok.push (h : r.Ok N) (hr : r.n < N) (a : α) : (r.push N a).Ok N :=
  ⟨h.head_lt, hr⟩

theorem Ok.drop (h : r.Ok N) (k : ℕ) : (r.drop N k).Ok N :=
  ⟨Nat.mod_lt _ (Nat.zero_lt_of_lt h.head_lt), Nat.le_trans (Nat.sub_le _ _) h.n_le⟩

theorem Ok.clear (h : r.Ok N) : r.clear.Ok N := ⟨h.head_lt, Nat.zero_le _⟩

end RingBuf
