import Mathlib.Algebra.Order.Group.Multiset
import Mathlib.Data.Finset.Basic
import Mathlib.Tactic.Abel

/-!
# Handle Tables

The handles a program has from a system that hands them out by number and takes them back: a
number is free again as soon as its handle is released, and may be the next one handed out. The
table keeps what is open, and whether a call ever named a handle that was not.

The ledger beside it is the multiset of the handles its holders hold. `Balanced` says that the
two agree, so that each open handle has one holder, no held one has been released, and nothing
is open that nobody holds. A call keeps it if its handle is in the ledger, whoever holds it:

* `Balanced.use`, `Balanced.release`, `Balanced.acquire` — the three calls.
* `Balanced.of_eq` — a handle changes hands.
* `Balanced.stays` — what a step closes, the holder it belonged to has closed.
-/

/-- The handles that are open, and whether a call has named another. -/
structure Handles (α : Type*) where
  /-- What is open. -/
  opened : Finset α
  /-- A call has named a handle that was not open. -/
  refused : Bool

namespace Handles

variable {α : Type*} [DecidableEq α]

/-- A call that only uses its handle. -/
def use (t : Handles α) (x : α) : Handles α :=
  { t with refused := t.refused || decide (x ∉ t.opened) }

/-- The handle is given back. -/
def release (t : Handles α) (x : α) : Handles α :=
  { opened := t.opened.erase x, refused := t.refused || decide (x ∉ t.opened) }

/-- A new handle: any that is not open. -/
def acquire (t : Handles α) (x : α) : Option (Handles α) :=
  if x ∈ t.opened then none else some { t with opened := insert x t.opened }

/-- The handle of a variable that may have none is given back. -/
def releaseAny (t : Handles α) (x : Option α) : Handles α :=
  x.elim t t.release

/-- What a variable that may have none holds. -/
def holding (x : Option α) : Multiset α := x.elim 0 fun a => {a}

omit [DecidableEq α] in
@[simp] theorem holding_none : holding (none : Option α) = 0 := rfl

omit [DecidableEq α] in
@[simp] theorem holding_some (x : α) : holding (some x) = {x} := rfl

omit [DecidableEq α] in
theorem holding_eq_coe (x : Option α) : holding x = ↑x.toList := by
  cases x <;> rfl

omit [DecidableEq α] in
theorem card_holding_le (x : Option α) : (holding x).card ≤ 1 := by
  cases x <;> simp

/-- The table and the ledger agree. -/
structure Balanced (t : Handles α) (held : Multiset α) : Prop where
  /-- What is open is what is held, each once. -/
  opened : t.opened.val = held
  /-- Every call so far had an open handle. -/
  not_refused : t.refused = false

namespace Balanced

variable {t t' : Handles α} {held rest : Multiset α} {x : α}

omit [DecidableEq α] in
/-- Handles that change hands. -/
theorem of_eq (h : t.Balanced held) (he : held = rest) : t.Balanced rest := he ▸ h

omit [DecidableEq α] in
theorem mem (h : t.Balanced held) (hx : x ∈ held) : x ∈ t.opened := by
  rwa [← Finset.mem_val, h.opened]

omit [DecidableEq α] in
/-- A handle is held once. -/
theorem nodup (h : t.Balanced held) : held.Nodup := h.opened ▸ t.opened.nodup

omit [DecidableEq α] in
/-- While the rest of the ledger is as it was, a handle of the first part that is still open is
still in the first part. -/
theorem stays {a a' : Multiset α} (h : t.Balanced (a + rest)) (h' : t'.Balanced (a' + rest))
    (hx : x ∈ a) (hopen : x ∈ t'.opened) : x ∈ a' := by
  rw [← Finset.mem_val, h'.opened] at hopen
  rcases Multiset.mem_add.mp hopen with hmem | hmem
  · exact hmem
  · exact absurd hmem (Multiset.disjoint_left.mp (Multiset.nodup_add.mp h.nodup).2.2 hx)

/-- A held handle may be used. -/
theorem use (h : t.Balanced held) (hx : x ∈ held) : (t.use x).Balanced held := by
  refine ⟨h.opened, ?_⟩
  simp [Handles.use, h.not_refused, h.mem hx]

/-- A holder gives its handle back. -/
theorem release (h : t.Balanced ({x} + rest)) : (t.release x).Balanced rest := by
  have hx : x ∈ t.opened := h.mem (by simp)
  refine ⟨?_, by simp [Handles.release, h.not_refused, hx]⟩
  rw [Handles.release, Finset.erase_val, h.opened, Multiset.singleton_add,
    Multiset.erase_cons_head]

/-- A holder that may have none gives it back. -/
theorem releaseAny {v : Option α} (h : t.Balanced (holding v + rest)) :
    (t.releaseAny v).Balanced rest := by
  cases v with
  | none => exact h.of_eq (zero_add rest)
  | some x => exact h.release

/-- A new handle has a holder. -/
theorem acquire (h : t.Balanced held) (ht : t.acquire x = some t') :
    t'.Balanced ({x} + held) := by
  obtain ⟨hx, ht⟩ := Option.ite_none_left_eq_some.mp ht
  obtain rfl := Option.some.inj ht
  refine ⟨?_, h.not_refused⟩
  rw [Finset.insert_val_of_notMem hx, h.opened, Multiset.singleton_add]

end Balanced

end Handles
