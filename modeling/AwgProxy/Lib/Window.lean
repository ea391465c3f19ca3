import AwgProxy.Lib.Memory

/-!
# Windows of a Buffer

A window is a range of bytes of a buffer, as a function is given one with a pointer and a
length. `Mem.readIn?` and `Mem.writeIn?` fail outside of it, whatever lies there: where a
program made of them succeeds, the program without the checks touches the window alone.

A buffer has no bytes beyond its end, but the buffer around a window has, so that these checks
are more than those of `Mem.read?` and `Mem.write?`.
-/

/-- A range of bytes of a buffer. -/
structure Window (ι : Type*) where
  /-- Where it starts. -/
  base : Ptr ι
  /-- The number of its bytes. -/
  len : ℕ

namespace Window

variable {ι : Type*}

/-- The `n` bytes from `p` on lie in the window. -/
def Holds (w : Window ι) (p : Ptr ι) (n : ℕ) : Prop :=
  p.buf = w.base.buf ∧ w.base.off ≤ p.off ∧ p.off + n ≤ w.base.off + w.len

instance [DecidableEq ι] (w : Window ι) (p : Ptr ι) (n : ℕ) : Decidable (w.Holds p n) :=
  inferInstanceAs (Decidable (_ ∧ _ ∧ _))

/-- A part of the window. -/
theorem holds_add {p : Ptr ι} {n i k : ℕ} (h : i + k ≤ n) : Holds ⟨p, n⟩ (p.add i) k := by
  refine ⟨rfl, ?_, ?_⟩
  · dsimp only [Ptr.add_off]
    omega
  · dsimp only [Ptr.add_off]
    omega

/-- The head of the window. -/
theorem holds_base {p : Ptr ι} {n k : ℕ} (h : k ≤ n) : Holds ⟨p, n⟩ p k :=
  holds_add (i := 0) (by omega)

end Window

namespace Mem

variable {ι : Type*} [DecidableEq ι]

/-- A read that fails outside the window. -/
def readIn? (m : Mem ι) (w : Window ι) (p : Ptr ι) (n : ℕ) : Option Bytes :=
  if w.Holds p n then some (m.read p n) else none

/-- A write that fails outside the window. -/
def writeIn? (m : Mem ι) (w : Window ι) (p : Ptr ι) (d : Bytes) : Option (Mem ι) :=
  if w.Holds p d.length then some (m.write p d) else none

theorem readIn?_eq_some (m : Mem ι) {w : Window ι} {p : Ptr ι} {n : ℕ} (h : w.Holds p n) :
    m.readIn? w p n = some (m.read p n) :=
  if_pos h

theorem writeIn?_eq_some (m : Mem ι) {w : Window ι} {p : Ptr ι} {d : Bytes}
    (h : w.Holds p d.length) : m.writeIn? w p d = some (m.write p d) :=
  if_pos h

end Mem
