import Mathlib.Logic.Function.Basic
import AwgProxy.Lib.Bytes

/-!
# Buffers and Pointers

A memory is a family of byte buffers; a pointer names a buffer and an offset into it. A
program that queues pointers and fills buffers through several of them is about exactly
two facts: what a read sees of an earlier write to the same place (`read_write_self`,
`read_write_of_subset`), and that it sees nothing of a write elsewhere
(`read_write_of_apart`).

`read?`, `write?` and `Ptr.sub?` are the accesses that fail outside a buffer: where a program
made of them succeeds, the program without the checks stays inside its buffers.

`ChangesIn m m' p n` says that two memories differ at most in the `n` bytes from `p` on:
the frame of a function that writes there. `Fits m p n` says that `n` bytes from `p` on lie
inside the buffer. A write that fits keeps the length of every buffer, so a program whose
writes fit never changes what fits (`fits_write`).
-/

/-- A pointer: a buffer and an offset into it. -/
@[ext] structure Ptr (ι : Type*) where
  /-- The buffer. -/
  buf : ι
  /-- The offset of the byte pointed at. -/
  off : ℕ
  deriving DecidableEq

/-- Pointer arithmetic. -/
def Ptr.add {ι : Type*} (p : Ptr ι) (n : ℕ) : Ptr ι :=
  ⟨p.buf, p.off + n⟩

@[simp] theorem Ptr.add_buf {ι : Type*} (p : Ptr ι) (n : ℕ) : (p.add n).buf = p.buf := rfl

@[simp] theorem Ptr.add_off {ι : Type*} (p : Ptr ι) (n : ℕ) :
    (p.add n).off = p.off + n := rfl

/-- Pointer arithmetic towards the start of the buffer. -/
def Ptr.sub {ι : Type*} (p : Ptr ι) (n : ℕ) : Ptr ι :=
  ⟨p.buf, p.off - n⟩

@[simp] theorem Ptr.sub_buf {ι : Type*} (p : Ptr ι) (n : ℕ) : (p.sub n).buf = p.buf := rfl

@[simp] theorem Ptr.sub_off {ι : Type*} (p : Ptr ι) (n : ℕ) :
    (p.sub n).off = p.off - n := rfl

theorem Ptr.sub_add_cancel {ι : Type*} {p : Ptr ι} {n : ℕ} (h : n ≤ p.off) :
    (p.sub n).add n = p := by
  ext
  · rfl
  · exact Nat.sub_add_cancel h

/-- Pointer arithmetic towards the start of the buffer that fails in front of it. -/
def Ptr.sub? {ι : Type*} (p : Ptr ι) (n : ℕ) : Option (Ptr ι) :=
  if n ≤ p.off then some (p.sub n) else none

theorem Ptr.sub?_eq_some {ι : Type*} {p : Ptr ι} {n : ℕ} (h : n ≤ p.off) :
    p.sub? n = some (p.sub n) :=
  if_pos h

@[simp] theorem Ptr.add_zero {ι : Type*} (p : Ptr ι) : p.add 0 = p := rfl

/-- A family of byte buffers. -/
def Mem (ι : Type*) := ι → Bytes

namespace Mem

variable {ι : Type*}

/-- The `n` bytes from `p` on. -/
def read (m : Mem ι) (p : Ptr ι) (n : ℕ) : Bytes :=
  (m p.buf).slice p.off n

/-- The `n` bytes from `p` on lie inside the buffer. -/
def Fits (m : Mem ι) (p : Ptr ι) (n : ℕ) : Prop :=
  p.off + n ≤ (m p.buf).length

instance (m : Mem ι) (p : Ptr ι) (n : ℕ) : Decidable (m.Fits p n) :=
  inferInstanceAs (Decidable (_ ≤ _))

/-- The range of `n` bytes from `p` and that of `k` bytes from `q` do not meet. -/
def Apart (p : Ptr ι) (n : ℕ) (q : Ptr ι) (k : ℕ) : Prop :=
  p.buf ≠ q.buf ∨ p.off + n ≤ q.off ∨ q.off + k ≤ p.off

theorem Fits.mono {m : Mem ι} {p : Ptr ι} {n k : ℕ} (h : m.Fits p n) (hk : k ≤ n) :
    m.Fits p k := by
  unfold Fits at *
  omega

/-- A part of a range that fits, fits. -/
theorem Fits.add {m : Mem ι} {p : Ptr ι} {n i k : ℕ} (h : m.Fits p n) (hk : i + k ≤ n) :
    m.Fits (p.add i) k := by
  simp only [Fits, Ptr.add_buf, Ptr.add_off] at *
  omega

theorem length_read {m : Mem ι} {p : Ptr ι} {n : ℕ} (h : m.Fits p n) :
    (m.read p n).length = n :=
  Bytes.length_slice_of_le h

/-- A read splits at every point. -/
theorem read_add (m : Mem ι) (p : Ptr ι) (n k : ℕ) :
    m.read p (n + k) = m.read p n ++ m.read (p.add n) k :=
  Bytes.slice_add _ _ _ _

/-- A read inside a larger one. -/
theorem read_add_eq_slice (m : Mem ι) (p : Ptr ι) {i n k : ℕ} (h : i + n ≤ k) :
    m.read (p.add i) n = (m.read p k).slice i n :=
  (Bytes.slice_slice h).symm

/-- Two memories whose buffers have the same lengths. -/
def SameShape (m m' : Mem ι) : Prop :=
  ∀ i, (m' i).length = (m i).length

theorem SameShape.refl (m : Mem ι) : m.SameShape m :=
  fun _ => rfl

theorem SameShape.trans {m m' m'' : Mem ι} (h : m.SameShape m') (h' : m'.SameShape m'') :
    m.SameShape m'' :=
  fun i => (h' i).trans (h i)

/-- What fits depends on the lengths alone. -/
theorem SameShape.fits_iff {m m' : Mem ι} (h : m.SameShape m') {p : Ptr ι} {n : ℕ} :
    m'.Fits p n ↔ m.Fits p n := by
  simp only [Fits, h p.buf]

/-! ### Writes -/

variable [DecidableEq ι]

/-- The memory with the bytes from `p` on overwritten by `d`. -/
def write (m : Mem ι) (p : Ptr ι) (d : Bytes) : Mem ι :=
  Function.update m p.buf ((m p.buf).patch p.off d)

@[simp] theorem write_buf_self (m : Mem ι) (p : Ptr ι) (d : Bytes) :
    m.write p d p.buf = (m p.buf).patch p.off d :=
  Function.update_self ..

theorem write_buf_of_ne (m : Mem ι) {p : Ptr ι} (d : Bytes) {i : ι} (h : i ≠ p.buf) :
    m.write p d i = m i :=
  Function.update_of_ne h ..

/-- A write that fits keeps the length of every buffer. -/
theorem length_write {m : Mem ι} {p : Ptr ι} {d : Bytes} (h : m.Fits p d.length) (i : ι) :
    (m.write p d i).length = (m i).length := by
  by_cases hi : i = p.buf
  · subst hi
    rw [write_buf_self, Bytes.length_patch h]
  · rw [write_buf_of_ne m d hi]

theorem sameShape_write {m : Mem ι} {p : Ptr ι} {d : Bytes} (h : m.Fits p d.length) :
    m.SameShape (m.write p d) :=
  length_write h

/-- A write that fits changes nothing about what fits. -/
theorem fits_write {m : Mem ι} {p : Ptr ι} {d : Bytes} (h : m.Fits p d.length) {q : Ptr ι}
    {n : ℕ} : (m.write p d).Fits q n ↔ m.Fits q n :=
  (sameShape_write h).fits_iff

/-- Reading back what was written. -/
theorem read_write_self {m : Mem ι} {p : Ptr ι} {d : Bytes} (h : m.Fits p d.length) :
    (m.write p d).read p d.length = d := by
  unfold Fits at h
  rw [read, write_buf_self, Bytes.slice_patch_self (by omega)]

/-- A read sees nothing of a write elsewhere. -/
theorem read_write_of_apart {m : Mem ι} {p q : Ptr ι} {d : Bytes} {n : ℕ}
    (h : m.Fits p d.length) (ha : Apart q n p d.length) :
    (m.write p d).read q n = m.read q n := by
  unfold Fits at h
  unfold read
  by_cases hb : q.buf = p.buf
  · rw [hb, write_buf_self]
    rcases ha with ha | ha
    · exact absurd hb ha
    · exact Bytes.slice_patch_of_disjoint (by omega) ha
  · rw [write_buf_of_ne m d hb]

/-- A read around a write sees the old range, overwritten. -/
theorem read_write_of_subset {m : Mem ι} {p : Ptr ι} {d : Bytes} {i n : ℕ}
    (h : m.Fits p n) (hd : i + d.length ≤ n) :
    (m.write (p.add i) d).read p n = (m.read p n).patch i d := by
  unfold Fits at h
  have hb : (m.write (p.add i) d) p.buf = (m p.buf).patch (p.off + i) d :=
    write_buf_self m (p.add i) d
  rw [read, hb, read, Bytes.slice_patch_of_subset (by omega) (by omega) h,
    Nat.add_sub_cancel_left]

/-- A read that starts with a write: what was written, and what stood behind it. -/
theorem read_write_append {m : Mem ι} {p : Ptr ι} {d : Bytes} {n : ℕ}
    (h : m.Fits p (d.length + n)) :
    (m.write p d).read p (d.length + n) = d ++ m.read (p.add d.length) n := by
  have hd : m.Fits p d.length := h.mono (by omega)
  rw [read_add, read_write_self hd, read_write_of_apart hd]
  exact Or.inr (Or.inr le_rfl)

/-- A read that ends with a write: what stood in front of it, and what was written. -/
theorem read_write_add {m : Mem ι} {p : Ptr ι} {d : Bytes} {k : ℕ}
    (h : m.Fits p (k + d.length)) :
    (m.write (p.add k) d).read p (k + d.length) = m.read p k ++ d := by
  have hd : m.Fits (p.add k) d.length := h.add le_rfl
  rw [read_add, read_write_self hd, read_write_of_apart hd]
  exact Or.inr (Or.inl le_rfl)

/-! ### Checked accesses -/

omit [DecidableEq ι] in
/-- A read that fails outside the buffer. -/
def read? (m : Mem ι) (p : Ptr ι) (n : ℕ) : Option Bytes :=
  if m.Fits p n then some (m.read p n) else none

/-- A write that fails outside the buffer. -/
def write? (m : Mem ι) (p : Ptr ι) (d : Bytes) : Option (Mem ι) :=
  if m.Fits p d.length then some (m.write p d) else none

omit [DecidableEq ι] in
theorem read?_eq_some {m : Mem ι} {p : Ptr ι} {n : ℕ} (h : m.Fits p n) :
    m.read? p n = some (m.read p n) :=
  if_pos h

theorem write?_eq_some {m : Mem ι} {p : Ptr ι} {d : Bytes} (h : m.Fits p d.length) :
    m.write? p d = some (m.write p d) :=
  if_pos h

/-! ### Changes inside a range -/

omit [DecidableEq ι] in
theorem read_zero_length (m : Mem ι) (i : ι) : m.read ⟨i, 0⟩ (m i).length = m i :=
  Bytes.slice_zero_length _

/-- `m'` differs from `m` at most inside the `n` bytes from `p` on. -/
structure ChangesIn (m m' : Mem ι) (p : Ptr ι) (n : ℕ) : Prop where
  /-- No buffer changes its length. -/
  shape : m.SameShape m'
  /-- Every range that does not meet the `n` bytes is unchanged. -/
  apart : ∀ q k, Apart q k p n → m'.read q k = m.read q k

namespace ChangesIn

variable {m m' m'' : Mem ι} {p q : Ptr ι} {n k : ℕ}

omit [DecidableEq ι] in
theorem refl (m : Mem ι) (p : Ptr ι) (n : ℕ) : m.ChangesIn m p n :=
  ⟨SameShape.refl m, fun _ _ _ => rfl⟩

omit [DecidableEq ι] in
theorem trans (h : m.ChangesIn m' p n) (h' : m'.ChangesIn m'' p n) : m.ChangesIn m'' p n :=
  ⟨h.shape.trans h'.shape, fun q k ha => (h'.apart q k ha).trans (h.apart q k ha)⟩

omit [DecidableEq ι] in
/-- Changes inside a range are changes inside every range around it. -/
theorem mono (h : m.ChangesIn m' q k) (hb : q.buf = p.buf) (hlo : p.off ≤ q.off)
    (hhi : q.off + k ≤ p.off + n) : m.ChangesIn m' p n := by
  refine ⟨h.shape, fun r j ha => h.apart r j ?_⟩
  rcases ha with ha | ha | ha
  · exact Or.inl (hb ▸ ha)
  · exact Or.inr (Or.inl (by omega))
  · exact Or.inr (Or.inr (by omega))

omit [DecidableEq ι] in
/-- Every other buffer is unchanged. -/
theorem buf_eq (h : m.ChangesIn m' p n) {i : ι} (hi : i ≠ p.buf) : m' i = m i := by
  have hread := h.apart ⟨i, 0⟩ (m i).length (Or.inl hi)
  rwa [read_zero_length, ← h.shape i, read_zero_length] at hread

/-- A write inside the range. -/
theorem write (h : m.Fits p n) {i : ℕ} {d : Bytes} (hd : i + d.length ≤ n) :
    m.ChangesIn (m.write (p.add i) d) p n := by
  have hfits : m.Fits (p.add i) d.length := h.add hd
  have hin : m.ChangesIn (m.write (p.add i) d) (p.add i) d.length :=
    ⟨sameShape_write hfits, fun q k ha => read_write_of_apart hfits ha⟩
  refine hin.mono rfl ?_ ?_
  · simp only [Ptr.add_off]
    omega
  · simp only [Ptr.add_off]
    omega

end ChangesIn

/-! ### Changes inside a buffer -/

/-- `m'` differs from `m` at most inside the buffer `b`. -/
structure ChangesBuf (m m' : Mem ι) (b : ι) : Prop where
  /-- No buffer changes its length. -/
  shape : m.SameShape m'
  /-- Every other buffer is unchanged. -/
  other : ∀ i, i ≠ b → m' i = m i

namespace ChangesBuf

variable {m m' m'' : Mem ι} {b : ι}

omit [DecidableEq ι] in
theorem refl (m : Mem ι) (b : ι) : m.ChangesBuf m b :=
  ⟨SameShape.refl m, fun _ _ => rfl⟩

omit [DecidableEq ι] in
theorem trans (h : m.ChangesBuf m' b) (h' : m'.ChangesBuf m'' b) : m.ChangesBuf m'' b :=
  ⟨h.shape.trans h'.shape, fun i hi => (h'.other i hi).trans (h.other i hi)⟩

/-- A write that fits. -/
theorem write {p : Ptr ι} {d : Bytes} (h : m.Fits p d.length) :
    m.ChangesBuf (m.write p d) p.buf :=
  ⟨sameShape_write h, fun _ hi => write_buf_of_ne m d hi⟩

end ChangesBuf

omit [DecidableEq ι] in
/-- A read depends on its own buffer alone. -/
theorem read_congr {m m' : Mem ι} {p : Ptr ι} (h : m' p.buf = m p.buf) (n : ℕ) :
    m'.read p n = m.read p n := by
  rw [read, read, h]

end Mem
