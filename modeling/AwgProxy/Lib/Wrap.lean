import Mathlib.Tactic.Ring

/-!
# Clocks that Wrap

A clock of 32 bits counts its ticks modulo `2 ^ 32`. Two of its stamps are compared by their
difference: read with a sign it tells which came first, as long as less than half a turn lies
between them (`nonneg_sub_iff`).
-/

namespace Wrap

/-- The upper half of a turn reads as negative. -/
theorem neg_iff (x : UInt32) : x.toInt32 < 0 ↔ 2 ^ 31 ≤ x.toNat := by
  have hlt := x.toNat_lt
  have hint : x.toInt32.toInt = if 2 * x.toNat < 2 ^ 32 then (x.toNat : ℤ) else x.toNat - 2 ^ 32 :=
    BitVec.toInt_eq_toNat_cond x.toBitVec
  have hzero : (0 : Int32).toInt = 0 := rfl
  rw [Int32.lt_iff_toInt_lt, hint, hzero]
  split <;> omega

theorem nonneg_iff (x : UInt32) : 0 ≤ x.toInt32 ↔ x.toNat < 2 ^ 31 := by
  rw [← Int32.not_lt, neg_iff, Nat.not_le]

theorem pos_iff (x : UInt32) : 0 < x.toInt32 ↔ 0 < x.toNat ∧ x.toNat < 2 ^ 31 := by
  have hlt := x.toNat_lt
  have hint : x.toInt32.toInt = if 2 * x.toNat < 2 ^ 32 then (x.toNat : ℤ) else x.toNat - 2 ^ 32 :=
    BitVec.toInt_eq_toNat_cond x.toBitVec
  have hzero : (0 : Int32).toInt = 0 := rfl
  rw [Int32.lt_iff_toInt_lt, hint, hzero]
  split <;> omega

/-- Of two stamps of the first half turn the later one is ahead. -/
theorem pos_sub_iff {x y : UInt32} (hx : x.toNat < 2 ^ 31) (hy : y.toNat < 2 ^ 31) :
    0 < (x - y).toInt32 ↔ y.toNat < x.toNat := by
  rw [pos_iff, UInt32.toNat_sub]
  omega

/-- What is left of a difference of two stamps from one start. -/
theorem add_sub_add (start k d : UInt32) : start + k - (start + d) = k - d := by
  refine UInt32.toNat_inj.mp ?_
  have hstart := start.toNat_lt
  have hk := k.toNat_lt
  have hd := d.toNat_lt
  simp only [UInt32.toNat_sub, UInt32.toNat_add]
  omega

/-- The stamp `k` ticks on is not before the one `d` ticks on. -/
theorem nonneg_sub_iff {k d : UInt32} (start : UInt32) (hk : k.toNat < 2 ^ 31)
    (hd : d.toNat ≤ 2 ^ 31) : 0 ≤ (start + k - (start + d)).toInt32 ↔ d ≤ k := by
  rw [add_sub_add, nonneg_iff, UInt32.le_iff_toNat_le, UInt32.toNat_sub]
  omega

/-- No stamp of the half turn from the start on is before it. -/
theorem not_neg_sub {k : UInt32} (start : UInt32) (hk : k.toNat < 2 ^ 31) :
    ¬ (start + k - start).toInt32 < 0 := by
  have hzero : (0 : UInt32).toNat ≤ 2 ^ 31 := Nat.zero_le _
  have hstart := nonneg_sub_iff start hk hzero
  rw [UInt32.add_zero] at hstart
  exact Int32.not_lt.mpr (hstart.mpr (UInt32.le_iff_toNat_le.mpr (Nat.zero_le _)))

end Wrap
