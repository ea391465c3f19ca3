import Mathlib.Data.Fintype.EquivFin
import Mathlib.Data.UInt

/-!
# Words Mixed Without Loss

The steps xorshift generators and finalizers are made of: a word with a shift of itself xored
in, and a word multiplied by an odd constant. Each is injective, since a word that is its own
shift has no bit set (`eq_zero_of_shiftLeft`, `eq_zero_of_ushiftRight`), and an injective map of
a finite type is a bijection.
-/

namespace XorShift

variable {w k : ℕ}

/-- A word that a shift to the left leaves alone has no bit, from the lowest up. -/
theorem eq_zero_of_shiftLeft (hk : 0 < k) {z : BitVec w} (h : z <<< k = z) : z = 0#w := by
  have hbit : ∀ i, z.getLsbD i = false := by
    intro i
    induction i using Nat.strong_induction_on with
    | _ i ih =>
        rw [← h, BitVec.getLsbD_shiftLeft]
        by_cases hi : i < k
        · rw [decide_eq_true hi, Bool.not_true, Bool.and_false, Bool.false_and]
        · rw [ih (i - k) (by omega), Bool.and_false]
  exact BitVec.eq_of_getLsbD_eq fun i _ => (hbit i).trans BitVec.getLsbD_zero.symm

/-- A word that a shift to the right leaves alone has no bit, from the highest down. -/
theorem eq_zero_of_ushiftRight (hk : 0 < k) {z : BitVec w} (h : z >>> k = z) : z = 0#w := by
  -- `n` bits from the top
  have hbit : ∀ n i, w ≤ i + n → z.getLsbD i = false := by
    intro n
    induction n with
    | zero => exact fun i hi => BitVec.getLsbD_of_ge z i hi
    | succ n ih =>
        intro i hi
        rw [← h, BitVec.getLsbD_ushiftRight]
        exact ih (k + i) (by omega)
  exact BitVec.eq_of_getLsbD_eq fun i hi => (hbit w i (by omega)).trans BitVec.getLsbD_zero.symm

/-- Two words whose xor is zero are one. -/
theorem eq_of_xor_eq_zero {x y : BitVec w} (h : x ^^^ y = 0#w) : x = y :=
  BitVec.xor_left_inj y |>.mp (h.trans (BitVec.xor_self (x := y)).symm)

/-- Where the mixed words agree, what was xored in differs as the words do. -/
theorem xor_eq_xor_swap {a b c d : BitVec w} (h : a ^^^ b = c ^^^ d) : b ^^^ d = a ^^^ c := by
  have hcancel : a ^^^ c ^^^ (a ^^^ b) = a ^^^ c ^^^ (c ^^^ d) := congrArg (a ^^^ c ^^^ ·) h
  have hleft : a ^^^ c ^^^ (a ^^^ b) = c ^^^ b := by
    rw [BitVec.xor_comm a c, BitVec.xor_assoc, ← BitVec.xor_assoc a a b, BitVec.xor_self,
      BitVec.zero_xor]
  have hright : a ^^^ c ^^^ (c ^^^ d) = a ^^^ d := by
    rw [BitVec.xor_assoc, ← BitVec.xor_assoc c c d, BitVec.xor_self, BitVec.zero_xor]
  rw [hleft, hright] at hcancel
  calc b ^^^ d = c ^^^ (c ^^^ b) ^^^ d := by
        rw [← BitVec.xor_assoc c c b, BitVec.xor_self, BitVec.zero_xor]
    _ = c ^^^ (a ^^^ d) ^^^ d := by rw [hcancel]
    _ = a ^^^ c := by
        rw [BitVec.xor_assoc, BitVec.xor_assoc, BitVec.xor_self, BitVec.xor_zero,
          BitVec.xor_comm]

theorem xor_shiftLeft_injective (hk : 0 < k) :
    Function.Injective fun x : BitVec w => x ^^^ x <<< k := by
  intro x y h
  refine eq_of_xor_eq_zero (eq_zero_of_shiftLeft hk ?_)
  rw [BitVec.shiftLeft_xor_distrib]
  exact xor_eq_xor_swap h

theorem xor_ushiftRight_injective (hk : 0 < k) :
    Function.Injective fun x : BitVec w => x ^^^ x >>> k := by
  intro x y h
  refine eq_of_xor_eq_zero (eq_zero_of_ushiftRight hk ?_)
  rw [BitVec.ushiftRight_xor_distrib]
  exact xor_eq_xor_swap h

/-! ### 64-bit words -/

/-- There are finitely many words. -/
instance finite_uint64 : Finite UInt64 := .of_injective UInt64.toFin UInt64.toFin_injective

/-- A shift to the left, by a constant, xored in. -/
theorem uint64_shiftLeft_injective {c : UInt64} (hc : 0 < c.toNat % 64) :
    Function.Injective fun x : UInt64 => x ^^^ x <<< c := by
  intro x y h
  have hbits : (x ^^^ x <<< c).toBitVec = (y ^^^ y <<< c).toBitVec := congrArg UInt64.toBitVec h
  rw [UInt64.toBitVec_xor, UInt64.toBitVec_xor, UInt64.toBitVec_shiftLeft,
    UInt64.toBitVec_shiftLeft] at hbits
  refine UInt64.toBitVec_injective (xor_shiftLeft_injective (k := c.toNat % 64) hc ?_)
  exact hbits

/-- A shift to the right, by a constant, xored in. -/
theorem uint64_shiftRight_injective {c : UInt64} (hc : 0 < c.toNat % 64) :
    Function.Injective fun x : UInt64 => x ^^^ x >>> c := by
  intro x y h
  have hbits : (x ^^^ x >>> c).toBitVec = (y ^^^ y >>> c).toBitVec := congrArg UInt64.toBitVec h
  rw [UInt64.toBitVec_xor, UInt64.toBitVec_xor, UInt64.toBitVec_shiftRight,
    UInt64.toBitVec_shiftRight] at hbits
  refine UInt64.toBitVec_injective (xor_ushiftRight_injective (k := c.toNat % 64) hc ?_)
  exact hbits

/-- A constant with an inverse multiplied in. -/
theorem uint64_mul_injective {c d : UInt64} (h : c * d = 1) :
    Function.Injective fun x : UInt64 => x * c :=
  (IsUnit.of_mul_eq_one d h).mul_left_injective

end XorShift
