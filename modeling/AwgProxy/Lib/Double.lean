import Mathlib.Algebra.Order.Round
import Mathlib.Data.Int.Log
import Mathlib.Data.Rat.Floor
import Mathlib.Tactic.Linarith
import Mathlib.Tactic.FieldSimp

/-!
# Rounding to Double Precision

The value a rational number has after it is stored as a binary64 number: rounded to the
nearest multiple of its last bit, ties to the even one, with gradual underflow, and
nothing where it overflows.

* `roundEven_intCast`, `le_roundEven` — integers are fixed, and no integer lies strictly
  between a number and what it is rounded to.
* `ofRat_natCast` — a natural number below `2 ^ 53` is stored as it is.
* `two_pow_le_of_ofRat` — rounding does not cross a power of two.
* `ofRat_natCast_le_iff` — so a bound below `2 ^ 53` can be checked after the rounding.
-/

namespace Double

/-- The nearest integer, the even one at a midpoint. -/
def roundEven (q : ℚ) : ℤ :=
  if Int.fract q = 1 / 2 ∧ round q % 2 = 1 then round q - 1 else round q

theorem roundEven_intCast (k : ℤ) : roundEven (k : ℚ) = k := by
  have hfract : Int.fract (k : ℚ) ≠ 1 / 2 := by
    rw [Int.fract_intCast]
    norm_num
  rw [roundEven, if_neg fun h => hfract h.1, round_intCast]

/-- An integer below a number is below what the number is rounded to. -/
theorem le_roundEven {k : ℤ} {q : ℚ} (h : (k : ℚ) ≤ q) : k ≤ roundEven q := by
  have hround : k ≤ round q := by
    rw [round_eq, Int.le_floor]
    linarith
  unfold roundEven
  split
  next htie =>
    -- at a midpoint `round` goes up, so one less is still the floor
    have hq : q = ⌊q⌋ + 1 / 2 := by
      rw [← htie.1]
      exact (Int.floor_add_fract q).symm
    have hup : round q = ⌊q⌋ + 1 := by
      rw [round_eq, Int.floor_eq_iff]
      push_cast
      constructor <;> linarith
    have hfloor : k ≤ ⌊q⌋ := Int.le_floor.mpr h
    omega
  next => exact hround

/-- The exponent of the last bit a number is stored with. -/
def lastBit (q : ℚ) : ℤ :=
  max (Int.log 2 |q| - 52) (-1074)

/-- The stored value of a number, `none` where it is too large. -/
def ofRat (q : ℚ) : Option ℚ :=
  let ulp : ℚ := 2 ^ lastBit q
  let x := roundEven (q / ulp) * ulp
  if |x| < 2 ^ 1024 then some x else none

/-- A natural number below `2 ^ 53` is stored as it is. -/
theorem ofRat_natCast {n : ℕ} (hn : n < 2 ^ 53) : ofRat (n : ℚ) = some (n : ℚ) := by
  have hlog : lastBit (n : ℚ) ≤ 0 := by
    have hnat : Nat.log 2 n < 53 := by
      rcases Nat.eq_zero_or_pos n with rfl | hpos
      · simp
      · exact (Nat.log_lt_iff_lt_pow (by omega) (by omega)).mpr hn
    rw [lastBit, Nat.abs_cast, Int.log_natCast]
    omega
  obtain ⟨j, hj⟩ := Int.exists_eq_neg_ofNat hlog
  have hscale : (n : ℚ) / (2 : ℚ) ^ lastBit (n : ℚ) = (((n * 2 ^ j : ℕ) : ℤ) : ℚ) := by
    rw [hj, zpow_neg, zpow_natCast]
    push_cast
    field_simp
  have hback : (((n * 2 ^ j : ℕ) : ℤ) : ℚ) * (2 : ℚ) ^ lastBit (n : ℚ) = n := by
    rw [hj, zpow_neg, zpow_natCast]
    push_cast
    field_simp
  simp only [ofRat]
  rw [hscale, roundEven_intCast, hback, if_pos]
  have hlt : (n : ℚ) < 2 ^ 53 := by exact_mod_cast hn
  rw [Nat.abs_cast]
  exact hlt.trans (pow_lt_pow_right₀ (by norm_num) (by norm_num))

/-- Rounding does not cross a power of two. -/
theorem two_pow_le_of_ofRat {k : ℕ} {q x : ℚ} (hq : 2 ^ k ≤ q) (hx : ofRat q = some x) :
    2 ^ k ≤ x := by
  have hpos : 0 < q := lt_of_lt_of_le (pow_pos (by norm_num) k) hq
  have hx' : x = roundEven (q / (2 : ℚ) ^ lastBit q) * (2 : ℚ) ^ lastBit q := by
    simp only [ofRat] at hx
    split at hx
    · exact (Option.some.inj hx).symm
    · cases hx
  have hbit : (0 : ℚ) < 2 ^ lastBit q := zpow_pos (by norm_num) _
  rw [hx']
  rcases le_or_gt (lastBit q) k with hle | hgt
  · -- the power is a multiple of the last bit
    obtain ⟨j, hj⟩ := Int.le.dest hle
    have hscale : (((2 ^ j : ℕ) : ℤ) : ℚ) * 2 ^ lastBit q = 2 ^ k := by
      have hsum : (2 : ℚ) ^ (k : ℤ) = 2 ^ lastBit q * 2 ^ (j : ℤ) := by
        rw [← hj, zpow_add₀ (by norm_num)]
      rw [← zpow_natCast, hsum]
      push_cast
      rw [zpow_natCast]
      ring
    have hle' : (((2 ^ j : ℕ) : ℤ) : ℚ) ≤ q / 2 ^ lastBit q := by
      rw [le_div_iff₀ hbit, hscale]
      exact hq
    calc (2 : ℚ) ^ k = (((2 ^ j : ℕ) : ℤ) : ℚ) * 2 ^ lastBit q := hscale.symm
      _ ≤ roundEven (q / 2 ^ lastBit q) * 2 ^ lastBit q := by
        have := le_roundEven hle'
        gcongr
  · -- the last bit itself is above the power
    have hlog : lastBit q ≤ Int.log 2 q := by
      rw [lastBit, abs_of_pos hpos] at hgt ⊢
      omega
    have hone : ((1 : ℤ) : ℚ) ≤ q / 2 ^ lastBit q := by
      rw [le_div_iff₀ hbit, Int.cast_one, one_mul]
      exact (zpow_le_zpow_right₀ (by norm_num) hlog).trans
        (Int.zpow_log_le_self (by norm_num) hpos)
    calc (2 : ℚ) ^ k = 2 ^ (k : ℤ) := (zpow_natCast 2 k).symm
      _ ≤ 2 ^ lastBit q := zpow_le_zpow_right₀ (by norm_num) hgt.le
      _ = ((1 : ℤ) : ℚ) * 2 ^ lastBit q := by rw [Int.cast_one, one_mul]
      _ ≤ roundEven (q / 2 ^ lastBit q) * 2 ^ lastBit q := by
        have := le_roundEven hone
        gcongr

/-- A bound on a natural number can be checked after the rounding. -/
theorem ofRat_natCast_le_iff {m n : ℕ} {x : ℚ} (hm : m < 2 ^ 53) (hx : ofRat (n : ℚ) = some x) :
    x ≤ m ↔ n ≤ m := by
  rcases lt_or_ge n (2 ^ 53) with hn | hn
  · rw [ofRat_natCast hn, Option.some.injEq] at hx
    rw [← hx, Nat.cast_le]
  · have hbig : (2 : ℚ) ^ 53 ≤ x := two_pow_le_of_ofRat (by exact_mod_cast hn) hx
    have hmx : (m : ℚ) < x := lt_of_lt_of_le (by exact_mod_cast hm) hbig
    constructor
    · intro hle
      exact absurd hle (not_le.mpr hmx)
    · intro hle
      omega

end Double
