import Mathlib.AlgebraicGeometry.EllipticCurve.Affine.Point
import Mathlib.Tactic.LinearCombination

/-!
# Montgomery Curves and Their Ladder

The curve `y² = x³ + A x² + x` over a field, and how to multiply a point of it by the first
coordinate alone. A pair `(X, Z)` represents a point when `X / Z` is its first coordinate, and
the point at infinity when `Z` is zero and `X` is not. Such pairs can be doubled
(`Represents.double`), and added where the difference is known (`Represents.diffAdd`): both
follow from the group law of the curve with its denominators cleared (`exists_add`,
`exists_add_self`, `add_mul_sub`).

The ladder keeps two points whose difference is the given one (`Rungs.Hold`), and a bit of the
scalar doubles one of them and adds the other to it. `ladder_div` says what it comes to, for
every scalar and every point; at the point `(0, 0)`, where a sum cannot be recovered from
the difference, another invariant gives the same result (`ladder_zero`).
-/

namespace Montgomery

open WeierstrassCurve.Affine

variable {F : Type*} [Field F] {A : F}

/-! ### The curve -/

/-- `y² = x³ + A x² + x`. -/
def curve (A : F) : WeierstrassCurve.Affine F where
  a₁ := 0
  a₂ := A
  a₃ := 0
  a₄ := 1
  a₆ := 0

theorem equation_iff (x y : F) : (curve A).Equation x y ↔ y ^ 2 = x ^ 3 + A * x ^ 2 + x := by
  rw [WeierstrassCurve.Affine.equation_iff]
  simp [curve]

@[simp] theorem negY_eq (x y : F) : (curve A).negY x y = -y := by
  simp [curve, WeierstrassCurve.Affine.negY]

/-- The curve has no singular point. -/
theorem nonsingular_iff (h2 : (2 : F) ≠ 0) (hA : A ^ 2 ≠ 4) (x y : F) :
    (curve A).Nonsingular x y ↔ y ^ 2 = x ^ 3 + A * x ^ 2 + x := by
  rw [← equation_iff, WeierstrassCurve.Affine.nonsingular_iff']
  refine and_iff_left_of_imp fun heq => ?_
  have hcurve := (equation_iff x y).mp heq
  by_contra hsing
  obtain ⟨hx, hy⟩ := not_or.mp hsing
  simp only [curve, not_not, zero_mul, zero_sub, neg_eq_zero, add_zero] at hx hy
  have hy0 : y = 0 := (mul_eq_zero.mp hy).resolve_left h2
  have hx0 : x ≠ 0 := by
    rintro rfl
    exact one_ne_zero (by linear_combination hx : (1 : F) = 0)
  have hAx : A = -2 * x := by
    refine mul_left_cancel₀ hx0 (mul_left_cancel₀ hx0 ?_)
    linear_combination x * hx + hcurve - y * hy0
  rw [hAx] at hx hA
  exact hA (by linear_combination -4 * hx)

/-- The first coordinate of a point, and zero at infinity. -/
def xCoord : (curve A).Point → F
  | .zero => 0
  | .some x _ _ => x

variable [DecidableEq F]

/-- The sum of two points whose first coordinates differ. -/
theorem exists_add {x₁ y₁ x₂ y₂ : F} (h₁ : (curve A).Nonsingular x₁ y₁)
    (h₂ : (curve A).Nonsingular x₂ y₂) (hx : x₁ ≠ x₂) : ∃ x y h,
      Point.some x₁ y₁ h₁ + Point.some x₂ y₂ h₂ = Point.some x y h ∧
        x * (x₁ - x₂) ^ 2 = (y₁ - y₂) ^ 2 - (A + x₁ + x₂) * (x₁ - x₂) ^ 2 := by
  refine ⟨_, _, _, Point.add_of_X_ne hx, ?_⟩
  have hne : x₁ - x₂ ≠ 0 := sub_ne_zero.mpr hx
  have hslope : (y₁ - y₂) / (x₁ - x₂) * (x₁ - x₂) = y₁ - y₂ := div_mul_cancel₀ _ hne
  rw [slope_of_X_ne hx, addX]
  simp only [curve]
  linear_combination ((y₁ - y₂) / (x₁ - x₂) * (x₁ - x₂) + (y₁ - y₂)) * hslope

/-- A point on the axis is its own opposite. -/
theorem add_self_of_eq_zero {x y : F} (h : (curve A).Nonsingular x y) (hy : y = 0) :
    Point.some x y h + Point.some x y h = 0 :=
  Point.add_self_of_Y_eq (by rw [negY_eq, hy, neg_zero])

/-- The double of a point off the axis. -/
theorem exists_add_self (h2 : (2 : F) ≠ 0) {x y : F} (h : (curve A).Nonsingular x y)
    (hy : y ≠ 0) : ∃ x' y' h', Point.some x y h + Point.some x y h = Point.some x' y' h' ∧
      x' * (2 * y) ^ 2 = (x ^ 2 - 1) ^ 2 := by
  have hne : y ≠ (curve A).negY x y := by
    rw [negY_eq]
    intro hneg
    exact mul_ne_zero h2 hy (by linear_combination hneg)
  refine ⟨_, _, _, Point.add_self_of_Y_ne hne, ?_⟩
  have hcurve := (equation_iff x y).mp h.1
  have h2y : 2 * y ≠ 0 := mul_ne_zero h2 hy
  have hslope : (curve A).slope x x y y * (2 * y) = 3 * x ^ 2 + 2 * A * x + 1 := by
    rw [slope_of_Y_ne rfl hne, negY_eq, sub_neg_eq_add, ← two_mul, div_mul_cancel₀ _ h2y]
    simp [curve]
  rw [addX]
  simp only [curve] at hslope ⊢
  set m := WeierstrassCurve.Affine.slope _ x x y y
  linear_combination (m * (2 * y) + (3 * x ^ 2 + 2 * A * x + 1)) * hslope -
    4 * (A + 2 * x) * hcurve

/-- The first coordinates of a sum and of the difference, in terms of those of the points. -/
theorem add_mul_sub {x₁ y₁ x₂ y₂ x y u v : F} {h₁ : (curve A).Nonsingular x₁ y₁}
    {h₂ : (curve A).Nonsingular x₂ y₂} {h : (curve A).Nonsingular x y}
    {huv : (curve A).Nonsingular u v} (hx : x₁ ≠ x₂)
    (hadd : Point.some x₁ y₁ h₁ + Point.some x₂ y₂ h₂ = Point.some x y h)
    (hsub : Point.some x₂ y₂ h₂ - Point.some x₁ y₁ h₁ = Point.some u v huv) :
    x * u * (x₁ - x₂) ^ 2 = (x₁ * x₂ - 1) ^ 2 := by
  obtain ⟨_, _, _, hadd', hxs⟩ := exists_add h₁ h₂ hx
  rw [hadd, Point.some.injEq] at hadd'
  rw [← hadd'.1] at hxs
  rw [sub_eq_add_neg, Point.neg_some] at hsub
  obtain ⟨_, _, _, hsub', hus⟩ := exists_add h₂ ((nonsingular_neg x₁ y₁).mpr h₁) (Ne.symm hx)
  rw [hsub, Point.some.injEq] at hsub'
  rw [negY_eq, ← hsub'.1] at hus
  have hne : x₁ - x₂ ≠ 0 := sub_ne_zero.mpr hx
  have he₁ := (equation_iff x₁ y₁).mp h₁.1
  have he₂ := (equation_iff x₂ y₂).mp h₂.1
  refine mul_left_cancel₀ (pow_ne_zero 2 hne) ?_
  calc (x₁ - x₂) ^ 2 * (x * u * (x₁ - x₂) ^ 2)
      = (x * (x₁ - x₂) ^ 2) * (u * (x₂ - x₁) ^ 2) := by ring
    _ = (y₁ ^ 2 - y₂ ^ 2) ^ 2 - 2 * ((A + x₁ + x₂) * (x₁ - x₂) ^ 2) * (y₁ ^ 2 + y₂ ^ 2) +
        ((A + x₁ + x₂) * (x₁ - x₂) ^ 2) ^ 2 := by
      rw [hxs, hus]
      ring
    _ = (x₁ - x₂) ^ 2 * (x₁ * x₂ - 1) ^ 2 := by
      rw [he₁, he₂]
      ring

/-- A point whose double has a first coordinate other than zero does not have `±1`. -/
theorem sq_sub_one_ne_zero (h2 : (2 : F) ≠ 0) {x y u v : F} {h : (curve A).Nonsingular x y}
    {huv : (curve A).Nonsingular u v}
    (hdouble : Point.some x y h + Point.some x y h = Point.some u v huv) (hu : u ≠ 0) :
    x ^ 2 - 1 ≠ 0 := by
  intro hx
  by_cases hy : y = 0
  · rw [add_self_of_eq_zero h hy] at hdouble
    exact Point.some_ne_zero huv hdouble.symm
  · obtain ⟨x', y', h', hadd, hx'⟩ := exists_add_self h2 h hy
    rw [hadd, Point.some.injEq] at hdouble
    rw [hdouble.1, hx, zero_pow two_ne_zero] at hx'
    exact mul_ne_zero hu (pow_ne_zero 2 (mul_ne_zero h2 hy)) hx'

/-! ### Points by their first coordinate -/

/-- `X / Z` is the first coordinate of the point, or `Z` is zero and the point at infinity. -/
def Represents : (curve A).Point → F → F → Prop
  | .zero, X, Z => Z = 0 ∧ X ≠ 0
  | .some x _ _, X, Z => Z ≠ 0 ∧ X = x * Z

omit [DecidableEq F] in
theorem Represents.div_eq {P : (curve A).Point} {X Z : F} (h : Represents P X Z) :
    X / Z = xCoord P := by
  cases P with
  | zero => rw [h.1, div_zero, xCoord]
  | some x y hxy => rw [h.2, mul_div_cancel_right₀ x h.1, xCoord]

/-- Doubling. -/
def double (a24 X Z : F) : F × F :=
  let aa := (X + Z) * (X + Z)
  let bb := (X - Z) * (X - Z)
  let e := aa - bb
  (aa * bb, e * (aa + a24 * e))

/-- The sum of two points, given the first coordinate `u` of their difference. -/
def diffAdd (u X₂ Z₂ X₃ Z₃ : F) : F × F :=
  let da := (X₃ - Z₃) * (X₂ + Z₂)
  let cb := (X₃ + Z₃) * (X₂ - Z₂)
  ((da + cb) * (da + cb), u * ((da - cb) * (da - cb)))

theorem Represents.double (h2 : (2 : F) ≠ 0) (hA : A ^ 2 ≠ 4) {a24 : F}
    (ha24 : 4 * a24 = A - 2) {P : (curve A).Point} {X Z : F} (h : Represents P X Z) :
    Represents (P + P) (double a24 X Z).1 (double a24 X Z).2 := by
  cases P with
  | zero =>
      obtain ⟨rfl, hX⟩ := h
      refine ⟨?_, ?_⟩
      · simp [Montgomery.double]
      · simpa [Montgomery.double] using hX
  | some x y hxy =>
      obtain ⟨hZ, rfl⟩ := h
      have hcurve := (equation_iff x y).mp hxy.1
      have hfst : (Montgomery.double a24 (x * Z) Z).1 = (x ^ 2 - 1) ^ 2 * Z ^ 4 := by
        simp only [Montgomery.double]
        ring
      have hsnd : (Montgomery.double a24 (x * Z) Z).2 = (2 * y) ^ 2 * Z ^ 4 := by
        simp only [Montgomery.double]
        linear_combination 4 * x ^ 2 * Z ^ 4 * ha24 - 4 * Z ^ 4 * hcurve
      rw [hfst, hsnd]
      by_cases hy : y = 0
      · rw [add_self_of_eq_zero hxy hy]
        refine ⟨by rw [hy]; ring, mul_ne_zero (pow_ne_zero 2 fun hx => hA ?_) (pow_ne_zero 4 hZ)⟩
        -- on the axis `x² + A x + 1 = 0`, which `x = ±1` only solves for `A = ∓2`
        rw [hy] at hcurve
        have hAx : A = -2 * x := by linear_combination -hcurve - (x + A) * hx
        rw [hAx]
        linear_combination 4 * hx
      · obtain ⟨x', y', h', hadd, hx'⟩ := exists_add_self h2 hxy hy
        rw [hadd]
        exact ⟨mul_ne_zero (pow_ne_zero 2 (mul_ne_zero h2 hy)) (pow_ne_zero 4 hZ), by
          linear_combination (-Z ^ 4) * hx'⟩

theorem Represents.diffAdd (h2 : (2 : F) ≠ 0) {P Q : (curve A).Point} {u v X₂ Z₂ X₃ Z₃ : F}
    {huv : (curve A).Nonsingular u v} (hu : u ≠ 0) (hP : Represents P X₂ Z₂)
    (hQ : Represents Q X₃ Z₃) (hsub : Q - P = Point.some u v huv) :
    Represents (P + Q) (diffAdd u X₂ Z₂ X₃ Z₃).1 (diffAdd u X₂ Z₂ X₃ Z₃).2 := by
  have hfst : (Montgomery.diffAdd u X₂ Z₂ X₃ Z₃).1 = (2 * (X₂ * X₃ - Z₂ * Z₃)) ^ 2 := by
    simp only [Montgomery.diffAdd]
    ring
  have hsnd : (Montgomery.diffAdd u X₂ Z₂ X₃ Z₃).2 = u * (2 * (X₂ * Z₃ - Z₂ * X₃)) ^ 2 := by
    simp only [Montgomery.diffAdd]
    ring
  have hpos : ∀ d : F, d ≠ 0 → (2 * d) ^ 2 ≠ 0 := fun d hd => pow_ne_zero 2 (mul_ne_zero h2 hd)
  rw [hfst, hsnd]
  cases P with
  | zero =>
      obtain ⟨rfl, hX⟩ := hP
      rw [← Point.zero_def, sub_zero] at hsub
      subst hsub
      obtain ⟨hZ, rfl⟩ := hQ
      rw [← Point.zero_def, zero_add]
      refine ⟨mul_ne_zero hu (hpos _ ?_), by ring⟩
      rw [zero_mul, sub_zero]
      exact mul_ne_zero hX hZ
  | some x₂ y₂ h₂ =>
      obtain ⟨hZ₂, rfl⟩ := hP
      cases Q with
      | zero =>
          obtain ⟨rfl, hX⟩ := hQ
          rw [← Point.zero_def, zero_sub, Point.neg_some, Point.some.injEq] at hsub
          obtain ⟨rfl, -⟩ := hsub
          rw [← Point.zero_def, add_zero]
          refine ⟨mul_ne_zero hu (hpos _ ?_), by ring⟩
          rw [mul_zero, zero_sub, neg_ne_zero]
          exact mul_ne_zero hZ₂ hX
      | some x₃ y₃ h₃ =>
          obtain ⟨hZ₃, rfl⟩ := hQ
          have hZ : Z₂ * Z₃ ≠ 0 := mul_ne_zero hZ₂ hZ₃
          by_cases hx : x₂ = x₃
          · -- the points are opposite, and their difference is a double
            have hopp := (Point.X_eq_iff.mp hx).resolve_left fun heq => by
              rw [heq, sub_self] at hsub
              exact Point.some_ne_zero huv hsub.symm
            rw [hopp, sub_neg_eq_add] at hsub
            have hne := sq_sub_one_ne_zero h2 hsub hu
            rw [hopp, neg_add_cancel, hx]
            refine ⟨by ring, hpos _ ?_⟩
            have hfactor : x₃ * Z₂ * (x₃ * Z₃) - Z₂ * Z₃ = (x₃ ^ 2 - 1) * (Z₂ * Z₃) := by ring
            rw [hfactor]
            exact mul_ne_zero hne hZ
          · obtain ⟨x, y, h, hadd, -⟩ := exists_add h₂ h₃ hx
            have hprod := add_mul_sub hx hadd hsub
            rw [hadd]
            refine ⟨mul_ne_zero hu (hpos _ ?_), ?_⟩
            · have hfactor : x₂ * Z₂ * Z₃ - Z₂ * (x₃ * Z₃) = (x₂ - x₃) * (Z₂ * Z₃) := by ring
              rw [hfactor]
              exact mul_ne_zero (sub_ne_zero.mpr hx) hZ
            · linear_combination (-4 * (Z₂ * Z₃) ^ 2) * hprod

/-! ### The ladder -/

/-- Two pairs, for two points whose difference is given. -/
structure Rungs (F : Type*) where
  x₂ : F
  z₂ : F
  x₃ : F
  z₃ : F

namespace Rungs

/-- The pairs exchanged. -/
def swap (r : Rungs F) : Rungs F := ⟨r.x₃, r.z₃, r.x₂, r.z₂⟩

/-- The first point doubled, the second one added to it. -/
def step (a24 u : F) (r : Rungs F) : Rungs F :=
  ⟨(double a24 r.x₂ r.z₂).1, (double a24 r.x₂ r.z₂).2,
    (diffAdd u r.x₂ r.z₂ r.x₃ r.z₃).1, (diffAdd u r.x₂ r.z₂ r.x₃ r.z₃).2⟩

/-- A bit of the scalar. -/
def climb (a24 u : F) (r : Rungs F) (b : Bool) : Rungs F :=
  if b then (r.swap.step a24 u).swap else r.step a24 u

/-- The multiples of the point by `n` and by `n + 1`. -/
structure Hold (P : (curve A).Point) (n : ℕ) (r : Rungs F) : Prop where
  fst : Represents (n • P) r.x₂ r.z₂
  snd : Represents ((n + 1) • P) r.x₃ r.z₃

end Rungs

/-- The bits of a scalar, the highest one first. -/
def ladder (a24 u : F) (bits : List Bool) : Rungs F :=
  bits.foldl (Rungs.climb a24 u) ⟨1, 0, u, 1⟩

/-- The scalar of the bits. -/
def scalar (bits : List Bool) : ℕ :=
  bits.foldl (fun n b => 2 * n + b.toNat) 0

theorem Rungs.Hold.climb (h2 : (2 : F) ≠ 0) (hA : A ^ 2 ≠ 4) {a24 : F} (ha24 : 4 * a24 = A - 2)
    {u v : F} {huv : (curve A).Nonsingular u v} (hu : u ≠ 0) {n : ℕ} {r : Rungs F}
    (h : r.Hold (Point.some u v huv) n) (b : Bool) :
    (r.climb a24 u b).Hold (Point.some u v huv) (2 * n + b.toNat) := by
  obtain ⟨hfst, hsnd⟩ := h
  cases b with
  | false =>
      have hsub : (n + 1) • Point.some u v huv - n • Point.some u v huv = Point.some u v huv := by
        rw [succ_nsmul, add_sub_cancel_left]
      refine ⟨?_, ?_⟩
      · rw [Bool.toNat_false, add_zero, two_mul, add_nsmul]
        exact hfst.double h2 hA ha24
      · rw [Bool.toNat_false, add_zero, two_mul, add_assoc, add_nsmul]
        exact hfst.diffAdd h2 hu hsnd hsub
  | true =>
      have hsub : n • Point.some u v huv - (n + 1) • Point.some u v huv =
          Point.some u _ ((nonsingular_neg u v).mpr huv) := by
        rw [succ_nsmul, sub_add_cancel_left, Point.neg_some]
      have hfst' : 2 * n + true.toNat = (n + 1) + n := by
        rw [Bool.toNat_true]
        omega
      have hsnd' : 2 * n + true.toNat + 1 = (n + 1) + (n + 1) := by
        rw [Bool.toNat_true]
        omega
      refine ⟨?_, ?_⟩
      · rw [hfst', add_nsmul]
        exact hsnd.diffAdd h2 hu hfst hsub
      · rw [hsnd', add_nsmul]
        exact hsnd.double h2 hA ha24

/-- The ladder holds the multiples by its scalar. -/
theorem hold_ladder (h2 : (2 : F) ≠ 0) (hA : A ^ 2 ≠ 4) {a24 : F} (ha24 : 4 * a24 = A - 2)
    {u v : F} {huv : (curve A).Nonsingular u v} (hu : u ≠ 0) (bits : List Bool) :
    (ladder a24 u bits).Hold (Point.some u v huv) (scalar bits) := by
  induction bits using List.reverseRecOn with
  | nil =>
      refine ⟨?_, ?_⟩
      · rw [scalar, List.foldl_nil, zero_nsmul]
        exact ⟨rfl, one_ne_zero⟩
      · rw [scalar, List.foldl_nil, zero_add, one_nsmul]
        exact ⟨one_ne_zero, (mul_one u).symm⟩
  | append_singleton bits b ih =>
      rw [ladder, scalar, List.foldl_concat, List.foldl_concat]
      exact ih.climb h2 hA ha24 hu b

omit [DecidableEq F] in
/-- Where the given point is `(0, 0)` every pair has a zero in it. -/
theorem ladder_zero (a24 : F) (bits : List Bool) :
    (ladder a24 0 bits).x₂ * (ladder a24 0 bits).z₂ = 0 ∧
      (ladder a24 0 bits).x₃ * (ladder a24 0 bits).z₃ = 0 := by
  induction bits using List.reverseRecOn with
  | nil => simp [ladder]
  | append_singleton bits b ih =>
      have hdouble : ∀ X Z : F, X * Z = 0 → (double a24 X Z).2 = 0 := by
        intro X Z hXZ
        simp only [double]
        linear_combination 4 * ((X + Z) * (X + Z) + a24 *
          ((X + Z) * (X + Z) - (X - Z) * (X - Z))) * hXZ
      rw [ladder, List.foldl_concat, ← ladder]
      cases b <;> simp [Rungs.climb, Rungs.step, Rungs.swap, diffAdd, hdouble, ih.1, ih.2]

/-- The multiples of `(0, 0)` have the first coordinate zero, all of them. -/
theorem xCoord_nsmul_zero {v : F} (h : (curve A).Nonsingular 0 v) (n : ℕ) :
    xCoord (n • Point.some 0 v h) = 0 := by
  have hv : v = 0 := by
    have hcurve := (equation_iff 0 v).mp h.1
    exact (pow_eq_zero_iff two_ne_zero).mp (by linear_combination hcurve)
  have hmul : n • Point.some 0 v h = 0 ∨ n • Point.some 0 v h = Point.some 0 v h := by
    induction n with
    | zero => exact .inl (zero_nsmul _)
    | succ n ih =>
        rw [succ_nsmul]
        rcases ih with hn | hn
        · exact .inr (by rw [hn, zero_add])
        · exact .inl (by rw [hn, add_self_of_eq_zero h hv])
  rcases hmul with hn | hn <;> rw [hn] <;> rfl

/-- **The ladder multiplies.** -/
theorem ladder_div (h2 : (2 : F) ≠ 0) (hA : A ^ 2 ≠ 4) {a24 : F} (ha24 : 4 * a24 = A - 2)
    {u v : F} (huv : (curve A).Nonsingular u v) (bits : List Bool) :
    (ladder a24 u bits).x₂ / (ladder a24 u bits).z₂ =
      xCoord (scalar bits • Point.some u v huv) := by
  by_cases hu : u = 0
  · subst hu
    rw [xCoord_nsmul_zero, div_eq_zero_iff]
    exact mul_eq_zero.mp (ladder_zero a24 bits).1
  · exact (hold_ladder h2 hA ha24 hu bits).fst.div_eq

end Montgomery
