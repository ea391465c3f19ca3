import AwgProxy.Base64
import AwgProxy.Lib.Montgomery
import AwgProxy.Lib.Pratt
import Mathlib.FieldTheory.Finite.Basic
import Mathlib.FieldTheory.IsAlgClosed.AlgebraicClosure
import Mathlib.Tactic.NormNum.Prime

/-!
# The Key Generator

A WireGuard key is a random scalar and the multiple of the base point of Curve25519 by it. The
page computes it with the ladder over `BigInt`: every sum and every product is reduced by
`mod`, and the two points are exchanged by a multiplication with the bit that says so, which is
carried over from one bit of the scalar to the next.

* `view_ladderStep` — a round of the loop is a bit of the ladder, the exchange undone.
* `prime_modulus` — the modulus is prime, so that a power of `z_2` divides by it.
* `curve25519ScalarMult_eq` — the result is the coordinate of the multiple of the point.
-/

namespace AwgProxy

namespace Configurator

/-! ### The code -/

/-- `P`. -/
abbrev modulus : ℕ := 2 ^ 255 - 19

/-- `A24`. -/
abbrev a24 : ℤ := 121665

/-- `mod`; the remainder of a `BigInt` has the sign of what is divided. -/
def mod (a : ℤ) : ℤ :=
  if a.tmod modulus < 0 then a.tmod modulus + modulus else a.tmod modulus

/-- `modPow`. -/
def modPow (b : ℤ) (e m : ℕ) : ℕ :=
  powLoop m e.size 1 ((b.tmod m + m).tmod m).toNat e

/-- `inv`. -/
def inv (a : ℤ) : ℤ := modPow a (modulus - 2) modulus

/-- The loop that reads the number of a byte array, from its last byte on. -/
def bigIntOf (b : Bytes) : ℕ :=
  b.foldr (fun c n => n <<< 8 ||| c.toNat) 0

/-- The loop that writes a number to an array of so many bytes. -/
def bytesOf : ℕ → ℕ → Bytes
  | 0, _ => []
  | n + 1, result => UInt8.ofNat (result &&& 0xFF) :: bytesOf n (result >>> 8)

/-- The scalar, clamped. -/
def clamp (scalar : Bytes) : Bytes :=
  ((scalar.modify 0 (· &&& 248)).modify 31 (· &&& 127)).modify 31 (· ||| 64)

/-- The variables of the loop. -/
structure LadderVars where
  x₂ : ℤ
  z₂ : ℤ
  x₃ : ℤ
  z₃ : ℤ
  swap : ℕ

/-- A round of the loop. -/
def ladderStep (x₁ : ℤ) (kn : ℕ) (v : LadderVars) (pos : ℕ) : LadderVars :=
  let bit := (kn >>> pos) &&& 1
  let swap := v.swap ^^^ bit
  let d1 := swap * (v.x₂ - v.x₃)
  let d2 := swap * (v.z₂ - v.z₃)
  let x₂ := mod (v.x₂ - d1)
  let x₃ := mod (v.x₃ + d1)
  let z₂ := mod (v.z₂ - d2)
  let z₃ := mod (v.z₃ + d2)
  let a := mod (x₂ + z₂)
  let aa := mod (a * a)
  let b := mod (x₂ - z₂)
  let bb := mod (b * b)
  let e := mod (aa - bb)
  let c := mod (x₃ + z₃)
  let d := mod (x₃ - z₃)
  let da := mod (d * a)
  let cb := mod (c * b)
  { x₃ := mod (mod (da + cb) * mod (da + cb))
    z₃ := mod (x₁ * mod (mod (da - cb) * mod (da - cb)))
    x₂ := mod (aa * bb)
    z₂ := mod (e * mod (aa + mod (a24 * e)))
    swap := bit }

/-- The loop over the bits of the scalar, from `pos = 254` down. -/
def ladderLoop (x₁ : ℤ) (kn : ℕ) : LadderVars :=
  (List.range 255).reverse.foldl (ladderStep x₁ kn) ⟨1, 0, x₁, 1, 0⟩

/-- The last exchange, and the quotient. -/
def ladderResult (v : LadderVars) : ℤ :=
  let d1 := v.swap * (v.x₂ - v.x₃)
  let d2 := v.swap * (v.z₂ - v.z₃)
  let x₂ := mod (v.x₂ - d1)
  let z₂ := mod (v.z₂ - d2)
  mod (x₂ * inv z₂)

/-- `curve25519ScalarMult`. -/
def curve25519ScalarMult (scalar point : Bytes) : Bytes :=
  let kn := bigIntOf (clamp scalar)
  let u := bigIntOf point
  bytesOf 32 (ladderResult (ladderLoop u kn)).toNat

/-- `basepoint`. -/
def basepoint : Bytes := 9 :: List.replicate 31 0

/-- `generateWgKeyPair`, with the random bytes of the private key: the two keys. -/
def generateWgKeyPair (priv : Bytes) : List Char × List Char :=
  (btoa priv, btoa (curve25519ScalarMult priv basepoint))

/-! ### What a key is -/

/-- The scalar of 32 bytes: the three lowest bits and the highest are cleared, the one below
that is set. -/
def decodeScalar (k : Bytes) : ℕ :=
  2 ^ 254 + Bytes.leNat k % 2 ^ 254 / 8 * 8

/-- `X25519`: the coordinate of the multiple by `n` of the point with the coordinate `u`, in
whatever field that point has its other coordinate, or zero when it is the point at infinity. -/
structure IsX25519 (n u r : ℕ) : Prop where
  lt : r < modulus
  coord : ∀ (K : Type) [Field K] [DecidableEq K] [CharP K modulus]
    (P : (Montgomery.curve (486662 : K)).Point), P ≠ 0 → Montgomery.xCoord P = u →
      Montgomery.xCoord (n • P) = r

/-! ### Bytes -/

theorem bigIntOf_eq (b : Bytes) : bigIntOf b = Bytes.leNat b := by
  induction b with
  | nil => rfl
  | cons c b ih =>
      have hc : c.toNat < 2 ^ 8 := c.toNat_lt
      rw [bigIntOf, List.foldr_cons, ← bigIntOf, ih, ← Nat.shiftLeft_add_eq_or_of_lt hc,
        Nat.shiftLeft_eq, Bytes.leNat]
      omega

theorem bytesOf_eq (n v : ℕ) : bytesOf n v = Bytes.leBytes n v := by
  induction n generalizing v with
  | zero => rfl
  | succ n ih =>
      have hbyte : UInt8.ofNat (v &&& 0xFF) = UInt8.ofNat v := by
        refine UInt8.toNat_inj.mp ?_
        rw [UInt8.toNat_ofNat', UInt8.toNat_ofNat', Nat.and_two_pow_sub_one_eq_mod v 8,
          Nat.mod_mod]
      rw [bytesOf, Bytes.leBytes, ih, hbyte, Nat.shiftRight_eq_div_pow]

theorem leNat_append (a b : Bytes) :
    Bytes.leNat (a ++ b) = Bytes.leNat a + 256 ^ a.length * Bytes.leNat b := by
  induction a with
  | nil => rw [List.nil_append, Bytes.leNat, List.length_nil, pow_zero, zero_add, one_mul]
  | cons x a ih =>
      rw [List.cons_append, Bytes.leNat, Bytes.leNat, ih, List.length_cons, pow_succ]
      ring

theorem modify_concat {l : Bytes} {n : ℕ} (h : l.length = n) (x : UInt8) (f : UInt8 → UInt8) :
    (l ++ [x]).modify n f = l ++ [f x] := by
  subst h
  induction l with
  | nil => rfl
  | cons y l ih =>
      rw [List.cons_append, List.length_cons, List.modify_succ_cons, ih, List.cons_append]

theorem toNat_and_248 (x : UInt8) : (x &&& 248).toNat = x.toNat / 8 * 8 := by
  have hall : ∀ n < 256, n &&& 248 = n / 8 * 8 := by decide +kernel
  exact hall _ x.toNat_lt

theorem toNat_and_127_or_64 (x : UInt8) : (x &&& 127 ||| 64).toNat = 64 + x.toNat % 64 := by
  have hall : ∀ n < 256, n &&& 127 ||| 64 = 64 + n % 64 := by decide +kernel
  exact hall _ x.toNat_lt

/-- The clamped scalar. -/
theorem leNat_clamp {scalar : Bytes} (h : scalar.length = 32) :
    Bytes.leNat (clamp scalar) = decodeScalar scalar := by
  obtain ⟨x, rest, rfl⟩ := List.exists_cons_of_length_eq_add_one h
  have hrest : rest.length = 31 := Nat.succ.inj h
  obtain ⟨mid, y, rfl⟩ : ∃ mid y, rest = mid ++ [y] := by
    obtain hnil | hne := rest.eq_nil_or_concat'
    · rw [hnil] at hrest
      cases hrest
    · exact hne
  have hmid : mid.length = 30 := by
    rw [List.length_append, List.length_singleton] at hrest
    exact Nat.succ.inj hrest
  have hlt := Bytes.leNat_lt mid
  rw [hmid] at hlt
  have hclamp : clamp (x :: (mid ++ [y])) =
      (x &&& 248) :: (mid ++ [y &&& 127 ||| 64]) := by
    rw [clamp, List.modify_zero_cons, List.modify_succ_cons, modify_concat hmid,
      List.modify_succ_cons, modify_concat hmid]
  have hx : x.toNat < 256 := x.toNat_lt
  have hy : y.toNat < 256 := y.toNat_lt
  rw [hclamp, decodeScalar, Bytes.leNat, Bytes.leNat, leNat_append, leNat_append, hmid,
    toNat_and_248]
  simp only [Bytes.leNat, toNat_and_127_or_64]
  omega

/-! ### The loop -/

theorem swap_ladderStep_le (x₁ : ℤ) (kn : ℕ) (v : LadderVars) (pos : ℕ) :
    (ladderStep x₁ kn v pos).swap ≤ 1 :=
  Nat.and_le_right

theorem swap_foldl_le (x₁ : ℤ) (kn : ℕ) (ps : List ℕ) {v : LadderVars} (hswap : v.swap ≤ 1) :
    (ps.foldl (ladderStep x₁ kn) v).swap ≤ 1 := by
  induction ps generalizing v with
  | nil => exact hswap
  | cons pos ps ih => exact ih (swap_ladderStep_le x₁ kn v pos)

/-! ### The field -/

theorem mod_eq (a : ℤ) : mod a = a % (modulus : ℤ) := by
  have hpos : (0 : ℤ) < modulus := by decide
  have hlt := Int.emod_lt_of_pos a hpos
  have hnonneg := Int.emod_nonneg a hpos.ne'
  rw [mod, Int.tmod_eq_emod, Int.natAbs_natCast]
  by_cases ha : 0 ≤ a ∨ (modulus : ℤ) ∣ a
  · rw [if_pos ha, Nat.cast_zero, sub_zero, if_neg (not_lt.mpr hnonneg)]
  · rw [if_neg ha, if_pos (sub_neg.mpr hlt), sub_add_cancel]

theorem mod_nonneg (a : ℤ) : 0 ≤ mod a := by
  rw [mod_eq]
  exact Int.emod_nonneg a (by decide)

theorem mod_lt (a : ℤ) : mod a < modulus := by
  rw [mod_eq]
  exact Int.emod_lt_of_pos a (by decide)

/-- The modulus, the primes that its predecessor is the product of, the primes of theirs, and so
on down to two. -/
def modulusChain : List (ℕ × ℕ × List ℕ) :=
  [(modulus, 2,
      [2, 2, 3, 65147, 74058212732561358302231226437062788676166966415465897661863160754340907]),
   (74058212732561358302231226437062788676166966415465897661863160754340907, 2,
      [2, 3, 353, 57467, 132049, 1923133, 31757755568855353,
        75445702479781427272750846543864801]),
   (75445702479781427272750846543864801, 7,
      [2, 2, 2, 2, 2, 3, 3, 5, 5, 75707, 72106336199, 1919519569386763]),
   (31757755568855353, 10, [2, 2, 2, 3, 31, 107, 223, 4153, 430751]),
   (1919519569386763, 2, [2, 3, 7, 19, 47, 47, 127, 8574133]),
   (72106336199, 7, [2, 13, 2773320623]), (2773320623, 5, [2, 2437, 569003]),
   (8574133, 2, [2, 2, 3, 7, 103, 991]), (1923133, 2, [2, 2, 3, 43, 3727]),
   (569003, 2, [2, 7, 97, 419]), (430751, 17, [2, 5, 5, 5, 1723]),
   (132049, 26, [2, 2, 2, 2, 3, 3, 7, 131]), (75707, 2, [2, 37853]), (65147, 2, [2, 32573]),
   (57467, 2, [2, 59, 487]), (37853, 2, [2, 2, 9463]), (32573, 2, [2, 2, 17, 479]),
   (9463, 3, [2, 3, 19, 83]), (4153, 5, [2, 2, 2, 3, 173]), (3727, 3, [2, 3, 3, 3, 3, 23]),
   (2437, 2, [2, 2, 3, 7, 29]), (1723, 3, [2, 3, 7, 41]), (991, 6, [2, 3, 3, 5, 11]),
   (487, 3, [2, 3, 3, 3, 3, 3]), (479, 13, [2, 239]), (419, 2, [2, 11, 19]),
   (353, 3, [2, 2, 2, 2, 2, 11]), (239, 7, [2, 7, 17]), (223, 3, [2, 3, 37]), (173, 2, [2, 2, 43]),
   (131, 2, [2, 5, 13]), (127, 3, [2, 3, 3, 7]), (107, 2, [2, 53]), (103, 5, [2, 3, 17]),
   (97, 5, [2, 2, 2, 2, 2, 3]), (83, 2, [2, 41]), (59, 2, [2, 29]), (53, 2, [2, 2, 13]),
   (47, 5, [2, 23]), (43, 3, [2, 3, 7]), (41, 6, [2, 2, 2, 5]), (37, 2, [2, 2, 3, 3]),
   (31, 3, [2, 3, 5]), (29, 2, [2, 2, 7]), (23, 5, [2, 11]), (19, 2, [2, 3, 3]),
   (17, 3, [2, 2, 2, 2]), (13, 2, [2, 2, 3]), (11, 2, [2, 5]), (7, 3, [2, 3]), (5, 2, [2, 2]),
   (3, 2, [2]), (2, 1, [])]

theorem certifiesAll_modulusChain : certifiesAll modulusChain = true := by decide +kernel

/-- **The modulus is prime.** -/
theorem prime_modulus : modulus.Prime :=
  List.forall_iff_forall_mem.mp (prime_of_certifiesAll certifiesAll_modulusChain) modulus
    (List.mem_cons_self ..)

instance : Fact modulus.Prime := ⟨prime_modulus⟩

section Field

variable {K : Type} [Field K] [CharP K modulus]

theorem cast_mod (a : ℤ) : ((mod a : ℤ) : K) = a := by
  rw [mod_eq, Int.emod_def, Int.cast_sub, Int.cast_mul, Int.cast_natCast,
    CharP.cast_eq_zero, zero_mul, sub_zero]

/-- The two pairs of the loop in the field, the exchange undone that is still due. -/
def view (K : Type) [Field K] (v : LadderVars) : Montgomery.Rungs K :=
  if v.swap = 1 then ⟨v.x₃, v.z₃, v.x₂, v.z₂⟩ else ⟨v.x₂, v.z₂, v.x₃, v.z₃⟩

/-- **A round of the loop** is a bit of the ladder. -/
theorem view_ladderStep (x₁ : ℤ) (kn : ℕ) {v : LadderVars} (hswap : v.swap ≤ 1) (pos : ℕ) :
    view K (ladderStep x₁ kn v pos) =
      (view K v).climb (121665 : K) (x₁ : K) (kn.testBit pos) := by
  have hbit : (kn >>> pos) &&& 1 = (kn.testBit pos).toNat := by
    rw [Nat.toNat_testBit, Nat.shiftRight_eq_div_pow, Nat.and_one_is_mod]
  obtain hv | hv : v.swap = 0 ∨ v.swap = 1 := by omega
  all_goals
    cases hb : kn.testBit pos
    all_goals
      simp [ladderStep, hbit, hb, hv, view, cast_mod, Montgomery.Rungs.climb,
        Montgomery.Rungs.step, Montgomery.Rungs.swap, Montgomery.double, Montgomery.diffAdd]

/-- The rounds of the loop are the ladder on the bits they look at. -/
theorem view_foldl (x₁ : ℤ) (kn : ℕ) (ps : List ℕ) {v : LadderVars} (hswap : v.swap ≤ 1) :
    view K (ps.foldl (ladderStep x₁ kn) v) = (ps.map kn.testBit).foldl
      (Montgomery.Rungs.climb (121665 : K) (x₁ : K)) (view K v) := by
  induction ps generalizing v with
  | nil => rfl
  | cons pos ps ih =>
      rw [List.foldl_cons, List.map_cons, List.foldl_cons, ih (swap_ladderStep_le x₁ kn v pos),
        view_ladderStep x₁ kn hswap]

/-- The bits below `m`, from the highest one down. -/
theorem scalar_testBit (kn m : ℕ) :
    Montgomery.scalar ((List.range m).reverse.map kn.testBit) = kn % 2 ^ m := by
  have hfold : ∀ m a, ((List.range m).reverse.map kn.testBit).foldl
      (fun n b => 2 * n + b.toNat) a = a * 2 ^ m + kn % 2 ^ m := by
    intro m
    induction m with
    | zero => simp [Nat.mod_one]
    | succ m ih =>
        intro a
        rw [List.range_succ, List.reverse_append, List.reverse_singleton, List.singleton_append,
          List.map_cons, List.foldl_cons, ih, Nat.mod_pow_succ, Nat.toNat_testBit, pow_succ]
        ring
  rw [Montgomery.scalar, hfold, zero_mul, zero_add]

/-- `modPow` is the power. -/
theorem modPow_modEq (b : ℤ) (e : ℕ) {m : ℕ} (hm : 0 < m) :
    modPow b e m ≡ (b % m).toNat ^ e [MOD m] := by
  have hpos : (0 : ℤ) < m := Int.natCast_pos.mpr hm
  have hle : 0 ≤ b.tmod m + m := by
    have := Int.lt_tmod_of_pos b hpos
    omega
  have hbase : (b.tmod m + m).tmod m = b % m := by
    rw [Int.tmod_eq_emod_of_nonneg hle, Int.add_emod_right, Int.tmod_eq_emod]
    split_ifs <;> simp
  have hloop := powLoop_modEq m 1 (b % m).toNat (Nat.lt_size_self e)
  rw [modPow, hbase]
  rwa [one_mul] at hloop

/-- `inv` divides. -/
theorem cast_inv (a : ℤ) : ((inv a : ℤ) : K) = (a : K)⁻¹ := by
  have hnonneg : 0 ≤ a % (modulus : ℤ) := Int.emod_nonneg a (by decide)
  have hbase : (((a % (modulus : ℤ)).toNat : ℕ) : K) = a := by
    rw [← Int.cast_natCast, Int.toNat_of_nonneg hnonneg, ← mod_eq, cast_mod]
  have hpow : ((inv a : ℤ) : K) = (a : K) ^ (modulus - 2) := by
    rw [inv, Int.cast_natCast, ← hbase, ← Nat.cast_pow]
    exact (CharP.natCast_eq_natCast K modulus).mpr (modPow_modEq a _ (by decide))
  rw [hpow]
  by_cases ha : (a : K) = 0
  · rw [ha, inv_zero]
    exact zero_pow (by decide)
  · have hz : (a : ZMod modulus) ≠ 0 := by
      intro h0
      refine ha ?_
      rw [← map_intCast (ZMod.castHom (dvd_refl modulus) K), h0, map_zero]
    have hone : (a : K) ^ (modulus - 1) = 1 := by
      rw [← map_intCast (ZMod.castHom (dvd_refl modulus) K), ← map_pow,
        ZMod.pow_card_sub_one_eq_one hz, map_one]
    refine eq_inv_of_mul_eq_one_left ?_
    rw [← pow_succ]
    exact hone

/-- The loop leaves what the ladder leaves. -/
theorem view_ladderLoop (u kn : ℕ) : view K (ladderLoop u kn) =
    Montgomery.ladder (121665 : K) (u : K) ((List.range 255).reverse.map kn.testBit) := by
  rw [ladderLoop, view_foldl _ _ _ (Nat.zero_le 1), Montgomery.ladder]
  simp [view]

/-- The last exchange is the one that is still due. -/
theorem cast_ladderResult {v : LadderVars} (hswap : v.swap ≤ 1) :
    ((ladderResult v : ℤ) : K) = (view K v).x₂ / (view K v).z₂ := by
  obtain hv | hv : v.swap = 0 ∨ v.swap = 1 := by omega
  all_goals simp [ladderResult, view, hv, cast_mod, cast_inv, div_eq_mul_inv]

variable (K) in
theorem two_ne_zero_of_char : (2 : K) ≠ 0 := by
  have h : ((2 : ℕ) : K) ≠ 0 := (CharP.cast_eq_zero_iff K modulus 2).not.mpr (by decide)
  exact_mod_cast h

variable (K) in
theorem coefficient_sq_ne_four : (486662 : K) ^ 2 ≠ 4 := by
  have h : ((486662 ^ 2 - 4 : ℕ) : K) ≠ 0 :=
    (CharP.cast_eq_zero_iff K modulus _).not.mpr (by decide)
  intro heq
  refine h ?_
  rw [Nat.cast_sub (by decide), Nat.cast_pow, Nat.cast_ofNat, Nat.cast_ofNat, heq, sub_self]

end Field

/-- There is a point for every coordinate, on the curve or on its twist. -/
theorem exists_point (u : ℕ) : ∃ (K : Type) (_ : Field K) (_ : DecidableEq K)
    (_ : CharP K modulus) (P : (Montgomery.curve (486662 : K)).Point), P ≠ 0 ∧
      Montgomery.xCoord P = u := by
  let K := AlgebraicClosure (ZMod modulus)
  have hchar : CharP K modulus :=
    charP_of_injective_algebraMap (algebraMap (ZMod modulus) K).injective modulus
  obtain ⟨v, hv⟩ := IsAlgClosed.exists_pow_nat_eq ((u : K) ^ 3 + 486662 * (u : K) ^ 2 + u)
    (n := 2) Nat.two_pos
  have h := (Montgomery.nonsingular_iff (two_ne_zero_of_char K) (coefficient_sq_ne_four K)
    (u : K) v).mpr hv
  exact ⟨K, inferInstance, Classical.decEq K, hchar, .some u v h,
    WeierstrassCurve.Affine.Point.some_ne_zero h, rfl⟩

/-- The result is determined. -/
theorem IsX25519.unique {n u r r' : ℕ} (h : IsX25519 n u r) (h' : IsX25519 n u r') : r = r' := by
  obtain ⟨K, _, _, _, P, hP, hu⟩ := exists_point u
  have heq : (r : K) = r' := (h.coord K P hP hu).symm.trans (h'.coord K P hP hu)
  exact ((CharP.natCast_eq_natCast K modulus).mp heq).eq_of_lt_of_lt h.lt h'.lt

/-- What is left at the end is the coordinate of the multiple. -/
theorem isX25519_ladderLoop {kn : ℕ} (hkn : kn < 2 ^ 255) (u : ℕ) :
    IsX25519 kn u (ladderResult (ladderLoop u kn)).toNat := by
  have hnonneg : 0 ≤ ladderResult (ladderLoop u kn) := mod_nonneg _
  have hlt : ladderResult (ladderLoop u kn) < modulus := mod_lt _
  refine ⟨by omega, ?_⟩
  intro K _ _ _ P hP hu
  cases P with
  | zero => exact absurd rfl hP
  | some x y h =>
      obtain rfl : x = u := hu
      have hswap : (ladderLoop u kn).swap ≤ 1 := swap_foldl_le _ _ _ (Nat.zero_le 1)
      have ha24 : 4 * (121665 : K) = 486662 - 2 := by norm_num
      have hmul := Montgomery.ladder_div (two_ne_zero_of_char K) (coefficient_sq_ne_four K) ha24 h
        ((List.range 255).reverse.map kn.testBit)
      rw [scalar_testBit, Nat.mod_eq_of_lt hkn] at hmul
      have hcast := congrArg (Int.cast : ℤ → K) (Int.toNat_of_nonneg hnonneg)
      rw [← hmul, ← view_ladderLoop, ← cast_ladderResult hswap, ← hcast]
      exact Int.cast_natCast _

theorem exists_isX25519 {scalar : Bytes} (hscalar : scalar.length = 32) (point : Bytes) :
    ∃ r, curve25519ScalarMult scalar point = Bytes.leBytes 32 r ∧
      IsX25519 (decodeScalar scalar) (Bytes.leNat point) r := by
  have hkn : bigIntOf (clamp scalar) = decodeScalar scalar := by
    rw [bigIntOf_eq, leNat_clamp hscalar]
  have hlt : decodeScalar scalar < 2 ^ 255 := by
    rw [decodeScalar]
    omega
  refine ⟨_, ?_, isX25519_ladderLoop hlt (Bytes.leNat point)⟩
  rw [curve25519ScalarMult, bytesOf_eq, hkn, bigIntOf_eq]

/-- **The key generator computes Curve25519**: of the clamped scalar and the point it returns
the one number that is the coordinate of the multiple, as 32 bytes. -/
theorem curve25519ScalarMult_eq {scalar : Bytes} (hscalar : scalar.length = 32)
    (point : Bytes) : ∃ r, curve25519ScalarMult scalar point = Bytes.leBytes 32 r ∧
      IsX25519 (decodeScalar scalar) (Bytes.leNat point) r ∧
        ∀ r', IsX25519 (decodeScalar scalar) (Bytes.leNat point) r' → r' = r := by
  obtain ⟨r, hout, hr⟩ := exists_isX25519 hscalar point
  exact ⟨r, hout, hr, fun r' hr' => hr'.unique hr⟩

/-- A key of the base point. -/
theorem curve25519ScalarMult_eq_basepoint : ∃ r,
    curve25519ScalarMult (List.replicate 32 255) basepoint = Bytes.leBytes 32 r ∧
      IsX25519 (2 ^ 255 - 8) 9 r := by
  obtain ⟨r, hout, hr, -⟩ := curve25519ScalarMult_eq
    (show (List.replicate 32 (255 : UInt8)).length = 32 from rfl) basepoint
  have hscalar : decodeScalar (List.replicate 32 255) = 2 ^ 255 - 8 := by decide +kernel
  have hpoint : Bytes.leNat basepoint = 9 := by decide
  rw [hscalar, hpoint] at hr
  exact ⟨r, hout, hr⟩

/-- The keys of a pair are the scalar and its multiple of the base point. -/
theorem generateWgKeyPair_eq {priv : Bytes} (hpriv : priv.length = 32) :
    atob? (generateWgKeyPair priv).1 = some priv ∧
      ∃ r, atob? (generateWgKeyPair priv).2 = some (Bytes.leBytes 32 r) ∧
        IsX25519 (decodeScalar priv) 9 r := by
  obtain ⟨r, hout, hr⟩ := exists_isX25519 hpriv basepoint
  refine ⟨atob_btoa priv, r, ?_, hr⟩
  rw [generateWgKeyPair, atob_btoa, hout]

end Configurator

end AwgProxy
