import AwgProxy.Keystream
import AwgProxy.Startup

/-!
# Header Ranges as Written

A header is written as a number, or as two with a dash between them. The digits are added up
modulo `2 ^ 32` without a check, and the two ends are compared after that; the part before the
dash is copied to a buffer of 32 bytes, with its length as an `int`.

* `toNat_parseUint32_of_digits` — the number that is read is the one written modulo `2 ^ 32`.
* `readAsWritten_iff` — which texts are read as they are written, or refused.
-/

namespace AwgProxy

open Text Configurator

/-! ### The code -/

/-- `parse_hrange` with the length of the part before the dash as an `int`; the outer `none`
is a copy that runs past the end of its buffer. -/
def parseHrangeInt (s : List Char) : Option (Option HRange) :=
  let head := s.takeWhile (· ≠ '-')
  if head.length = s.length then some (some (HRange.single (parseUint32 s)))
  else
    let hlen := intOfSize head.length
    if 32 ≤ hlen then some none
    -- `memcpy` takes a negative length for a size
    else if hlen < 0 then none
    else
      let min := parseUint32 (s.take hlen.toNat)
      let max := parseUint32 (s.drop (head.length + 1))
      some (if h : min ≤ max then some ⟨min, max, h⟩ else none)

/-- This is `parse_hrange` wherever an `int` can hold the length. -/
theorem parseHrangeInt_eq {s : List Char} (h : (s.takeWhile (· ≠ '-')).length < 2 ^ 31) :
    parseHrangeInt s = some (parseHrange s) := by
  have htake : s.take (s.takeWhile (· ≠ '-')).length = s.takeWhile (· ≠ '-') :=
    List.prefix_iff_eq_take.mp (List.takeWhile_prefix _) |>.symm
  rw [parseHrangeInt, parseHrange]
  dsimp only
  rw [intOfSize_eq h, Int.toNat_natCast, htake]
  by_cases hdash : (s.takeWhile (· ≠ '-')).length = s.length
  · rw [if_pos hdash, if_pos hdash]
  rw [if_neg hdash, if_neg hdash]
  by_cases hlong : 32 ≤ (s.takeWhile (· ≠ '-')).length
  · rw [if_pos (by omega), if_pos hlong]
  · rw [if_neg (by omega), if_neg (by omega), if_neg hlong]

/-! ### What is meant -/

/-- A text that names one number or two: the bounds it names. -/
inductive WrittenRange : List Char → ℕ → ℕ → Prop
  /-- One number. -/
  | one {ds : List Char} (hne : ds ≠ []) (hds : ∀ c ∈ ds, c.isDigit = true) :
      WrittenRange ds (digitsVal ds) (digitsVal ds)
  /-- Two, joined by a dash. -/
  | two {ds es : List Char} (hne : ds ≠ []) (hne' : es ≠ [])
      (hds : ∀ c ∈ ds, c.isDigit = true) (hes : ∀ c ∈ es, c.isDigit = true) :
      WrittenRange (ds ++ '-' :: es) (digitsVal ds) (digitsVal es)

/-- A text that names `lo` and `hi` is read as it is written: the range that is read has these
bounds, and there is none when one of them has no 32 bits or they are reversed. -/
structure ReadAsWritten (s : List Char) (lo hi : ℕ) : Prop where
  /-- Nothing is copied past the end of the buffer. -/
  copied : parseHrangeInt s ≠ none
  exact : ∀ r, parseHrangeInt s = some (some r) → r.min.toNat = lo ∧ r.max.toNat = hi
  refused : 2 ^ 32 ≤ lo ∨ 2 ^ 32 ≤ hi ∨ hi < lo → parseHrangeInt s = some none

/-- A text that is refused is read as nothing else. -/
theorem ReadAsWritten.of_refused {s : List Char} {lo hi : ℕ} (h : parseHrangeInt s = some none) :
    ReadAsWritten s lo hi := by
  refine ⟨by rw [h]; nofun, fun r hr => ?_, fun _ => h⟩
  rw [h] at hr
  cases hr

/-- When a text that names `lo` and `hi` is read as it is written: the numbers have 32 bits, or
the text is refused for a first number that is long or that is larger modulo `2 ^ 32`. The first
number is what is copied of it, by its length as an `int`. -/
def ReadsRight (s : List Char) (lo hi : ℕ) : Prop :=
  if '-' ∈ s then
    let hlen := intOfSize (s.takeWhile (· ≠ '-')).length
    let first := digitsVal (s.take hlen.toNat)
    32 ≤ hlen ∨ 0 ≤ hlen ∧
      (hi % 2 ^ 32 < first % 2 ^ 32 ∨ lo < 2 ^ 32 ∧ hi < 2 ^ 32 ∧ first = lo)
  else lo < 2 ^ 32

/-! ### What is read -/

/-- The digits are added up modulo `2 ^ 32`. -/
theorem toNat_parseUint32_of_digits {ds : List Char} (h : ∀ c ∈ ds, c.isDigit = true) :
    (parseUint32 ds).toNat = digitsVal ds % 2 ^ 32 := by
  have hmod : (parseUint32 ds).toNat ≡ digitsVal ds [MOD 2 ^ 32] := by
    rw [parseUint32, List.takeWhile_eq_self_iff.mpr h]
    exact foldl_parseUint32 ds 0
  rw [← hmod, Nat.mod_eq_of_lt (UInt32.toNat_lt _)]

theorem takeWhile_digits_dash {ds es : List Char} (hds : ∀ c ∈ ds, c.isDigit = true) :
    (ds ++ '-' :: es).takeWhile (· ≠ '-') = ds := by
  rw [List.takeWhile_append_of_pos]
  · simp
  · intro c hc
    have hdigit := hds c hc
    rw [decide_eq_true_eq]
    rintro rfl
    cases hdigit

/-- One number is never refused. -/
theorem parseHrangeInt_digits {ds : List Char} (hds : ∀ c ∈ ds, c.isDigit = true) :
    parseHrangeInt ds = some (some (HRange.single (parseUint32 ds))) := by
  have hall : ds.takeWhile (· ≠ '-') = ds := by
    refine List.takeWhile_eq_self_iff.mpr fun c hc => ?_
    have hdigit := hds c hc
    rw [decide_eq_true_eq]
    rintro rfl
    cases hdigit
  rw [parseHrangeInt, hall]
  exact if_pos rfl

/-- Two numbers, by the length of the first as an `int`. -/
theorem parseHrangeInt_pair {ds : List Char} (hds : ∀ c ∈ ds, c.isDigit = true)
    (es : List Char) :
    parseHrangeInt (ds ++ '-' :: es) =
      if 32 ≤ intOfSize ds.length then some none
      else if intOfSize ds.length < 0 then none
      else
        let min := parseUint32 ((ds ++ '-' :: es).take (intOfSize ds.length).toNat)
        some (if h : min ≤ parseUint32 es then some ⟨min, parseUint32 es, h⟩ else none) := by
  have hdrop : (ds ++ '-' :: es).drop (ds.length + 1) = es := by simp
  rw [parseHrangeInt, takeWhile_digits_dash hds, hdrop]
  exact if_neg (by simp)

/-- The length as an `int` is not larger than the length. -/
theorem toNat_intOfSize_le (n : ℕ) : (intOfSize n).toNat ≤ n := by
  have hmod : n % 2 ^ 32 ≤ n := Nat.mod_le _ _
  rw [intOfSize_cases]
  split
  · omega
  · omega

/-- The digits at the start of a number name a smaller one. -/
theorem digitsVal_take_le (ds : List Char) (k : ℕ) : digitsVal (ds.take k) ≤ digitsVal ds := by
  have happ : digitsVal ds = 10 ^ (ds.drop k).length * digitsVal (ds.take k) +
      digitsVal (ds.drop k) := by
    conv_lhs => rw [← List.take_append_drop k ds]
    rw [digitsVal, Nat.ofDigitChars_append, Nat.ofDigitChars_eq_ofDigitChars_zero]
    rfl
  have hpow : 0 < 10 ^ (ds.drop k).length := Nat.pow_pos (by norm_num)
  calc digitsVal (ds.take k) ≤ 10 ^ (ds.drop k).length * digitsVal (ds.take k) :=
        Nat.le_mul_of_pos_left _ hpow
    _ ≤ digitsVal ds := by rw [happ]; exact Nat.le_add_right _ _

/-- One number is read as it is written, or it does not have 32 bits. -/
theorem readAsWritten_digits_iff {ds : List Char} (hds : ∀ c ∈ ds, c.isDigit = true) :
    ReadAsWritten ds (digitsVal ds) (digitsVal ds) ↔
      ReadsRight ds (digitsVal ds) (digitsVal ds) := by
  have hdash : '-' ∉ ds := fun hc => by cases hds _ hc
  have hparse := parseHrangeInt_digits hds
  have hval := toNat_parseUint32_of_digits hds
  rw [ReadsRight, if_neg hdash]
  constructor
  · intro hr
    by_contra hlarge
    have hnone := hr.refused (Or.inl (not_lt.mp hlarge))
    rw [hparse] at hnone
    cases hnone
  · intro hlt
    rw [Nat.mod_eq_of_lt hlt] at hval
    refine ⟨by rw [hparse]; nofun, fun r hr => ?_, fun hbad => by omega⟩
    rw [hparse] at hr
    obtain rfl := Option.some.inj (Option.some.inj hr)
    exact ⟨hval, hval⟩

/-- Two numbers, by the length of the first as an `int` and the digits it lets through. -/
theorem readAsWritten_pair_iff {ds es : List Char} (hds : ∀ c ∈ ds, c.isDigit = true)
    (hes : ∀ c ∈ es, c.isDigit = true) :
    ReadAsWritten (ds ++ '-' :: es) (digitsVal ds) (digitsVal es) ↔
      ReadsRight (ds ++ '-' :: es) (digitsVal ds) (digitsVal es) := by
  have hparse := parseHrangeInt_pair hds es
  have hdash : '-' ∈ ds ++ '-' :: es := by simp
  have hcopy : (ds ++ '-' :: es).take (intOfSize ds.length).toNat =
      ds.take (intOfSize ds.length).toNat :=
    List.take_append_of_le_length (toNat_intOfSize_le _)
  have hmin := toNat_parseUint32_of_digits fun c hc =>
    hds c (List.mem_of_mem_take (i := (intOfSize ds.length).toNat) hc)
  have hmax := toNat_parseUint32_of_digits hes
  rw [ReadsRight, if_pos hdash, takeWhile_digits_dash hds]
  dsimp only
  rw [hcopy] at hparse ⊢
  have hfirst := digitsVal_take_le ds (intOfSize ds.length).toNat
  generalize digitsVal (ds.take (intOfSize ds.length).toNat) = first at hmin hfirst ⊢
  generalize parseUint32 (ds.take (intOfSize ds.length).toNat) = min at hmin hparse
  generalize intOfSize ds.length = hlen at hparse ⊢
  by_cases hlong : 32 ≤ hlen
  · rw [if_pos hlong] at hparse
    exact iff_of_true (.of_refused hparse) (Or.inl hlong)
  rw [if_neg hlong] at hparse
  by_cases hneg : hlen < 0
  · rw [if_pos hneg] at hparse
    exact iff_of_false (fun hr => hr.copied hparse) (by omega)
  rw [if_neg hneg] at hparse
  dsimp only at hparse
  by_cases hle : min ≤ parseUint32 es
  · -- the range is accepted
    rw [dif_pos hle] at hparse
    rw [UInt32.le_iff_toNat_le, hmin, hmax] at hle
    constructor
    · intro hr
      obtain ⟨hlo, hhi⟩ := hr.exact _ hparse
      rw [hmin] at hlo
      rw [hmax] at hhi
      have hlo' : digitsVal ds < 2 ^ 32 := hlo ▸ Nat.mod_lt _ (by norm_num)
      have hhi' : digitsVal es < 2 ^ 32 := hhi ▸ Nat.mod_lt _ (by norm_num)
      rw [Nat.mod_eq_of_lt (hfirst.trans_lt hlo')] at hlo
      exact Or.inr ⟨not_lt.mp hneg, Or.inr ⟨hlo', hhi', hlo⟩⟩
    · rintro (hlong' | ⟨-, hrev | ⟨hlo, hhi, rfl⟩⟩)
      · exact absurd hlong' hlong
      · omega
      · rw [Nat.mod_eq_of_lt hlo] at hmin hle
        rw [Nat.mod_eq_of_lt hhi] at hmax hle
        refine ⟨by rw [hparse]; nofun, fun r hr => ?_, fun hbad => by omega⟩
        rw [hparse] at hr
        obtain rfl := Option.some.inj (Option.some.inj hr)
        exact ⟨hmin, hmax⟩
  · rw [dif_neg hle] at hparse
    rw [UInt32.le_iff_toNat_le, hmin, hmax, not_le] at hle
    exact iff_of_true (.of_refused hparse) (Or.inr ⟨not_lt.mp hneg, Or.inl hle⟩)

/-- **Which texts are read as they are written.** -/
theorem readAsWritten_iff {s : List Char} {lo hi : ℕ} (h : WrittenRange s lo hi) :
    ReadAsWritten s lo hi ↔ ReadsRight s lo hi := by
  cases h with
  | one _ hds => exact readAsWritten_digits_iff hds
  | two _ _ hds hes => exact readAsWritten_pair_iff hds hes

/-- Two numbers, of a length an `int` can hold, are read as they are written when they have 32
bits, and are refused when the first is long, or larger modulo `2 ^ 32`. -/
theorem readsRight_pair_iff {ds es : List Char} (hds : ∀ c ∈ ds, c.isDigit = true)
    (hlen : ds.length < 2 ^ 31) :
    ReadsRight (ds ++ '-' :: es) (digitsVal ds) (digitsVal es) ↔
      32 ≤ ds.length ∨ digitsVal es % 2 ^ 32 < digitsVal ds % 2 ^ 32 ∨
        digitsVal ds < 2 ^ 32 ∧ digitsVal es < 2 ^ 32 := by
  rw [ReadsRight, if_pos (by simp), takeWhile_digits_dash hds, intOfSize_eq hlen]
  simp [Nat.cast_nonneg]

/-- A range whose numbers have 32 bits. -/
theorem readAsWritten_iff_plain :
    WrittenRange ['5', '-', '7'] 5 7 ∧ ReadAsWritten ['5', '-', '7'] 5 7 := by
  have hfive : ∀ c ∈ ['5'], c.isDigit = true := List.forall_mem_singleton.mpr rfl
  have hw : WrittenRange (['5'] ++ '-' :: ['7']) (digitsVal ['5']) (digitsVal ['7']) :=
    .two nofun nofun hfive (List.forall_mem_singleton.mpr rfl)
  have hread : ReadsRight (['5'] ++ '-' :: ['7']) (digitsVal ['5']) (digitsVal ['7']) :=
    (readsRight_pair_iff hfive (by decide)).mpr (by decide)
  exact ⟨hw, (readAsWritten_iff hw).mpr hread⟩

/-- `2 ^ 32 + 5`. -/
def largeHeader : List Char := ['4', '2', '9', '4', '9', '6', '7', '3', '0', '1']

/-- It is read as 5. -/
theorem not_readAsWritten_large :
    WrittenRange largeHeader (2 ^ 32 + 5) (2 ^ 32 + 5) ∧
      parseHrangeInt largeHeader = some (some (.single 5)) ∧
      ¬ ReadAsWritten largeHeader (2 ^ 32 + 5) (2 ^ 32 + 5) := by
  have hval : digitsVal largeHeader = 2 ^ 32 + 5 := by decide +kernel
  have hdigits : ∀ c ∈ largeHeader, c.isDigit = true := List.all_eq_true.mp rfl
  have hparse : parseHrangeInt largeHeader = some (some (.single 5)) := by
    rw [parseHrangeInt_digits hdigits]
    rfl
  refine ⟨hval ▸ .one nofun hdigits, hparse, fun hr => ?_⟩
  have hnone := hr.refused (Or.inl (Nat.le_add_right _ 5))
  rw [hparse] at hnone
  cases hnone

end AwgProxy
