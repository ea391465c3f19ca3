import Mathlib.Data.Nat.ModEq
import AwgProxy.Validate

/-!
# What the Configurator Accepts

The values of a file that `validate` finds nothing wrong with go to the proxy as they are:
`main` reads the numbers with `parse_int_str`, the headers with `parse_hrange` and the
templates with `cps_parse`, and starts when `config_validate` accepts the configuration.
The configurator knows no bound for its numbers and no buffer for its templates.

* `parseHrange_of_isHValue` — every header is read as the range that is written.
* `startsAsWritten_iff` — the proxy starts with the values of an accepted file if and only
  if the numbers are in range and the templates are plain (`FitsProxy`).
-/

namespace AwgProxy

open Text hiding trim trim_trim exists_eq_trim

/-! ### Reading a configuration -/

/-- `INT_MAX`. -/
abbrev intMax : ℕ := 2147483647

/-- The loop of `parse_int_str`, `none` where the value leaves the range of `int`: the
language does not define what the program does then. -/
def parseIntStrLoop (v : ℕ) : List Char → Option ℕ
  | [] => some v
  | c :: s =>
      if c.isDigit then
        if intMax < 10 * v + (c.toNat - '0'.toNat) then none
        else parseIntStrLoop (10 * v + (c.toNat - '0'.toNat)) s
      else some v

/-- `parse_int_str`. -/
def parseIntStr? : List Char → Option ℤ
  | '-' :: s => (parseIntStrLoop 0 s).map fun v => -(v : ℤ)
  | s => (parseIntStrLoop 0 s).map fun v => (v : ℤ)

/-- A number that may be missing, and is zero then. -/
def optionalIntStr? (s : List Char) : Option ℤ :=
  if s = [] then some 0 else parseIntStr? s

namespace Configurator

open Ecma

/-- Header protection is on when the key is not all zero. -/
def headerProtection (key : List Char) : Bool :=
  (atob? key).elim false fun d => d.any (· ≠ 0)

/-- The configuration `main` checks, with the values of a file for the variables of the
environment. It is `none` where a header is rejected, and where a number is too large for
an `int`. -/
def readConfig (cfg : AwgConfig) (v : IfaceKey → List Char) : Option AwgConfig := do
  let jc ← parseIntStr? (cString (v .jc))
  let jmin ← parseIntStr? (cString (v .jmin))
  let jmax ← parseIntStr? (cString (v .jmax))
  let s1 ← parseIntStr? (cString (v .s1))
  let s2 ← parseIntStr? (cString (v .s2))
  let h1 ← parseHrange (cString (v .h1))
  let h2 ← parseHrange (cString (v .h2))
  let h3 ← parseHrange (cString (v .h3))
  let h4 ← parseHrange (cString (v .h4))
  let s3 ← optionalIntStr? (cString (v .s3))
  let s4 ← optionalIntStr? (cString (v .s4))
  some { cfg with
    jc := jc, jmin := jmin, jmax := jmax
    s1 := s1, s2 := s2, s3 := s3, s4 := s4
    h1 := h1, h2 := h2, h3 := h3, h4 := h4
    hpOn := headerProtection (v .headerProtectionKey) }

/-! ### Starting as written -/

/-- A header value and the range that is written in it. -/
inductive RangeText : List Char → HRange → Prop
  /-- One number. -/
  | single {ds : List Char} {x : UInt32} (hds : ∀ c ∈ ds, c.isDigit = true)
      (hx : x.toNat = digitsVal ds) : RangeText ds (.single x)
  /-- The smallest and the largest. -/
  | range {ds es : List Char} {lo hi : UInt32} (hle : lo ≤ hi)
      (hds : ∀ c ∈ ds, c.isDigit = true) (hes : ∀ c ∈ es, c.isDigit = true)
      (hlo : lo.toNat = digitsVal ds) (hhi : hi.toNat = digitsVal es) :
      RangeText (ds ++ '-' :: es) ⟨lo, hi, hle⟩

/-- The proxy starts with the values of a file: it reads the headers as they are written,
accepts the configuration, and reads the templates as they are written. -/
structure StartsAsWritten (cfg : AwgConfig) (v : IfaceKey → List Char) : Prop where
  /-- The headers. -/
  headers : ∀ k ∈ hKeys, ∃ r, parseHrange (cString (v k)) = some r ∧ RangeText (v k) r
  /-- The configuration. -/
  accepts : ∃ c, readConfig cfg v = some c ∧ configValidate c = .ok ()
  /-- The templates. -/
  templates : ∀ k ∈ iKeys, v k ≠ [] →
    ∃ t, cpsParse (cString (v k)) = some t ∧ SameTags (writtenTags (v k)) t

/-- The numbers are in range and the templates are plain. A missing number is zero. -/
structure FitsProxy (v : IfaceKey → List Char) : Prop where
  jc : digitsVal (v .jc) ≤ intMax
  jmin : digitsVal (v .jmin) ≤ intMax
  jmax : digitsVal (v .jmax) ≤ intMax
  s1 : digitsVal (v .s1) ≤ 1352
  s2 : digitsVal (v .s2) ≤ 1408
  s3 : digitsVal (v .s3) ≤ 1436
  s4 : digitsVal (v .s4) ≤ 256
  plain : ∀ k ∈ iKeys, v k ≠ [] → PlainTemplate (v k)

/-! ### Numbers -/

theorem digits_of_isNonNegativeInt {s : List Char} (h : isNonNegativeInt s = true) :
    s ≠ [] ∧ ∀ c ∈ s, c.isDigit = true := by
  simp only [isNonNegativeInt, Bool.or_eq_true, decide_eq_true_eq] at h
  rcases h with rfl | h
  · simp
  · exact ⟨(digits_of_isPositiveInt h).1, (digits_of_isPositiveInt h).2.1⟩

/-- A number is converted from its digits. -/
theorem number_of_isNonNegativeInt {s : List Char} (h : isNonNegativeInt s = true) :
    number s = natNumber (digitsVal s) :=
  number_digits (digits_of_isNonNegativeInt h).1 (digits_of_isNonNegativeInt h).2

/-- Digits hold no NUL. -/
theorem cString_digits {s : List Char} (h : ∀ c ∈ s, c.isDigit = true) : cString s = s :=
  cString_eq_self fun hnul => by cases h _ hnul

theorem parseIntStrLoop_digits {ds : List Char} (hds : ∀ c ∈ ds, c.isDigit = true) {v : ℕ}
    (hv : v ≤ intMax) :
    parseIntStrLoop v ds =
      if Nat.ofDigitChars 10 ds v ≤ intMax then some (Nat.ofDigitChars 10 ds v) else none := by
  induction ds generalizing v with
  | nil => simp [parseIntStrLoop, hv]
  | cons c ds ih =>
      have hc : c.isDigit = true := hds c (by simp)
      rw [parseIntStrLoop, if_pos hc, Nat.ofDigitChars_cons]
      by_cases hbig : intMax < 10 * v + (c.toNat - '0'.toNat)
      · have hle := le_ofDigitChars ds (10 * v + (c.toNat - '0'.toNat))
        rw [if_pos hbig, if_neg (not_le.mpr (hbig.trans_le hle))]
      · rw [if_neg hbig, ih (fun d hd => hds d (by simp [hd])) (not_lt.mp hbig)]

/-- `parse_int_str` reads what an `int` can hold. -/
theorem parseIntStr?_digits {ds : List Char} (hds : ∀ c ∈ ds, c.isDigit = true) :
    parseIntStr? (cString ds) =
      if digitsVal ds ≤ intMax then some (digitsVal ds : ℤ) else none := by
  have hsign : ∀ r, ds ≠ '-' :: r := by
    rintro r rfl
    cases hds '-' (by simp)
  rw [cString_digits hds]
  unfold parseIntStr?
  split
  next r => exact absurd rfl (hsign r)
  next =>
    rw [parseIntStrLoop_digits hds (by omega), ← digitsVal]
    split_ifs <;> rfl

theorem parseIntStr?_eq_some_iff {ds : List Char} (hds : ∀ c ∈ ds, c.isDigit = true) {x : ℤ} :
    parseIntStr? (cString ds) = some x ↔ digitsVal ds ≤ intMax ∧ x = digitsVal ds := by
  rw [parseIntStr?_digits hds]
  by_cases h : digitsVal ds ≤ intMax
  · simp [h, eq_comm]
  · simp [h]

/-- A missing number is read as zero, the value of no digits. -/
theorem optionalIntStr?_eq_some_iff {ds : List Char} (hds : ∀ c ∈ ds, c.isDigit = true) {x : ℤ} :
    optionalIntStr? (cString ds) = some x ↔ digitsVal ds ≤ intMax ∧ x = digitsVal ds := by
  rw [← parseIntStr?_eq_some_iff hds, optionalIntStr?]
  split_ifs with hempty
  · rw [hempty]
    rfl
  · rfl

/-! ### Headers -/

/-- A number without a zero in front has as many digits as its value needs. -/
theorem length_le_of_isNonNegativeInt {s : List Char} (h : isNonNegativeInt s = true) {n : ℕ}
    (hval : digitsVal s < 10 ^ n) (hn : n ≠ 0) : s.length ≤ n := by
  simp only [isNonNegativeInt, Bool.or_eq_true, decide_eq_true_eq] at h
  rcases h with rfl | h
  · exact Nat.one_le_iff_ne_zero.mpr hn
  cases s with
  | nil => exact Nat.zero_le n
  | cons c ds =>
      simp only [isPositiveInt, Bool.and_eq_true, decide_eq_true_eq] at h
      have hbound : 48 ≤ c.toNat ∧ c.toNat ≤ 57 := Char.isDigit_iff_toNat.mp h.1.1
      have hne : c.toNat ≠ 48 := fun heq => h.1.2 (Char.toNat_inj.mp heq)
      have hzero : '0'.toNat = 48 := rfl
      have hpow : 10 ^ ds.length < 10 ^ n := calc
        10 ^ ds.length ≤ 10 ^ ds.length * (10 * 0 + (c.toNat - '0'.toNat)) :=
          Nat.le_mul_of_pos_right _ (by omega)
        _ ≤ digitsVal (c :: ds) := by
          rw [digitsVal, Nat.ofDigitChars_cons, Nat.ofDigitChars_eq_ofDigitChars_zero]
          exact Nat.le_add_right _ _
        _ < 10 ^ n := hval
      exact (Nat.pow_lt_pow_iff_right (by omega)).mp hpow

/-- A number of 32 bits. -/
theorem isUint32_iff {s : List Char} :
    isUint32 s = true ↔ isNonNegativeInt s = true ∧ digitsVal s < 2 ^ 32 := by
  simp only [isUint32, Bool.and_eq_true, and_assoc]
  refine and_congr_right fun h => ?_
  rw [number_of_isNonNegativeInt h]
  have hbound := natNumber_le_iff (m := 4294967295) (n := digitsVal s) (by norm_num)
  have hnonneg : digitsVal s < 2 ^ 32 → (Number.finite 0).le (natNumber (digitsVal s)) = true := by
    intro hlt
    rw [natNumber_of_lt (by omega)]
    simp [Number.le]
  constructor
  · rintro ⟨-, hle⟩
    have hle' := hbound.mp (by exact_mod_cast hle)
    omega
  · intro hlt
    exact ⟨hnonneg hlt, by exact_mod_cast hbound.mpr (by omega)⟩

/-- The loop of `parse_uint32` computes modulo `2 ^ 32`. -/
theorem foldl_parseUint32 (ds : List Char) (v : UInt32) :
    (ds.foldl (fun v c => v * 10 + (c.toNat - '0'.toNat).toUInt32) v).toNat ≡
      Nat.ofDigitChars 10 ds v.toNat [MOD 2 ^ 32] := by
  induction ds generalizing v with
  | nil => rfl
  | cons c ds ih =>
      rw [List.foldl_cons, Nat.ofDigitChars_cons]
      generalize c.toNat - '0'.toNat = d
      have hstep : (v * 10 + d.toUInt32).toNat ≡ 10 * v.toNat + d [MOD 2 ^ 32] := by
        rw [UInt32.toNat_add, UInt32.toNat_mul, Nat.mul_comm 10]
        refine (Nat.mod_modEq _ _).trans ((Nat.mod_modEq _ _).add ?_)
        exact Nat.mod_modEq d (2 ^ 32)
      refine (ih _).trans ?_
      rw [Nat.ofDigitChars_eq_ofDigitChars_zero,
        @Nat.ofDigitChars_eq_ofDigitChars_zero ds (10 * v.toNat + d)]
      exact (hstep.mul_left _).add_right _

/-- `parse_uint32` reads a number of 32 bits. -/
theorem toNat_parseUint32 {s : List Char} (h : isUint32 s = true) :
    (parseUint32 s).toNat = digitsVal s := by
  obtain ⟨hint, hlt⟩ := isUint32_iff.mp h
  have hmod : (parseUint32 s).toNat ≡ digitsVal s [MOD 2 ^ 32] := by
    rw [parseUint32, List.takeWhile_eq_self_iff.mpr (digits_of_isNonNegativeInt hint).2]
    exact foldl_parseUint32 s 0
  exact hmod.eq_of_lt_of_lt (UInt32.toNat_lt _) hlt

/-- A number of 32 bits is converted to itself. -/
theorem number_of_isUint32 {s : List Char} (h : isUint32 s = true) :
    number s = .finite (digitsVal s : ℕ) := by
  obtain ⟨hint, hlt⟩ := isUint32_iff.mp h
  rw [number_of_isNonNegativeInt hint, natNumber_of_lt (by omega)]

theorem dash_notMem_of_isUint32 {s : List Char} (h : isUint32 s = true) : '-' ∉ s := by
  intro hc
  cases (digits_of_isNonNegativeInt (isUint32_iff.mp h).1).2 _ hc

/-- A header is a number, or two in order with a dash between them. -/
theorem isHValue_cases {s : List Char} (h : isHValue s = true) :
    isUint32 s = true ∨ ∃ a b, s = a ++ '-' :: b ∧ isUint32 a = true ∧ isUint32 b = true ∧
      digitsVal a ≤ digitsVal b := by
  rw [isHValue, Bool.or_eq_true] at h
  rcases h with h | h
  · exact Or.inl h
  split at h
  next a b hsplit =>
    simp only [Bool.and_eq_true] at h
    obtain ⟨⟨ha, hb⟩, hle⟩ := h
    have hjoin : ['-'].intercalate (s.splitOn '-') = s := List.intercalate_splitOn '-'
    have hs : s = a ++ '-' :: b := by
      rw [← hjoin, hsplit]
      simp
    rw [number_of_isUint32 ha, number_of_isUint32 hb] at hle
    exact Or.inr ⟨a, b, hs, ha, hb, by simpa [Number.le] using hle⟩
  next => cases h

/-- **A header is read as the range that is written**, and checked with the bounds it is
read with. -/
theorem parseHrange_of_isHValue {s : List Char} (h : isHValue s = true) :
    ∃ r, parseHrange (cString s) = some r ∧ RangeText s r ∧
      hBounds s = (.finite r.min.toNat, .finite r.max.toNat) := by
  rcases isHValue_cases h with hs | ⟨a, b, rfl, ha, hb, hle⟩
  · have hdigits := (digits_of_isNonNegativeInt (isUint32_iff.mp hs).1).2
    have hdash := dash_notMem_of_isUint32 hs
    refine ⟨.single (parseUint32 s), ?_, .single hdigits (toNat_parseUint32 hs), ?_⟩
    · rw [cString_digits hdigits, parseHrange]
      have htake : s.takeWhile (· ≠ '-') = s :=
        List.takeWhile_eq_self_iff.mpr fun c hc => by
          simpa using fun heq : c = '-' => hdash (heq ▸ hc)
      rw [htake, if_pos rfl]
    · rw [hBounds, List.splitOn_eq_singleton hdash]
      simp [number_of_isUint32 hs, HRange.single, toNat_parseUint32 hs]
  · have hda := (digits_of_isNonNegativeInt (isUint32_iff.mp ha).1).2
    have hdb := (digits_of_isNonNegativeInt (isUint32_iff.mp hb).1).2
    have hdash := dash_notMem_of_isUint32 ha
    have hlen : a.length ≤ 10 := length_le_of_isNonNegativeInt (isUint32_iff.mp ha).1
      ((isUint32_iff.mp ha).2.trans (by norm_num)) (by norm_num)
    have hle' : parseUint32 a ≤ parseUint32 b := by
      rw [UInt32.le_iff_toNat_le, toNat_parseUint32 ha, toNat_parseUint32 hb]
      exact hle
    refine ⟨⟨parseUint32 a, parseUint32 b, hle'⟩, ?_,
      .range hle' hda hdb (toNat_parseUint32 ha) (toNat_parseUint32 hb), ?_⟩
    · have hnul : cString (a ++ '-' :: b) = a ++ '-' :: b := by
        refine cString_eq_self fun hc => ?_
        simp only [List.mem_append, List.mem_cons] at hc
        rcases hc with hc | hc | hc
        · cases hda _ hc
        · cases hc
        · cases hdb _ hc
      have htake : (a ++ '-' :: b).takeWhile (· ≠ '-') = a := by
        rw [List.takeWhile_append_of_pos fun c hc => by
          simpa using fun heq : c = '-' => hdash (heq ▸ hc)]
        simp
      have hdrop : (a ++ '-' :: b).drop (a.length + 1) = b := by simp
      rw [hnul, parseHrange, htake, hdrop, if_neg (by simp), if_neg (by omega)]
      simp [hle']
    · rw [hBounds, List.splitOn_append_cons_self_of_not_mem hdash,
        List.splitOn_eq_singleton (dash_notMem_of_isUint32 hb)]
      simp [number_of_isUint32 ha, number_of_isUint32 hb, toNat_parseUint32 ha,
        toNat_parseUint32 hb]

/-- Headers that do not overlap for the configurator do not overlap for the proxy. -/
theorem hrangeOverlaps_of_hOverlap {s t : List Char} {a b : HRange}
    (hs : hBounds s = (.finite a.min.toNat, .finite a.max.toNat))
    (ht : hBounds t = (.finite b.min.toNat, .finite b.max.toNat))
    (h : hOverlap s t = false) : hrangeOverlaps a b = false := by
  rw [hOverlap, hs, ht] at h
  simpa [Number.le, hrangeOverlaps, UInt32.le_iff_toNat_le] using h

/-! ### The configuration -/

/-- The keys that have a number. -/
def sizeKeys : List IfaceKey := [.jc, .jmin, .jmax] ++ sKeys

theorem forall_mem_sizeKeys {P : IfaceKey → Prop} :
    (∀ k ∈ sizeKeys, P k) ↔ P .jc ∧ P .jmin ∧ P .jmax ∧ P .s1 ∧ P .s2 ∧ P .s3 ∧ P .s4 := by
  simp [sizeKeys, sKeys]

theorem forall_mem_hKeys {P : IfaceKey → Prop} :
    (∀ k ∈ hKeys, P k) ↔ P .h1 ∧ P .h2 ∧ P .h3 ∧ P .h4 := by
  simp [hKeys]

/-- The numbers of a checked file are digits, a missing one is none. -/
theorem Checked.digits {v : IfaceKey → List Char} (hv : Checked v) :
    ∀ k ∈ sizeKeys, ∀ c ∈ v k, c.isDigit = true := by
  intro k hk
  have hmem : k ∈ [IfaceKey.jc, .jmin, .jmax, .s1, .s2] ++ [.s3, .s4] := hk
  rcases List.mem_append.mp hmem with hk | hk
  · exact (digits_of_isNonNegativeInt (hv.ints k hk)).2
  · by_cases hempty : v k = []
    · simp [hempty]
    · exact (digits_of_isNonNegativeInt (hv.optionalInts k hk hempty)).2

/-- The configuration of a checked file: the numbers are the ones that are written, if an
`int` can hold them. -/
theorem readConfig_eq_some_iff {v : IfaceKey → List Char} (hv : Checked v) {cfg c : AwgConfig} :
    readConfig cfg v = some c ↔
      (∀ k ∈ sizeKeys, digitsVal (v k) ≤ intMax) ∧
        ∃ h1 h2 h3 h4, parseHrange (cString (v .h1)) = some h1 ∧
          parseHrange (cString (v .h2)) = some h2 ∧ parseHrange (cString (v .h3)) = some h3 ∧
          parseHrange (cString (v .h4)) = some h4 ∧
          c = { cfg with
            jc := digitsVal (v .jc), jmin := digitsVal (v .jmin), jmax := digitsVal (v .jmax)
            s1 := digitsVal (v .s1), s2 := digitsVal (v .s2), s3 := digitsVal (v .s3)
            s4 := digitsVal (v .s4), h1 := h1, h2 := h2, h3 := h3, h4 := h4
            hpOn := headerProtection (v .headerProtectionKey) } := by
  obtain ⟨djc, djmin, djmax, ds1, ds2, ds3, ds4⟩ := forall_mem_sizeKeys.mp hv.digits
  simp only [readConfig, Option.bind_eq_bind, Option.bind_eq_some_iff, Option.some.injEq,
    parseIntStr?_eq_some_iff djc, parseIntStr?_eq_some_iff djmin, parseIntStr?_eq_some_iff djmax,
    parseIntStr?_eq_some_iff ds1, parseIntStr?_eq_some_iff ds2, optionalIntStr?_eq_some_iff ds3,
    optionalIntStr?_eq_some_iff ds4, forall_mem_sizeKeys]
  constructor
  · rintro ⟨_, ⟨hjc, rfl⟩, _, ⟨hjmin, rfl⟩, _, ⟨hjmax, rfl⟩, _, ⟨hs1, rfl⟩, _, ⟨hs2, rfl⟩,
      h1, hh1, h2, hh2, h3, hh3, h4, hh4, _, ⟨hs3, rfl⟩, _, ⟨hs4, rfl⟩, rfl⟩
    exact ⟨⟨hjc, hjmin, hjmax, hs1, hs2, hs3, hs4⟩, h1, h2, h3, h4, hh1, hh2, hh3, hh4, rfl⟩
  · rintro ⟨⟨hjc, hjmin, hjmax, hs1, hs2, hs3, hs4⟩, h1, h2, h3, h4, hh1, hh2, hh3, hh4, rfl⟩
    exact ⟨_, ⟨hjc, rfl⟩, _, ⟨hjmin, rfl⟩, _, ⟨hjmax, rfl⟩, _, ⟨hs1, rfl⟩, _, ⟨hs2, rfl⟩,
      h1, hh1, h2, hh2, h3, hh3, h4, hh4, _, ⟨hs3, rfl⟩, _, ⟨hs4, rfl⟩, rfl⟩

/-- Junk sizes are compared without rounding when an `int` can hold them. -/
theorem Checked.jmin_le_jmax {v : IfaceKey → List Char} (hv : Checked v)
    (hmin : digitsVal (v .jmin) ≤ intMax) (hmax : digitsVal (v .jmax) ≤ intMax) :
    digitsVal (v .jmin) ≤ digitsVal (v .jmax) := by
  have h := hv.junk
  have hint : intMax = 2147483647 := rfl
  rw [number_of_isNonNegativeInt (hv.ints .jmin (by decide)),
    number_of_isNonNegativeInt (hv.ints .jmax (by decide)), natNumber_of_lt (by omega),
    natNumber_of_lt (by omega)] at h
  simpa [Number.lt] using h

/-- With header protection every padding has room for the nonce. -/
theorem Checked.le_padding {v : IfaceKey → List Char} (hv : Checked v)
    (hon : headerProtection (v .headerProtectionKey) = true) :
    ∀ k ∈ sKeys, 12 ≤ digitsVal (v k) := by
  intro k hk
  have hkey : v .headerProtectionKey ≠ [] := by
    intro hempty
    rw [hempty] at hon
    cases hon
  obtain ⟨hint, hlt⟩ := hv.paddings hkey k hk
  by_contra hsmall
  rw [number_of_isNonNegativeInt hint, natNumber_of_lt (by omega)] at hlt
  simp only [Number.lt, decide_eq_false_iff_not, not_lt] at hlt
  have hle : 12 ≤ digitsVal (v k) := by exact_mod_cast hlt
  exact hsmall hle

/-- The headers of a checked file are disjoint ranges for the proxy. -/
theorem Checked.ranges {v : IfaceKey → List Char} (hv : Checked v) :
    ∃ r : IfaceKey → HRange, (∀ k ∈ hKeys, parseHrange (cString (v k)) = some (r k) ∧
      RangeText (v k) (r k)) ∧ ∀ x ∈ hPairs, hrangeOverlaps (r x.1) (r x.2) = false := by
  have hread : ∀ k, ∃ r, k ∈ hKeys → parseHrange (cString (v k)) = some r ∧ RangeText (v k) r ∧
      hBounds (v k) = (.finite r.min.toNat, .finite r.max.toNat) := by
    intro k
    by_cases hk : k ∈ hKeys
    · obtain ⟨r, hr⟩ := parseHrange_of_isHValue (hv.headers k hk)
      exact ⟨r, fun _ => hr⟩
    · exact ⟨.single 0, fun h => absurd h hk⟩
  choose r hr using hread
  have hpairs : ∀ x ∈ hPairs, x.1 ∈ hKeys ∧ x.2 ∈ hKeys := by decide
  refine ⟨r, fun k hk => ⟨(hr k hk).1, (hr k hk).2.1⟩, fun x hx => ?_⟩
  obtain ⟨hfst, hsnd⟩ := hpairs x hx
  exact hrangeOverlaps_of_hOverlap (hr _ hfst).2.2 (hr _ hsnd).2.2 (hv.disjoint x hx)

/-- A checked file that fits is accepted. -/
theorem exists_configValidate {v : IfaceKey → List Char} (hv : Checked v) (hfit : FitsProxy v)
    (cfg : AwgConfig) : ∃ c, readConfig cfg v = some c ∧ configValidate c = .ok () := by
  obtain ⟨r, hread, hdisjoint⟩ := hv.ranges
  obtain ⟨hh1, hh2, hh3, hh4⟩ := forall_mem_hKeys.mp fun k hk => (hread k hk).1
  obtain ⟨hjc, hjmin, hjmax, hs1, hs2, hs3, hs4, -⟩ := hfit
  have hint : intMax = 2147483647 := rfl
  have hmax : ∀ k ∈ sizeKeys, digitsVal (v k) ≤ intMax :=
    forall_mem_sizeKeys.mpr ⟨hjc, hjmin, hjmax, by omega, by omega, by omega, by omega⟩
  simp only [hPairs, List.forall_mem_cons] at hdisjoint
  obtain ⟨h12, h13, h14, h23, h24, h34, -⟩ := hdisjoint
  have hpad : headerProtection (v .headerProtectionKey) = true →
      12 ≤ digitsVal (v .s1) ∧ 12 ≤ digitsVal (v .s2) ∧ 12 ≤ digitsVal (v .s3) ∧
        12 ≤ digitsVal (v .s4) := by
    intro hon
    have hle := hv.le_padding hon
    simpa [sKeys] using hle
  refine ⟨_, (readConfig_eq_some_iff hv).mpr ⟨hmax, _, _, _, _, hh1, hh2, hh3, hh4, rfl⟩, ?_⟩
  refine (configValidate_eq_ok_iff _).mpr ⟨fun _ => ?_, ?_⟩
  · exact Int.ofNat_le.mpr (hv.jmin_le_jmax hjmin hjmax)
  · exact {
      s1_mem := ⟨Int.natCast_nonneg _, Int.ofNat_le.mpr hs1⟩
      s2_mem := ⟨Int.natCast_nonneg _, Int.ofNat_le.mpr hs2⟩
      s3_mem := ⟨Int.natCast_nonneg _, Int.ofNat_le.mpr hs3⟩
      s4_mem := ⟨Int.natCast_nonneg _, Int.ofNat_le.mpr hs4⟩
      hp := fun hon => by
        obtain ⟨hp1, hp2, hp3, hp4⟩ := hpad hon
        exact ⟨Int.ofNat_le.mpr hp1, Int.ofNat_le.mpr hp2, Int.ofNat_le.mpr hp3,
          Int.ofNat_le.mpr hp4⟩
      h12 := h12, h13 := h13, h14 := h14, h23 := h23, h24 := h24, h34 := h34 }

/-- A template of a checked file is read as it is written if and only if it is plain. -/
theorem Checked.template_iff {v : IfaceKey → List Char} (hv : Checked v) {k : IfaceKey}
    (hk : k ∈ iKeys) (hne : v k ≠ []) :
    (∃ t, cpsParse (cString (v k)) = some t ∧ SameTags (writtenTags (v k)) t) ↔
      PlainTemplate (v k) := by
  have hvalid := hv.templates k hk hne
  rw [cString_of_isValidCPSTemplate hvalid, sameTags_iff hvalid]

/-- **What the configurator accepts, the proxy starts with if and only if it fits.** -/
theorem startsAsWritten_iff {p : Parsed} (h : (validate p).2 = []) (cfg : AwgConfig) :
    StartsAsWritten cfg (validate p).1.iface ↔ FitsProxy (validate p).1.iface := by
  have hv := checked_of_validate h
  generalize (validate p).1.iface = v at hv
  constructor
  · rintro ⟨-, ⟨c, hread, hok⟩, htemplates⟩
    obtain ⟨hmax, h1, h2, h3, h4, -, -, -, -, rfl⟩ := (readConfig_eq_some_iff hv).mp hread
    obtain ⟨-, hvalid⟩ := (configValidate_eq_ok_iff _).mp hok
    obtain ⟨hjc, hjmin, hjmax, -⟩ := forall_mem_sizeKeys.mp hmax
    exact {
      jc := hjc
      jmin := hjmin
      jmax := hjmax
      s1 := Int.ofNat_le.mp hvalid.s1_mem.2
      s2 := Int.ofNat_le.mp hvalid.s2_mem.2
      s3 := Int.ofNat_le.mp hvalid.s3_mem.2
      s4 := Int.ofNat_le.mp hvalid.s4_mem.2
      plain := fun k hk hne => (hv.template_iff hk hne).mp (htemplates k hk hne) }
  · intro hfit
    obtain ⟨r, hread, -⟩ := hv.ranges
    exact {
      headers := fun k hk => ⟨r k, hread k hk⟩
      accepts := exists_configValidate hv hfit cfg
      templates := fun k hk hne => (hv.template_iff hk hne).mpr (hfit.plain k hk hne) }

/-- The profile before anything is read: static storage is zero. -/
def zeroProfile : AwgProfile :=
  { s1 := 0, s2 := 0, s3 := 0, s4 := 0
    h1 := .single 0, h2 := .single 0, h3 := .single 0, h4 := .single 0
    cps := fun _ => none, hpOn := false, rt := false, h4Fixed := 0, h4Noop := false
    initTotal := 0, respTotal := 0, cookieTotal := 0, transportSizeAmbiguous := false }

/-- The configuration before anything is read. -/
def zeroConfig : AwgConfig :=
  { zeroProfile with
    mode := .normal, jc := 0, jmin := 0, jmax := 0
    serverPeerMac1keys := [], hpKey := [], rtAny := false, disableCookies := false
    udpWindow := 0, mac1keyOut := none, mac1keyIn := none
    profiles := fun _ => zeroProfile, profileCount := 0, activeProfile := 0, maxS4 := 0 }

/-- A file with a template, and `s1` for `S1`. -/
def fileWith (s1 : String) : Parsed where
  iface
    | .privateKey => "AAECAwQFBgcICQoLDA0ODxAREhMUFRYXGBkaGxwdHh8=".toList
    | .address => "172.16.0.2/32, 2606:4700::2/128".toList
    | .jc => "4".toList
    | .jmin => "40".toList
    | .jmax => "70".toList
    | .s1 => s1.toList
    | .h1 => "5-9".toList
    | .i1 => "<b 0xc0ff> <r 8>".toList
    | _ => []
  peer
    | .publicKey => "AAECAwQFBgcICQoLDA0ODxAREhMUFRYXGBkaGxwdHh8=".toList
    | .endpoint => "vpn.example.com:443".toList
    | .allowedIPs => "0.0.0.0/0, ::/0".toList
    | _ => []
  defaulted := []

/-- A file of numbers in range starts, with the defaults for the rest. -/
theorem startsAsWritten_plain :
    StartsAsWritten zeroConfig (validate (fileWith "15")).1.iface := by
  have haccept : (validate (fileWith "15")).2 = [] := by decide +kernel
  refine (startsAsWritten_iff haccept zeroConfig).mpr
    ⟨by decide, by decide, by decide, by decide, by decide, by decide, by decide, ?_⟩
  have hplain : PlainTemplate "<b 0xc0ff> <r 8>".toList := by
    have htexts : tagTexts "<b 0xc0ff> <r 8>".toList = ["b 0xc0ff".toList, "r 8".toList] := by
      decide
    refine ⟨?_, by decide, by decide, by decide, by decide⟩
    rw [htexts, List.forall_mem_cons, List.forall_mem_singleton]
    refine ⟨⟨by simp [isSpace], ?_⟩, by simp [isSpace], ?_⟩
    · rintro arg ⟨⟩
      rfl
    · rintro arg ⟨⟩
      rfl
  have hkeys : ∀ k ∈ iKeys, (validate (fileWith "15")).1.iface k = [] ∨
      (validate (fileWith "15")).1.iface k = "<b 0xc0ff> <r 8>".toList := by
    decide
  intro k hk hne
  rcases hkeys k hk with h | h
  · exact absurd h hne
  · rw [h]
    exact hplain

/-- A padding that is too long is accepted by the configurator, and the proxy does not start
with it. -/
theorem not_startsAsWritten_longPadding :
    (validate (fileWith "1353")).2 = [] ∧
      ¬StartsAsWritten zeroConfig (validate (fileWith "1353")).1.iface := by
  have haccept : (validate (fileWith "1353")).2 = [] := by decide +kernel
  refine ⟨haccept, ?_⟩
  rintro ⟨-, ⟨c, hread, hok⟩, -⟩
  obtain ⟨-, h1, h2, h3, h4, -, -, -, -, rfl⟩ :=
    (readConfig_eq_some_iff (checked_of_validate haccept)).mp hread
  have hle : digitsVal ((validate (fileWith "1353")).1.iface .s1) ≤ 1352 :=
    Int.ofNat_le.mp ((configValidate_eq_ok_iff _).mp hok).2.s1_mem.2
  exact absurd hle (by decide)

end Configurator

end AwgProxy
