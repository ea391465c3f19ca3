import AwgProxy.Base64
import AwgProxy.HeaderText
import AwgProxy.ShareLink
import Mathlib.Data.List.Chain
import Mathlib.Data.List.FinRange

/-!
# The Generated Fallback Chain

The configurator draws an obfuscation profile at one of four levels, and below it a chain of
stages at the older ones, which the proxy probes in their order. Every stage has to be one the
proxy accepts, and the stages are to differ in the length of their inits, so that a packet only
ever matches one.

The draws of a stage are listed by what they are for (`ObfDraws`): the generator asks for a new
random number each time, so they are independent of one another.

* `accepts_generateObfLevel_iff` — which draws give a stage the proxy accepts.
* `s1_apart_of_generateObfLevel` — a stage is kept apart from the one before it.
* `chainOk_iff` — which draws give a chain of accepted stages that are all apart.
-/

namespace AwgProxy

open Text

/-! ### The code -/

namespace Configurator

/-- `randomInt`, with what it draws. -/
def randomInt (min max : ℕ) (arr : UInt32) : ℕ :=
  min + arr.toNat % (max - min + 1)

/-- A range of headers, `{ min, max }`. -/
structure JsRange where
  min : ℕ
  max : ℕ
  deriving DecidableEq

/-- `randomHRange`, with the draws of the base and of the width. -/
def randomHRange (draw : UInt32 × UInt32) : JsRange :=
  let base := draw.1.toNat
  let width := randomInt 8 64 draw.2
  let base := if base > 4294967295 - width then base - width else base
  ⟨base, base + width⟩

/-- `hRangesOverlap`. -/
def hRangesOverlap (a b : JsRange) : Bool :=
  a.min ≤ b.max && b.min ≤ a.max

/-- The four ranges of one attempt. -/
def drawRanges (draws : Fin 4 → UInt32 × UInt32) : List JsRange :=
  List.ofFn fun i => randomHRange (draws i)

/-- No two of the ranges overlap. -/
def RangesApart (rs : List JsRange) : Prop :=
  rs.Pairwise fun a b => hRangesOverlap a b = false

instance : DecidablePred RangesApart := fun rs => by unfold RangesApart; infer_instance

/-- The loop of `disjointHRanges`, with the number of attempts left behind this one. -/
def rangesLoop (draws : ℕ → Fin 4 → UInt32 × UInt32) : ℕ → ℕ → List JsRange
  | 0, attempt => drawRanges (draws attempt)
  | n + 1, attempt =>
      let rs := drawRanges (draws attempt)
      if RangesApart rs then rs else rangesLoop draws n (attempt + 1)

/-- The text of a range. -/
def rangeText (r : JsRange) : List Char :=
  decimal r.min ++ '-' :: decimal r.max

/-- `disjointHRanges`. -/
def disjointHRanges (draws : ℕ → Fin 4 → UInt32 × UInt32) : List (List Char) :=
  (rangesLoop draws 99 0).map rangeText

/-- The draws of one template. -/
structure CpsDraws where
  nbytes : UInt32
  bytes : ℕ → UInt32
  tail : UInt32

/-- `generateCPSTemplate`. -/
def generateCPSTemplate (d : CpsDraws) : List Char :=
  let hex := (List.range (randomInt 2 6 d.nbytes)).flatMap fun i =>
    let b := Nat.toDigits 16 (randomInt 0 255 (d.bytes i))
    (if b.length < 2 then ['0'] else []) ++ b
  "<b 0x".toList ++ hex ++ "><r ".toList ++ decimal (randomInt 4 16 d.tail) ++ ">".toList

/-- The draws of one stage. -/
structure ObfDraws where
  /-- Those of the loop for `s1`; the draws of a loop that has not ended are all of them. -/
  s1 : List UInt32
  s2 : UInt32
  /-- Those of each attempt at four ranges. -/
  ranges : ℕ → Fin 4 → UInt32 × UInt32
  s3 : UInt32
  /-- The four headers of a level without ranges. -/
  h : Fin 4 → UInt32
  s4 : UInt32
  key : Fin 32 → UInt8
  ncps : UInt32
  cps : ℕ → CpsDraws

/-- What `generateObfLevel` returns. The headers and the key are those of the environment the
proxy is started with: a missing key is the empty text. -/
structure ObfLevel where
  level : ProtoLevel
  s1 : ℕ
  s2 : ℕ
  s3 : ℕ
  s4 : ℕ
  h1 : List Char
  h2 : List Char
  h3 : List Char
  h4 : List Char
  hpKey : List Char
  cps : Option (List (List Char))

/-- The smallest padding `generateObfLevel` draws. -/
def padMin (level : ProtoLevel) : ℕ :=
  if level = .v3 then 20 else 15

/-- The loop for `s1`: the first draw that is not too near to the value to avoid. -/
def drawS1 (level : ProtoLevel) (avoidS1 : ℕ) (draws : List UInt32) : Option ℕ :=
  (draws.map (randomInt (padMin level) 150)).find? fun s1 =>
    ¬ (avoidS1 ≠ 0 ∧ |(s1 : ℤ) - avoidS1| < 5)

/-- `generateObfLevel`, `none` while the loop for `s1` has not ended. -/
def generateObfLevel (level : ProtoLevel) (avoidS1 : ℕ) (d : ObfDraws) : Option ObfLevel := do
  let s1 ← drawS1 level avoidS1 d.s1
  let s2 := randomInt (padMin level) 150 d.s2
  let ranged := level = .v3 ∨ level = .v2
  let h := if ranged then disjointHRanges d.ranges
    else List.ofFn fun i => decimal (d.h i).toNat
  some {
    level := level, s1 := s1, s2 := s2
    s3 := if ranged then randomInt 20 100 d.s3 else 0
    s4 := if level = .v3 then randomInt 12 16 d.s4 else 0
    h1 := h.getD 0 [], h2 := h.getD 1 [], h3 := h.getD 2 [], h4 := h.getD 3 []
    hpKey := if level = .v3 then btoa (List.ofFn d.key) else []
    cps := if level = .v3 ∨ level = .v15 then
      some ((List.range (randomInt 1 3 d.ncps)).map fun i => generateCPSTemplate (d.cps i))
      else none }

/-- The draws of a chain: those of its stages, and those of the junk and of the ports. -/
structure ChainDraws where
  stage : ℕ → ObfDraws
  jc : UInt32
  jmin : UInt32
  jmax : UInt32
  port : UInt32
  wgListenPort : UInt32

/-- What `generateAWGParams` returns. -/
structure AwgParams extends ObfLevel where
  jc : ℕ
  jmin : ℕ
  jmax : ℕ
  chain : List ObfLevel
  port : ℕ
  wgListenPort : ℕ

/-- `generateAWGParams`. -/
def generateAWGParams (level : ProtoLevel) (d : ChainDraws) : Option AwgParams := do
  let o ← generateObfLevel level 0 (d.stage 0)
  some { o with
    jc := randomInt 3 8 d.jc, jmin := randomInt 50 250 d.jmin, jmax := randomInt 500 1000 d.jmax
    chain := []
    port := randomInt 10000 60000 d.port
    wgListenPort := randomInt 10000 60000 d.wgListenPort }

/-- The loop of `attachFallbackChain` over the levels that are left, behind a chain of `n`
stages. -/
def attachLoop (d : ℕ → ObfDraws) : List ProtoLevel → ℕ → ℕ → Option (List ObfLevel)
  | [], _, _ => some []
  | level :: levels, prevS1, n =>
      if n < 3 then do
        let st ← generateObfLevel level prevS1 (d (n + 1))
        let sts ← attachLoop d levels st.s1 (n + 1)
        some (st :: sts)
      else some []

/-- `attachFallbackChain`. -/
def attachFallbackChain (d : ChainDraws) (ap : AwgParams) : Option AwgParams := do
  let chain ← attachLoop d.stage (protoLevels.drop (protoLevels.idxOf ap.level + 1)) ap.s1 0
  some { ap with chain := chain }

/-- `generateChainParams`, with the level and the compatibility box of the form. -/
def generateChainParams (level : ProtoLevel) (compat : Bool) (d : ChainDraws) :
    Option AwgParams := do
  let ap ← generateAWGParams level d
  if compat then attachFallbackChain d ap else some ap

/-- The stages of a chain, the primary first. -/
def AwgParams.stages (ap : AwgParams) : List ObfLevel :=
  ap.toObfLevel :: ap.chain

/-! ### What the chain is to be -/

/-- The proxy reads the stage as this profile. Header protection is on exactly with a key. -/
structure ReadsAs (o : ObfLevel) (pr : AwgProfile) : Prop where
  s1 : pr.s1 = o.s1
  s2 : pr.s2 = o.s2
  s3 : pr.s3 = o.s3
  s4 : pr.s4 = o.s4
  h1 : parseHrange o.h1 = some pr.h1
  h2 : parseHrange o.h2 = some pr.h2
  h3 : parseHrange o.h3 = some pr.h3
  h4 : parseHrange o.h4 = some pr.h4
  hpOn : pr.hpOn = true ↔ o.hpKey ≠ []

/-- The proxy reads the stage and accepts it. -/
def Accepts (o : ObfLevel) : Prop :=
  ∃ pr, ReadsAs o pr ∧ configValidateProfile pr = .ok ()

/-- The stages of a chain are accepted and kept apart: an init of one never has the length
another expects. -/
structure ChainOk (ap : AwgParams) : Prop where
  accepted : ∀ o ∈ ap.stages, Accepts o
  apart : ap.stages.Pairwise fun o o' => 5 ≤ |(o.s1 : ℤ) - o'.s1|
  lengths : ap.stages.Pairwise fun o o' => ∀ pr pr', ReadsAs o pr → ReadsAs o' pr' →
    (configComputeProfile pr).initTotal ≠ (configComputeProfile pr').initTotal

/-- The headers drawn for a stage do not overlap: with ranges, in one of a hundred attempts. -/
def HeadersApart (level : ProtoLevel) (d : ObfDraws) : Prop :=
  if level = .v3 ∨ level = .v2 then ∃ attempt < 100, RangesApart (drawRanges (d.ranges attempt))
  else Function.Injective d.h

/-- The `s1` of each stage, by the draws that end the loops. -/
def drawnS1 (d : ℕ → ObfDraws) : List ProtoLevel → ℕ → ℕ → Option (List ℕ)
  | [], _, _ => some []
  | level :: levels, avoidS1, n => do
      let s1 ← drawS1 level avoidS1 (d n).s1
      let rest ← drawnS1 d levels s1 (n + 1)
      some (s1 :: rest)

/-- The levels of the stages of a chain: all from the first on, or the first alone. -/
def chainLevels (level : ProtoLevel) (compat : Bool) : List ProtoLevel :=
  if compat then protoLevels.drop (protoLevels.idxOf level) else [level]

/-- The draws give headers that do not overlap to each stage, and paddings that are apart to
stages that are no neighbours. -/
structure DrawsApart (level : ProtoLevel) (compat : Bool) (d : ChainDraws) : Prop where
  headers : ∀ n l, (chainLevels level compat)[n]? = some l → HeadersApart l (d.stage n)
  s1 : ∀ vs, drawnS1 d.stage (chainLevels level compat) 0 0 = some vs → ∀ (i j v w : ℕ),
    i + 2 ≤ j → vs[i]? = some v → vs[j]? = some w → 5 ≤ |(v : ℤ) - w|

/-! ### Single draws -/

theorem randomInt_mem {min max : ℕ} (h : min ≤ max) (arr : UInt32) :
    min ≤ randomInt min max arr ∧ randomInt min max arr ≤ max := by
  have := Nat.mod_lt arr.toNat (show 0 < max - min + 1 by omega)
  rw [randomInt]
  omega

/-- A drawn range fits in 32 bits. -/
theorem randomHRange_mem (draw : UInt32 × UInt32) :
    (randomHRange draw).min ≤ (randomHRange draw).max ∧ (randomHRange draw).max < 2 ^ 32 := by
  have hbase := draw.1.toNat_lt
  have hwidth := randomInt_mem (by decide : 8 ≤ 64) draw.2
  rw [randomHRange]
  dsimp only
  split <;> omega

/-- The draw that ends the loop for `s1`. -/
theorem of_drawS1_eq_some {level : ProtoLevel} {avoidS1 s1 : ℕ} {draws : List UInt32}
    (h : drawS1 level avoidS1 draws = some s1) :
    padMin level ≤ s1 ∧ s1 ≤ 150 ∧ (avoidS1 ≠ 0 → 5 ≤ |(s1 : ℤ) - avoidS1|) := by
  have hfar := List.find?_some h
  obtain ⟨arr, -, rfl⟩ := List.mem_map.mp (List.mem_of_find?_eq_some h)
  have hmem := randomInt_mem (show padMin level ≤ 150 by rw [padMin]; split <;> omega) arr
  refine ⟨hmem.1, hmem.2, fun hne => ?_⟩
  by_contra hnear
  simp only [decide_eq_true_eq] at hfar
  exact hfar ⟨hne, not_le.mp hnear⟩

/-! ### The headers -/

/-- The loop ends with ranges that are apart, if one of its attempts draws such. -/
theorem exists_rangesLoop (draws : ℕ → Fin 4 → UInt32 × UInt32) (n attempt : ℕ) :
    ∃ k, rangesLoop draws n attempt = drawRanges (draws k) ∧
      (RangesApart (drawRanges (draws k)) ↔
        ∃ b, attempt ≤ b ∧ b ≤ attempt + n ∧ RangesApart (drawRanges (draws b))) := by
  induction n generalizing attempt with
  | zero =>
      refine ⟨attempt, rfl, fun h => ⟨attempt, le_rfl, le_rfl, h⟩, ?_⟩
      rintro ⟨b, hle, hge, h⟩
      obtain rfl : b = attempt := le_antisymm hge hle
      exact h
  | succ n ih =>
      rw [rangesLoop]
      by_cases hrs : RangesApart (drawRanges (draws attempt))
      · exact ⟨attempt, if_pos hrs, iff_of_true hrs ⟨attempt, le_rfl, by omega, hrs⟩⟩
      · obtain ⟨k, hk, hiff⟩ := ih (attempt + 1)
        refine ⟨k, (if_neg hrs).trans hk, hiff.trans ?_⟩
        constructor
        · rintro ⟨b, hle, hge, h⟩
          exact ⟨b, by omega, by omega, h⟩
        · rintro ⟨b, hle, hge, h⟩
          have hne : b ≠ attempt := fun heq => hrs (heq ▸ h)
          exact ⟨b, by omega, by omega, h⟩

/-- A range as the proxy has it. -/
def JsRange.toHRange (r : JsRange) (h : r.min ≤ r.max ∧ r.max < 2 ^ 32) : HRange where
  min := .ofNat r.min
  max := .ofNat r.max
  le := by
    rw [UInt32.le_iff_toNat_le, UInt32.toNat_ofNat_of_lt' (by omega : r.min < 2 ^ 32),
      UInt32.toNat_ofNat_of_lt' h.2]
    exact h.1

theorem parseUint32_decimal {n : ℕ} (hn : n < 2 ^ 32) : parseUint32 (decimal n) = .ofNat n := by
  rw [← UInt32.toNat_inj, toNat_parseUint32_of_digits fun c hc => isDigit_of_mem_decimal c hc,
    digitsVal_decimal, Nat.mod_eq_of_lt hn, UInt32.toNat_ofNat_of_lt' hn]

/-- Ten digits are enough. -/
theorem length_decimal_lt {n : ℕ} (hn : n < 2 ^ 32) : (decimal n).length < 32 := by
  have hten : (decimal n).length ≤ 10 :=
    (Nat.length_toDigits_le_iff (by omega) (by omega)).mpr (by omega)
  omega

/-- The proxy reads a range as it is drawn. -/
theorem parseHrange_rangeText (r : JsRange) (h : r.min ≤ r.max ∧ r.max < 2 ^ 32) :
    parseHrange (rangeText r) = some (r.toHRange h) := by
  have hmin : r.min < 2 ^ 32 := by omega
  have hhead : (rangeText r).takeWhile (· ≠ '-') = decimal r.min :=
    takeWhile_digits_dash fun c hc => isDigit_of_mem_decimal c hc
  have hdrop : (rangeText r).drop ((decimal r.min).length + 1) = decimal r.max := by
    simp [rangeText]
  have hlen : (decimal r.min).length ≠ (rangeText r).length := by simp [rangeText]
  have hle : parseUint32 (decimal r.min) ≤ parseUint32 (decimal r.max) := by
    rw [parseUint32_decimal hmin, parseUint32_decimal h.2]
    exact (r.toHRange h).le
  rw [parseHrange, hhead, hdrop]
  dsimp only
  rw [if_neg hlen, if_neg (not_le.mpr (length_decimal_lt hmin)), dif_pos hle]
  simp only [JsRange.toHRange, parseUint32_decimal hmin, parseUint32_decimal h.2]

/-- And one number as a range of its own. -/
theorem parseHrange_decimal (v : UInt32) :
    parseHrange (decimal v.toNat) = some (.single v) := by
  have hhead : (decimal v.toNat).takeWhile (· ≠ '-') = decimal v.toNat := by
    refine List.takeWhile_eq_self_iff.mpr fun c hc => ?_
    have hdigit := isDigit_of_mem_decimal c hc
    rw [decide_eq_true_eq]
    rintro rfl
    cases hdigit
  rw [parseHrange, hhead]
  dsimp only
  rw [if_pos rfl, parseUint32_decimal v.toNat_lt, UInt32.ofNat_toNat]

/-- The proxy and the generator agree on what overlaps. -/
theorem hrangeOverlaps_toHRange {r s : JsRange} (hr : r.min ≤ r.max ∧ r.max < 2 ^ 32)
    (hs : s.min ≤ s.max ∧ s.max < 2 ^ 32) :
    hrangeOverlaps (r.toHRange hr) (s.toHRange hs) = hRangesOverlap r s := by
  have hmin : ∀ {t : JsRange}, t.min ≤ t.max ∧ t.max < 2 ^ 32 →
      (UInt32.ofNat t.min).toNat = t.min :=
    fun ht => UInt32.toNat_ofNat_of_lt' (lt_of_le_of_lt ht.1 ht.2)
  rw [hrangeOverlaps, hRangesOverlap]
  simp only [JsRange.toHRange, UInt32.le_iff_toNat_le, hmin hr, hmin hs,
    UInt32.toNat_ofNat_of_lt' hr.2, UInt32.toNat_ofNat_of_lt' hs.2]

theorem hrangeOverlaps_single {v w : UInt32} :
    hrangeOverlaps (.single v) (.single w) = false ↔ v ≠ w := by
  simp only [hrangeOverlaps, HRange.single, Bool.and_eq_false_iff, decide_eq_false_iff_not,
    UInt32.le_iff_toNat_le, ne_eq, ← UInt32.toNat_inj]
  omega

/-! ### One stage -/

/-- A stage within the bounds of the proxy is accepted when its headers, as they are read, do
not overlap. -/
theorem accepts_iff {o : ObfLevel} {r1 r2 r3 r4 : HRange}
    (h1 : parseHrange o.h1 = some r1) (h2 : parseHrange o.h2 = some r2)
    (h3 : parseHrange o.h3 = some r3) (h4 : parseHrange o.h4 = some r4)
    (hs : o.s1 ≤ 150 ∧ o.s2 ≤ 150 ∧ o.s3 ≤ 100 ∧ o.s4 ≤ 16)
    (hkey : o.hpKey ≠ [] → 12 ≤ o.s1 ∧ 12 ≤ o.s2 ∧ 12 ≤ o.s3 ∧ 12 ≤ o.s4) :
    Accepts o ↔ [r1, r2, r3, r4].Pairwise fun a b => hrangeOverlaps a b = false := by
  have hpairs : ([r1, r2, r3, r4].Pairwise fun a b => hrangeOverlaps a b = false) ↔
      (hrangeOverlaps r1 r2 = false ∧ hrangeOverlaps r1 r3 = false ∧
        hrangeOverlaps r1 r4 = false) ∧
      (hrangeOverlaps r2 r3 = false ∧ hrangeOverlaps r2 r4 = false) ∧
        hrangeOverlaps r3 r4 = false := by
    simp
  rw [hpairs]
  constructor
  · rintro ⟨pr, hread, hok⟩
    have hv := (configValidateProfile_eq_ok_iff pr).mp hok
    obtain rfl := Option.some.inj (h1.symm.trans hread.h1)
    obtain rfl := Option.some.inj (h2.symm.trans hread.h2)
    obtain rfl := Option.some.inj (h3.symm.trans hread.h3)
    obtain rfl := Option.some.inj (h4.symm.trans hread.h4)
    exact ⟨⟨hv.h12, hv.h13, hv.h14⟩, ⟨hv.h23, hv.h24⟩, hv.h34⟩
  · rintro ⟨⟨h12, h13, h14⟩, ⟨h23, h24⟩, h34⟩
    refine ⟨{ plainProfile.toAwgProfile with
      s1 := o.s1, s2 := o.s2, s3 := o.s3, s4 := o.s4, h1 := r1, h2 := r2, h3 := r3, h4 := r4
      hpOn := decide (o.hpKey ≠ []) }, ⟨rfl, rfl, rfl, rfl, h1, h2, h3, h4, by simp⟩, ?_⟩
    rw [configValidateProfile_eq_ok_iff]
    obtain ⟨b1, b2, b3, b4⟩ := hs
    refine ⟨?_, ?_, ?_, ?_, fun hon => ?_, h12, h13, h14, h23, h24, h34⟩
    · dsimp only
      omega
    · dsimp only
      omega
    · dsimp only
      omega
    · dsimp only
      omega
    · obtain ⟨k1, k2, k3, k4⟩ := hkey (of_decide_eq_true hon)
      dsimp only
      omega

/-- The parts of a stage that do not depend on the loop for `s1`. -/
theorem of_generateObfLevel {level : ProtoLevel} {avoidS1 : ℕ} {d : ObfDraws} {o : ObfLevel}
    (h : generateObfLevel level avoidS1 d = some o) :
    drawS1 level avoidS1 d.s1 = some o.s1 ∧ o.level = level ∧ o.s2 ≤ 150 ∧ o.s3 ≤ 100 ∧
      o.s4 ≤ 16 ∧ (o.hpKey ≠ [] → 20 ≤ o.s1 ∧ 20 ≤ o.s2 ∧ 20 ≤ o.s3 ∧ 12 ≤ o.s4) ∧
      [o.h1, o.h2, o.h3, o.h4] = if level = .v3 ∨ level = .v2 then disjointHRanges d.ranges
        else List.ofFn fun i => decimal (d.h i).toNat := by
  obtain ⟨s1, hs1, ho⟩ := Option.bind_eq_some_iff.mp h
  obtain rfl := Option.some.inj ho
  have hpad : padMin level ≤ 150 := by
    rw [padMin]
    split <;> omega
  have h2 := randomInt_mem hpad d.s2
  have h3 := randomInt_mem (by decide : 20 ≤ 100) d.s3
  have h4 := randomInt_mem (by decide : 12 ≤ 16) d.s4
  obtain ⟨hmin, -, -⟩ := of_drawS1_eq_some hs1
  refine ⟨hs1, rfl, h2.2, ?_, ?_, fun hkey => ?_, ?_⟩
  · dsimp only
    split <;> omega
  · dsimp only
    split <;> omega
  · cases level with
    | v3 => exact ⟨hmin, h2.1, h3.1, h4.1⟩
    | v2 => exact absurd rfl hkey
    | v15 => exact absurd rfl hkey
    | v1 => exact absurd rfl hkey
  · dsimp only
    split
    · obtain ⟨k, hk, -⟩ := exists_rangesLoop d.ranges 99 0
      rw [disjointHRanges, hk, drawRanges]
      simp [List.ofFn_succ]
    · simp [List.ofFn_succ]

/-- **A stage the proxy accepts** is drawn exactly when its headers are apart. -/
theorem accepts_generateObfLevel_iff {level : ProtoLevel} {avoidS1 : ℕ} {d : ObfDraws}
    {o : ObfLevel} (h : generateObfLevel level avoidS1 d = some o) :
    Accepts o ↔ HeadersApart level d := by
  obtain ⟨hs1, -, h2, h3, h4, hkey, hh⟩ := of_generateObfLevel h
  have hs : o.s1 ≤ 150 ∧ o.s2 ≤ 150 ∧ o.s3 ≤ 100 ∧ o.s4 ≤ 16 :=
    ⟨(of_drawS1_eq_some hs1).2.1, h2, h3, h4⟩
  have hkey' : o.hpKey ≠ [] → 12 ≤ o.s1 ∧ 12 ≤ o.s2 ∧ 12 ≤ o.s3 ∧ 12 ≤ o.s4 := by
    intro hne
    obtain ⟨k1, k2, k3, k4⟩ := hkey hne
    exact ⟨by omega, by omega, by omega, k4⟩
  rw [HeadersApart]
  split at hh
  · obtain ⟨k, hk, hiff⟩ := exists_rangesLoop d.ranges 99 0
    rw [disjointHRanges, hk, drawRanges] at hh
    simp only [List.ofFn_succ, List.ofFn_zero, List.map_cons, List.map_nil, List.cons.injEq,
      and_true] at hh
    obtain ⟨e1, e2, e3, e4⟩ := hh
    have hread : ∀ i, parseHrange (rangeText (randomHRange (d.ranges k i))) =
        some (JsRange.toHRange _ (randomHRange_mem _)) := fun i => parseHrange_rangeText _ _
    rename_i hlevel
    rw [if_pos hlevel, accepts_iff (e1 ▸ hread _) (e2 ▸ hread _) (e3 ▸ hread _) (e4 ▸ hread _)
      hs hkey']
    have hsame : (∃ attempt < 100, RangesApart (drawRanges (d.ranges attempt))) ↔
        RangesApart (drawRanges (d.ranges k)) := by
      rw [hiff]
      constructor
      · rintro ⟨a, ha, hap⟩
        exact ⟨a, Nat.zero_le a, by omega, hap⟩
      · rintro ⟨a, -, ha, hap⟩
        exact ⟨a, by omega, hap⟩
    rw [hsame, RangesApart, drawRanges]
    simp [List.ofFn_succ, hrangeOverlaps_toHRange]
  · simp only [List.ofFn_succ, List.ofFn_zero, List.cons.injEq, and_true] at hh
    obtain ⟨e1, e2, e3, e4⟩ := hh
    rename_i hlevel
    rw [if_neg hlevel, accepts_iff (e1 ▸ parseHrange_decimal _) (e2 ▸ parseHrange_decimal _)
      (e3 ▸ parseHrange_decimal _) (e4 ▸ parseHrange_decimal _) hs hkey']
    rw [← List.nodup_ofFn]
    simp [List.ofFn_succ, hrangeOverlaps_single]

/-- **A stage is kept apart** from the one before it. -/
theorem s1_apart_of_generateObfLevel {level : ProtoLevel} {avoidS1 : ℕ} {d : ObfDraws}
    {o : ObfLevel} (h : generateObfLevel level avoidS1 d = some o) (hne : avoidS1 ≠ 0) :
    5 ≤ |(avoidS1 : ℤ) - o.s1| := by
  rw [abs_sub_comm]
  exact (of_drawS1_eq_some (of_generateObfLevel h).1).2.2 hne

/-! ### The chain -/

/-- The stages of a chain, behind one with `s1` of `prev`: each of its own draws, each apart
from the one before it. -/
theorem attachLoop_spec {d : ℕ → ObfDraws} {levels : List ProtoLevel} {prev n : ℕ}
    {sts : List ObfLevel} (h : attachLoop d levels prev n = some sts) (hprev : prev ≠ 0)
    (hlen : levels.length + n ≤ 3) :
    drawnS1 d levels prev (n + 1) = some (sts.map ObfLevel.s1) ∧
      List.IsChain (fun v w : ℕ => 5 ≤ |(v : ℤ) - w|) (prev :: sts.map ObfLevel.s1) ∧
      sts.length = levels.length ∧
      ∀ k l o, levels[k]? = some l → sts[k]? = some o →
        ∃ avoidS1, generateObfLevel l avoidS1 (d (n + 1 + k)) = some o := by
  induction levels generalizing prev n sts with
  | nil =>
      obtain rfl := Option.some.inj h
      exact ⟨rfl, List.isChain_singleton prev, rfl, fun k l o hl => by cases hl⟩
  | cons l levels ih =>
      rw [List.length_cons] at hlen
      rw [attachLoop, if_pos (by omega)] at h
      obtain ⟨st, hst, h⟩ := Option.bind_eq_some_iff.mp h
      obtain ⟨sts', hsts, h⟩ := Option.bind_eq_some_iff.mp h
      obtain rfl := Option.some.inj h
      have hs1 := (of_generateObfLevel hst).1
      have hpos : st.s1 ≠ 0 := by
        have := (of_drawS1_eq_some hs1).1
        rw [padMin] at this
        split at this <;> omega
      obtain ⟨hdrawn, hchain, hlength, hall⟩ := ih hsts hpos (by omega)
      refine ⟨?_, ?_, ?_, fun k l' o hl ho => ?_⟩
      · rw [drawnS1, hs1, List.map_cons]
        simp [hdrawn]
      · rw [List.map_cons]
        exact List.isChain_cons_cons.mpr ⟨s1_apart_of_generateObfLevel hst hprev, hchain⟩
      · rw [List.length_cons, List.length_cons, hlength]
      · cases k with
        | zero =>
            obtain rfl := Option.some.inj hl
            obtain rfl := Option.some.inj ho
            exact ⟨prev, hst⟩
        | succ k =>
            obtain ⟨avoid, hgen⟩ := hall k l' o hl ho
            refine ⟨avoid, ?_⟩
            rw [show n + 1 + (k + 1) = n + 1 + 1 + k by omega]
            exact hgen

/-- The primary stage, whose draws no value is avoided in. -/
theorem of_generateAWGParams {level : ProtoLevel} {d : ChainDraws} {ap : AwgParams}
    (h : generateAWGParams level d = some ap) :
    generateObfLevel level 0 (d.stage 0) = some ap.toObfLevel ∧
      drawS1 level 0 (d.stage 0).s1 = some ap.s1 ∧ ap.s1 ≠ 0 ∧ ap.level = level ∧
      ap.chain = [] := by
  obtain ⟨o, ho, hap⟩ := Option.bind_eq_some_iff.mp h
  obtain rfl := Option.some.inj hap
  obtain ⟨hs1, hlevel, -⟩ := of_generateObfLevel ho
  have hmin := (of_drawS1_eq_some hs1).1
  refine ⟨ho, hs1, fun hzero => ?_, hlevel, rfl⟩
  dsimp only at hzero
  rw [hzero, padMin] at hmin
  split at hmin <;> omega

/-- The stages of a generated chain. -/
theorem generateChainParams_spec {level : ProtoLevel} {compat : Bool} {d : ChainDraws}
    {ap : AwgParams} (h : generateChainParams level compat d = some ap) :
    drawnS1 d.stage (chainLevels level compat) 0 0 = some (ap.stages.map ObfLevel.s1) ∧
      List.IsChain (fun v w : ℕ => 5 ≤ |(v : ℤ) - w|) (ap.stages.map ObfLevel.s1) ∧
      ap.stages.length = (chainLevels level compat).length ∧
      ∀ k l o, (chainLevels level compat)[k]? = some l → ap.stages[k]? = some o →
        ∃ avoidS1, generateObfLevel l avoidS1 (d.stage k) = some o := by
  obtain ⟨ap₀, hprimary, hattach⟩ := Option.bind_eq_some_iff.mp h
  obtain ⟨ho, hs1, hpos, hlevel, hnone⟩ := of_generateAWGParams hprimary
  cases compat with
  | false =>
      obtain rfl := Option.some.inj hattach
      have hstages : ap₀.stages = [ap₀.toObfLevel] := by rw [AwgParams.stages, hnone]
      rw [hstages]
      refine ⟨?_, List.isChain_singleton _, rfl, fun k l o hl ho' => ?_⟩
      · rw [chainLevels, if_neg Bool.false_ne_true, drawnS1, hs1]
        rfl
      · obtain ⟨hk, rfl⟩ := List.getElem?_eq_some_iff.mp ho'
        obtain rfl : k = 0 := Nat.lt_one_iff.mp hk
        obtain rfl := Option.some.inj hl
        exact ⟨0, ho⟩
  | true =>
      obtain ⟨chain, hchain, hap⟩ := Option.bind_eq_some_iff.mp hattach
      obtain rfl := Option.some.inj hap
      have hlevels : chainLevels level true =
          level :: protoLevels.drop (protoLevels.idxOf level + 1) := by
        cases level <;> rfl
      have hlen : (protoLevels.drop (protoLevels.idxOf level + 1)).length + 0 ≤ 3 := by
        cases level <;> decide
      rw [hlevel] at hchain
      obtain ⟨hdrawn, hapart, hlength, hall⟩ := attachLoop_spec hchain hpos hlen
      rw [hlevels]
      refine ⟨?_, hapart, ?_, fun k l o' hl ho' => ?_⟩
      · rw [drawnS1, hs1]
        simp [hdrawn, AwgParams.stages]
      · exact congrArg (· + 1) hlength
      · cases k with
        | zero =>
            obtain rfl := Option.some.inj hl
            obtain rfl := Option.some.inj ho'
            exact ⟨0, ho⟩
        | succ k =>
            obtain ⟨avoid, hgen⟩ := hall k l o' hl ho'
            refine ⟨avoid, ?_⟩
            rw [show k + 1 = 0 + 1 + k by omega]
            exact hgen

/-- Inits of stages that are apart differ in length. -/
theorem initTotal_ne_of_apart {o o' : ObfLevel} (h : 5 ≤ |(o.s1 : ℤ) - o'.s1|)
    {pr pr' : AwgProfile} (hpr : ReadsAs o pr) (hpr' : ReadsAs o' pr') :
    (configComputeProfile pr).initTotal ≠ (configComputeProfile pr').initTotal := by
  intro heq
  have hs : pr.s1 + wgInitSize = pr'.s1 + wgInitSize := heq
  rw [hpr.s1, hpr'.s1] at hs
  have hsame : (o.s1 : ℤ) = o'.s1 := by omega
  rw [hsame, sub_self, abs_zero] at h
  exact absurd h (by decide)

/-- **Which draws give a chain of accepted stages that are all apart.** -/
theorem chainOk_iff {level : ProtoLevel} {compat : Bool} {d : ChainDraws} {ap : AwgParams}
    (h : generateChainParams level compat d = some ap) :
    ChainOk ap ↔ DrawsApart level compat d := by
  obtain ⟨hdrawn, hchain, hlength, hall⟩ := generateChainParams_spec h
  constructor
  · intro hok
    refine ⟨fun n l hl => ?_, fun vs hvs i j v w hij hv hw => ?_⟩
    · have hn : n < ap.stages.length := by
        rw [hlength]
        exact (List.getElem?_eq_some_iff.mp hl).1
      obtain ⟨avoid, hgen⟩ := hall n l _ hl (List.getElem?_eq_getElem hn)
      exact (accepts_generateObfLevel_iff hgen).mp (hok.accepted _ (List.getElem_mem hn))
    · obtain rfl := Option.some.inj (hdrawn.symm.trans hvs)
      have hpairs : (ap.stages.map ObfLevel.s1).Pairwise fun v w : ℕ => 5 ≤ |(v : ℤ) - w| :=
        List.pairwise_map.mpr hok.apart
      obtain ⟨hi, rfl⟩ := List.getElem?_eq_some_iff.mp hv
      obtain ⟨hj, rfl⟩ := List.getElem?_eq_some_iff.mp hw
      exact List.pairwise_iff_getElem.mp hpairs i j hi hj (by omega)
  · intro hdraws
    have hapart : ap.stages.Pairwise fun o o' => 5 ≤ |(o.s1 : ℤ) - o'.s1| := by
      have hpairs : (ap.stages.map ObfLevel.s1).Pairwise fun v w : ℕ => 5 ≤ |(v : ℤ) - w| := by
        refine List.pairwise_iff_getElem.mpr fun i j hi hj hij => ?_
        rcases Nat.eq_or_lt_of_le (Nat.succ_le_of_lt hij) with rfl | hfar
        · exact List.isChain_iff_getElem.mp hchain i hj
        · exact hdraws.s1 _ hdrawn i j _ _ hfar (List.getElem?_eq_getElem hi)
            (List.getElem?_eq_getElem hj)
      exact List.pairwise_map.mp hpairs
    refine ⟨fun o ho => ?_, hapart, hapart.imp fun hfar pr pr' => initTotal_ne_of_apart hfar⟩
    obtain ⟨k, hk, rfl⟩ := List.getElem_of_mem ho
    have hk' : k < (chainLevels level compat).length := hlength ▸ hk
    obtain ⟨avoid, hgen⟩ := hall k _ _ (List.getElem?_eq_getElem hk') (List.getElem?_eq_getElem hk)
    exact (accepts_generateObfLevel_iff hgen).mpr
      (hdraws.headers k _ (List.getElem?_eq_getElem hk'))

/-- Draws with one value for `s1` in each stage, headers that are apart, and zeros. -/
def drawsOfS1 (s1 : ℕ → UInt32) : ChainDraws where
  stage := fun n =>
    { s1 := [s1 n], s2 := 0, ranges := fun _ i => (1000 * .ofNat i, 0), s3 := 0
      h := fun i => .ofNat i, s4 := 0, key := fun _ => 0, ncps := 0
      cps := fun _ => ⟨0, fun _ => 0, 0⟩ }
  jc := 0
  jmin := 0
  jmax := 0
  port := 0
  wgListenPort := 0

/-- Draws of paddings that are far apart. -/
def farDraws : ChainDraws :=
  drawsOfS1 fun n => 20 * .ofNat n

/-- Their headers are apart. -/
theorem headersApart_drawsOfS1 (s1 : ℕ → UInt32) (n : ℕ) (l : ProtoLevel) :
    HeadersApart l ((drawsOfS1 s1).stage n) := by
  rw [HeadersApart]
  split
  · have hranges : ((drawsOfS1 s1).stage n).ranges 0 = fun i => (1000 * .ofNat i, 0) := rfl
    refine ⟨0, by decide, ?_⟩
    rw [hranges]
    decide
  · have hh : ((drawsOfS1 s1).stage n).h = fun i : Fin 4 => UInt32.ofNat i := rfl
    have hinj : ∀ i j : Fin 4, UInt32.ofNat i = UInt32.ofNat j → i = j := by decide
    rw [hh]
    exact fun i j => hinj i j

/-- Four stages that are far apart. -/
theorem chainOk_iff_far :
    ∃ ap, generateChainParams .v3 true farDraws = some ap ∧ ap.stages.length = 4 ∧ ChainOk ap := by
  obtain ⟨ap, hap⟩ := Option.isSome_iff_exists.mp
    (by decide : (generateChainParams .v3 true farDraws).isSome = true)
  have hdrawn : drawnS1 farDraws.stage (chainLevels .v3 true) 0 0 = some [20, 35, 55, 75] := rfl
  have hpairs : ∀ i j : Fin ([20, 35, 55, 75] : List ℕ).length, (i : ℕ) + 2 ≤ j →
      5 ≤ |(([20, 35, 55, 75] : List ℕ).get i : ℤ) - ([20, 35, 55, 75] : List ℕ).get j| := by
    decide
  refine ⟨ap, hap, (generateChainParams_spec hap).2.2.1, (chainOk_iff hap).mpr
    ⟨fun n l _ => headersApart_drawsOfS1 _ n l, fun vs hvs i j v w hij hv hw => ?_⟩⟩
  obtain rfl := Option.some.inj (hdrawn.symm.trans hvs)
  obtain ⟨hi, rfl⟩ := List.getElem?_eq_some_iff.mp hv
  obtain ⟨hj, rfl⟩ := List.getElem?_eq_some_iff.mp hw
  exact hpairs ⟨i, hi⟩ ⟨j, hj⟩ hij

/-- The first stage and the third are drawn with the same padding. -/
def sameS1 (n : ℕ) : UInt32 :=
  [0, 20, 5, 30].getD n 0

/-- Only neighbours are kept apart: the inits of the first stage and of the third are of one
length. -/
theorem not_chainOk_sameS1 :
    ¬ ∀ ap, generateChainParams .v3 true (drawsOfS1 sameS1) = some ap → ChainOk ap := by
  intro hall
  have hs1 : (generateChainParams .v3 true (drawsOfS1 sameS1)).map
      (fun ap => ap.stages.map ObfLevel.s1) = some [20, 35, 20, 45] := rfl
  obtain ⟨ap, hap, hstages⟩ := Option.map_eq_some_iff.mp hs1
  have hpairs : (ap.stages.map ObfLevel.s1).Pairwise fun v w : ℕ => 5 ≤ |(v : ℤ) - w| :=
    List.pairwise_map.mpr (hall ap hap).apart
  rw [hstages] at hpairs
  exact absurd hpairs (by decide)

end Configurator

end AwgProxy
