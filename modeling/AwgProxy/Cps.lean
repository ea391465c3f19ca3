import AwgProxy.Config
import AwgProxy.Lib.Ecma

/-!
# Templates of I-Packets

The values `I1` to `I5` are templates: tags between angle brackets, each saying what a part
of a packet holds. The configurator checks them with trimmed strings and unbounded numbers
(`isValidCPSTemplate`), the proxy reads them with fixed buffers and field widths
(`cps_parse`).

* `cpsTag_of_valid` — which of the tags the configurator accepts the proxy reads, and what
  it stores.
* `cpsFold_eq_some_iff` — the same for the tags of a template.
* `sameTags_iff` — the proxy reads an accepted template as it is written if and only if it
  is a plain one (`PlainTemplate`).
-/

namespace AwgProxy

open Text hiding trim trim_trim exists_eq_trim

/-! ### The proxy -/

/-- `CPS_MAX_SEGMENTS`. -/
abbrev cpsMaxSegments : ℕ := 32

/-- `CPS_MAX_STATIC`. -/
abbrev cpsMaxStatic : ℕ := 1500

/-- The blanks between tags. -/
def isGap (c : Char) : Bool :=
  c = ' ' || c = '\t' || c = '\n' || c = '\r'

/-- The walk over a template that both programs make: the texts between the angle brackets.
The argument is the tag that is open, if one is. -/
def cutTagsFrom : Option (List Char) → List Char → Option (List (List Char))
  | none, [] => some []
  | some _, [] => none
  | none, c :: s =>
      if isGap c then cutTagsFrom none s
      else if c = '<' then cutTagsFrom (some []) s
      else none
  | some tag, c :: s =>
      if c = '>' then (cutTagsFrom none s).map (tag :: ·)
      else cutTagsFrom (some (tag ++ [c])) s

/-- The tags of a template, `none` where something else is in it. -/
def cutTags (s : List Char) : Option (List (List Char)) :=
  cutTagsFrom none s

/-- `hex_val`. -/
def hexVal (c : Char) : Option ℕ :=
  if c.isDigit then some (c.toNat - '0'.toNat)
  else if 'a' ≤ c ∧ c ≤ 'f' then some (c.toNat - 'a'.toNat + 10)
  else if 'A' ≤ c ∧ c ≤ 'F' then some (c.toNat - 'A'.toNat + 10)
  else none

/-- The loop over the hex digits of a static tag. -/
def hexBytes : List Char → Option Bytes
  | a :: b :: s =>
      match hexVal a, hexVal b, hexBytes s with
      | some hi, some lo, some d => some (UInt8.ofNat (16 * hi + lo) :: d)
      | _, _, _ => none
  | _ => some []

/-- The loop of `parse_int`. -/
def parseIntLoop (v : ℕ) : List Char → Option ℕ
  | [] => some v
  | c :: s =>
      if c.isDigit then
        if 100000 < v then none else parseIntLoop (10 * v + (c.toNat - '0'.toNat)) s
      else none

/-- `parse_int`. -/
def parseInt (s : List Char) : Option ℕ :=
  if s = [] then none else parseIntLoop 0 s

/-- `skip_spaces`. -/
def skipSpaces (s : List Char) : List Char :=
  s.dropWhile fun c => c = ' ' || c = '\t'

/-- A segment more. -/
def CpsTemplate.push (t : CpsTemplate) (kind : CpsKind) (size : ℕ) (data : Bytes) :
    CpsTemplate where
  segs := t.segs ++ [{
    kind := kind
    size := UInt16.ofNat size
    dataOff := UInt16.ofNat (if kind = .static then t.staticData.length else 0)
    dataLen := UInt16.ofNat data.length }]
  staticData := t.staticData ++ data

/-- The case `'b'` of `cps_parse`, behind the letter. -/
def cpsStatic (t : CpsTemplate) (arg : List Char) : Option CpsTemplate :=
  match skipSpaces arg with
  | '0' :: x :: hex =>
      if (x = 'x' ∨ x = 'X') ∧ hex ≠ [] ∧ hex.length % 2 = 0 ∧
          t.staticData.length + hex.length / 2 ≤ cpsMaxStatic then
        (hexBytes hex).map fun d => t.push .static 0 d
      else none
  | _ => none

/-- A tag with a size, behind its letters. -/
def cpsSized (t : CpsTemplate) (kind : CpsKind) (arg : List Char) : Option CpsTemplate :=
  match parseInt (skipSpaces arg) with
  | none => none
  | some size => if size = 0 then none else some (t.push kind size [])

/-- One tag in the loop of `cps_parse`. -/
def cpsTag (t : CpsTemplate) (inner : List Char) : Option CpsTemplate :=
  if cpsMaxSegments ≤ t.segs.length then none
  else
    match inner with
    | [] => none
    | 'b' :: arg => cpsStatic t arg
    | 'r' :: 'c' :: arg => cpsSized t .randomChars arg
    | 'r' :: 'd' :: arg => cpsSized t .randomDigits arg
    | 'r' :: arg => cpsSized t .random arg
    | 't' :: _ => some (t.push .timestamp 0 [])
    | 'c' :: _ => some (t.push .counter 0 [])
    | 'd' :: 'z' :: arg => cpsSized t .zeros arg
    | 'd' :: _ => some t
    | _ => none

/-- The tags of a template, one after the other. -/
def cpsFold (t : CpsTemplate) : List (List Char) → Option CpsTemplate
  | [] => some t
  | inner :: inners =>
      match cpsTag t inner with
      | none => none
      | some t' => cpsFold t' inners

/-- `cps_parse`. -/
def cpsParse (s : List Char) : Option CpsTemplate :=
  match cutTags s with
  | none => none
  | some inners =>
      match cpsFold ⟨[], []⟩ inners with
      | none => none
      | some t => if t.segs.length = 0 then none else some t

/-! ### The configurator -/

namespace Configurator

open Ecma

/-- `[0-9a-fA-F]`. -/
def isHexChar (c : Char) : Bool :=
  c.isDigit || ('a' ≤ c && c ≤ 'f') || ('A' ≤ c && c ≤ 'F')

/-- `/^[1-9]\d*$/`, the test of `isPositiveInt`. -/
def isPositiveInt : List Char → Bool
  | [] => false
  | c :: ds => c.isDigit && c ≠ '0' && allDigits ds

/-- One trimmed tag in the loop of `isValidCPSTemplate`. -/
def isValidCPSTag (tag : List Char) : Bool :=
  match tag with
  | [] => false
  | 'b' :: arg =>
      let hex := trim arg
      if hex.length < 3 ∨ (hex.take 2).map Char.toLower ≠ ['0', 'x'] then false
      else if (hex.drop 2).all isHexChar = false ∨ hex.length < 4 ∨ (hex.length - 2) % 2 ≠ 0 then
        false
      else true
  | 'r' :: 'c' :: arg => isPositiveInt (trim arg)
  | 'r' :: 'd' :: arg => isPositiveInt (trim arg)
  | 'r' :: arg => isPositiveInt (trim arg)
  | ['d'] => true
  | ['d', 's'] => true
  | 'd' :: 'z' :: arg => isPositiveInt (trim arg)
  | 't' :: _ => (trim tag).length = 1
  | 'c' :: _ => (trim tag).length = 1
  | _ => false

/-- `isValidCPSTemplate`. -/
def isValidCPSTemplate (s : List Char) : Bool :=
  if s = [] ∨ trim s = [] then false
  else
    match cutTags s with
    | none => false
    | some inners => inners.all (fun inner => isValidCPSTag (trim inner)) && 0 < inners.length

example : (isValidCPSTemplate "<b 0xc0FF><r 8> <t><dz 12>".toList,
    isValidCPSTemplate "<b 0xc0F>".toList) = (true, false) := by decide

example : (cpsParse "<b 0xc0FF><rc 8> <ds><t>".toList).map CpsTemplate.segs =
    some [⟨.static, 0, 0, 2⟩, ⟨.randomChars, 8, 0, 0⟩, ⟨.timestamp, 0, 0, 0⟩] := by decide

/-! ### What a template says -/

/-- What a tag has a packet hold: bytes, or bytes of a kind and their number. -/
structure CpsTag where
  /-- What the bytes are. -/
  kind : CpsKind
  /-- Their number, where the tag has it. -/
  size : ℕ
  /-- The bytes of a static tag. -/
  data : Bytes
  deriving DecidableEq

/-- What a trimmed tag says, `none` for `<d>` and `<ds>`, which stand for nothing. -/
def writtenTag? : List Char → Option CpsTag
  | 'b' :: arg => some ⟨.static, 0, (hexBytes ((trim arg).drop 2)).getD []⟩
  | 'r' :: 'c' :: arg => some ⟨.randomChars, digitsVal (trim arg), []⟩
  | 'r' :: 'd' :: arg => some ⟨.randomDigits, digitsVal (trim arg), []⟩
  | 'r' :: arg => some ⟨.random, digitsVal (trim arg), []⟩
  | 'd' :: 'z' :: arg => some ⟨.zeros, digitsVal (trim arg), []⟩
  | 't' :: _ => some ⟨.timestamp, 0, []⟩
  | 'c' :: _ => some ⟨.counter, 0, []⟩
  | _ => none

/-- The texts of the tags of a template. -/
def tagTexts (s : List Char) : List (List Char) :=
  (cutTags s).getD []

/-- What tags say, in order. -/
def written (inners : List (List Char)) : List CpsTag :=
  inners.filterMap fun inner => writtenTag? (trim inner)

/-- What a template says. -/
def writtenTags (s : List Char) : List CpsTag :=
  written (tagTexts s)

/-- A segment says what the tag does. -/
structure SegmentSays (static : Bytes) (tag : CpsTag) (seg : CpsSegment) : Prop where
  kind : seg.kind = tag.kind
  size : seg.size.toNat = tag.size
  data : static.slice seg.dataOff.toNat seg.dataLen.toNat = tag.data

/-- The segments of a template say what the tags do. -/
def SameTags (tags : List CpsTag) (t : CpsTemplate) : Prop :=
  List.Forall₂ (SegmentSays t.staticData) tags t.segs

/-- What stands behind the letters of a tag that has an argument. -/
def tagArg? : List Char → Option (List Char)
  | 'b' :: arg => some arg
  | 'r' :: 'c' :: arg => some arg
  | 'r' :: 'd' :: arg => some arg
  | 'r' :: arg => some arg
  | 'd' :: 'z' :: arg => some arg
  | _ => none

/-- A tag without white space, but for spaces and tabs before its argument and anything
behind a tag that has none. -/
structure PlainTag (inner : List Char) : Prop where
  /-- The first letter comes first. -/
  front : ∀ c ∈ inner.head?, isSpace c = false
  /-- Between letters and argument there are spaces and tabs only, and behind the argument
  there is nothing. -/
  arg : ∀ arg ∈ tagArg? inner, skipSpaces arg = trim arg

/-- A template of plain tags that fits the buffers of the proxy. -/
structure PlainTemplate (s : List Char) : Prop where
  /-- Its tags are plain. -/
  tags : ∀ inner ∈ tagTexts s, PlainTag inner
  /-- There is room for a segment at every tag, the last one included. -/
  room : (written (tagTexts s).dropLast).length < cpsMaxSegments
  /-- The static bytes fit. -/
  static : ((writtenTags s).map fun tag => tag.data.length).sum ≤ cpsMaxStatic
  /-- A size has 16 bits. -/
  sizes : ∀ tag ∈ writtenTags s, tag.size ≤ 65535
  /-- Some tag stands for something. -/
  ne_nil : writtenTags s ≠ []

/-! ### Arguments -/

/-- Skipping spaces trims, or leaves white space. -/
theorem skipSpaces_eq_trim_or (arg : List Char) :
    skipSpaces arg = trim arg ∨ ∃ c ∈ skipSpaces arg, isSpace c = true := by
  by_cases hspace : ∃ c ∈ skipSpaces arg, isSpace c = true
  · exact Or.inr hspace
  · refine Or.inl ?_
    simp only [not_exists, not_and, Bool.not_eq_true] at hspace
    have hself : trim (skipSpaces arg) = skipSpaces arg :=
      Text.trim_eq_self_iff.mpr ⟨fun x hx => hspace x (List.mem_of_mem_head? hx),
        fun x hx => hspace x (List.mem_of_mem_getLast? hx)⟩
    have hskip : ∀ x ∈ arg.takeWhile (fun c => c = ' ' || c = '\t'), isSpace x = true := by
      intro x hx
      have h := List.mem_takeWhile_imp hx
      simp only [Bool.or_eq_true, decide_eq_true_eq] at h
      rcases h with rfl | rfl <;> rfl
    have happ := Text.trim_append (s := skipSpaces arg) (b := []) hskip (by simp)
    rw [List.append_nil, skipSpaces, List.takeWhile_append_dropWhile] at happ
    rw [← hself]
    exact happ.symm

theorem digits_of_isPositiveInt {s : List Char} (h : isPositiveInt s = true) :
    s ≠ [] ∧ (∀ c ∈ s, c.isDigit = true) ∧ digitsVal s ≠ 0 := by
  cases s with
  | nil => cases h
  | cons c ds =>
      simp only [isPositiveInt, Bool.and_eq_true, decide_eq_true_eq, allDigits_iff] at h
      obtain ⟨⟨hc, hzero⟩, hds⟩ := h
      refine ⟨by simp, by simpa using ⟨hc, hds⟩, ?_⟩
      have hbound : 48 ≤ c.toNat ∧ c.toNat ≤ 57 := Char.isDigit_iff_toNat.mp hc
      have hne : c.toNat ≠ 48 := fun heq => hzero (Char.toNat_inj.mp heq)
      have hle := le_ofDigitChars ds (10 * 0 + (c.toNat - '0'.toNat))
      have hval : '0'.toNat = 48 := rfl
      rw [digitsVal, Nat.ofDigitChars_cons]
      omega

theorem parseIntLoop_digits {ds : List Char} (hds : ∀ c ∈ ds, c.isDigit = true) {v : ℕ}
    (hv : v ≤ 1000009) :
    parseIntLoop v ds =
      if Nat.ofDigitChars 10 ds v ≤ 1000009 then some (Nat.ofDigitChars 10 ds v) else none := by
  induction ds generalizing v with
  | nil => simp [parseIntLoop, hv]
  | cons c ds ih =>
      have hc : c.isDigit = true := hds c (by simp)
      have hbound : 48 ≤ c.toNat ∧ c.toNat ≤ 57 := Char.isDigit_iff_toNat.mp hc
      have hval : '0'.toNat = 48 := rfl
      rw [parseIntLoop, if_pos hc, Nat.ofDigitChars_cons]
      by_cases hbig : 100000 < v
      · have hle := le_ofDigitChars ds (10 * v + (c.toNat - '0'.toNat))
        rw [if_pos hbig, if_neg (by omega)]
      · rw [if_neg hbig, ih (fun d hd => hds d (by simp [hd])) (by omega)]

/-- `parse_int` reads numbers up to 1000009. -/
theorem parseInt_of_isPositiveInt {s : List Char} (h : isPositiveInt s = true) :
    parseInt s = if digitsVal s ≤ 1000009 then some (digitsVal s) else none := by
  obtain ⟨hne, hds, -⟩ := digits_of_isPositiveInt h
  rw [parseInt, if_neg hne, parseIntLoop_digits hds (by omega), ← digitsVal]

theorem parseIntLoop_of_space {s : List Char} (h : ∃ c ∈ s, isSpace c = true) (v : ℕ) :
    parseIntLoop v s = none := by
  induction s generalizing v with
  | nil => simp at h
  | cons c s ih =>
      rw [parseIntLoop]
      by_cases hc : c.isDigit = true
      · have htail : ∃ d ∈ s, isSpace d = true := by
          obtain ⟨d, hd, hspace⟩ := h
          rcases List.mem_cons.mp hd with rfl | hd
          · rw [isSpace_of_isDigit hc] at hspace
            cases hspace
          · exact ⟨d, hd, hspace⟩
        simp [ih htail]
      · rw [if_neg hc]

theorem parseInt_of_space {s : List Char} (h : ∃ c ∈ s, isSpace c = true) : parseInt s = none := by
  rw [parseInt, parseIntLoop_of_space h, ite_self]

/-- Hex digits in the sense of both programs. -/
theorem hexVal_isSome {c : Char} : (hexVal c).isSome = isHexChar c := by
  unfold hexVal isHexChar
  split_ifs with h₁ h₂ h₃
  · simp [h₁]
  · simp [h₂]
  · simp [h₃]
  · simp_all

/-- White space is no hex digit. -/
theorem isHexChar_of_isSpace {c : Char} (h : isSpace c = true) : isHexChar c = false := by
  have hnot : c.isDigit = false := by
    by_contra hc
    rw [isSpace_of_isDigit (Bool.not_eq_false _ ▸ hc)] at h
    cases h
  have hle : ∀ a b : Char, (a ≤ b) = (a.toNat ≤ b.toNat) := fun _ _ => propext Char.le_def
  have hconst : 'a'.toNat = 97 ∧ 'f'.toNat = 102 ∧ 'A'.toNat = 65 ∧ 'F'.toNat = 70 :=
    ⟨rfl, rfl, rfl, rfl⟩
  unfold isSpace at h
  simp only [isHexChar, hnot, Bool.false_or, hle, hconst]
  generalize c.toNat = n at h ⊢
  simp only [Bool.or_eq_true, Bool.and_eq_true, decide_eq_true_eq, beq_iff_eq] at h
  simp only [Bool.or_eq_false_iff, Bool.and_eq_false_iff, decide_eq_false_iff_not]
  omega

/-- Hex digits are read two at a time. -/
theorem hexBytes_of_hexChars : ∀ {hex : List Char}, (∀ c ∈ hex, isHexChar c = true) →
    ∃ d, hexBytes hex = some d ∧ d.length = hex.length / 2
  | [], _ => ⟨[], rfl, rfl⟩
  | [_], _ => ⟨[], rfl, by simp⟩
  | a :: b :: s, h => by
      have htail : ∀ c ∈ s, isHexChar c = true := fun c hc => h c (by simp [hc])
      obtain ⟨d, hd, hlen⟩ := hexBytes_of_hexChars htail
      obtain ⟨hi, hhi⟩ := Option.isSome_iff_exists.mp (hexVal_isSome.trans (h a (by simp)))
      obtain ⟨lo, hlo⟩ := Option.isSome_iff_exists.mp (hexVal_isSome.trans (h b (by simp)))
      refine ⟨UInt8.ofNat (16 * hi + lo) :: d, by simp [hexBytes, hhi, hlo, hd], ?_⟩
      simp only [List.length_cons]
      omega

/-- White space among hex digits is noticed. -/
theorem hexBytes_of_space : ∀ {hex : List Char}, (∃ c ∈ hex, isSpace c = true) →
    hex.length % 2 = 0 → hexBytes hex = none
  | [], h, _ => by simp at h
  | [_], _, hlen => by simp at hlen
  | a :: b :: s, h, hlen => by
      obtain ⟨c, hc, hspace⟩ := h
      have hnone : hexVal c = none := by
        have hsome := hexVal_isSome (c := c)
        rw [isHexChar_of_isSpace hspace] at hsome
        exact Option.isNone_iff_eq_none.mp (by simpa using hsome)
      simp only [List.mem_cons] at hc
      rcases hc with rfl | rfl | hc
      · simp [hexBytes, hnone]
      · simp [hexBytes, hnone]
      · have htail := hexBytes_of_space ⟨c, hc, hspace⟩ (by simp at hlen; omega)
        simp [hexBytes, htail]

/-- What `cpsSized` does with a plain argument. -/
theorem cpsSized_of_plain {t : CpsTemplate} {kind : CpsKind} {arg : List Char}
    (harg : skipSpaces arg = trim arg) (hpos : isPositiveInt (trim arg) = true) :
    cpsSized t kind arg =
      if digitsVal (trim arg) ≤ 1000009 then some (t.push kind (digitsVal (trim arg)) [])
      else none := by
  obtain ⟨-, -, hne⟩ := digits_of_isPositiveInt hpos
  rw [cpsSized, harg, parseInt_of_isPositiveInt hpos]
  by_cases hle : digitsVal (trim arg) ≤ 1000009
  · simp [hle, hne]
  · simp [hle]

theorem cpsSized_of_space {t : CpsTemplate} {kind : CpsKind} {arg : List Char}
    (harg : ∃ c ∈ skipSpaces arg, isSpace c = true) : cpsSized t kind arg = none := by
  rw [cpsSized, parseInt_of_space harg]

/-- The trimmed argument of a static tag. -/
structure HexText (h hex : List Char) : Prop where
  eq : ∃ x, h = '0' :: x :: hex ∧ (x = 'x' ∨ x = 'X')
  ne_nil : hex ≠ []
  even : hex.length % 2 = 0
  chars : ∀ c ∈ hex, isHexChar c = true

theorem cpsStatic_of_plain {t : CpsTemplate} {arg hex : List Char}
    (harg : skipSpaces arg = trim arg) (hhex : HexText (trim arg) hex) :
    cpsStatic t arg =
      if t.staticData.length + ((hexBytes hex).getD []).length ≤ cpsMaxStatic then
        some (t.push .static 0 ((hexBytes hex).getD []))
      else none := by
  obtain ⟨x, heq, hx⟩ := hhex.eq
  obtain ⟨d, hd, hlen⟩ := hexBytes_of_hexChars hhex.chars
  simp [cpsStatic, harg, heq, hd, hlen, hx, hhex.even, hhex.ne_nil]

theorem cpsStatic_of_space {t : CpsTemplate} {arg : List Char}
    (harg : ∃ c ∈ skipSpaces arg, isSpace c = true) : cpsStatic t arg = none := by
  unfold cpsStatic
  split
  next x hex heq =>
    split_ifs with hcond
    · obtain ⟨hx, -, heven, -⟩ := hcond
      have htail : ∃ c ∈ hex, isSpace c = true := by
        obtain ⟨c, hc, hspace⟩ := harg
        rw [heq] at hc
        simp only [List.mem_cons] at hc
        rcases hc with rfl | rfl | hc
        · cases hspace
        · rcases hx with rfl | rfl <;> cases hspace
        · exact ⟨c, hc, hspace⟩
      rw [hexBytes_of_space htail heven]
      rfl
    · rfl
  next => rfl

/-! ### One tag -/

/-- The tags with a size: the text, what it fills and the argument. -/
inductive SizedTag : List Char → CpsKind → List Char → Prop
  | chars (arg : List Char) : SizedTag ('r' :: 'c' :: arg) .randomChars arg
  | digits (arg : List Char) : SizedTag ('r' :: 'd' :: arg) .randomDigits arg
  | random (c : Char) (arg : List Char) (hc : c ≠ 'c' ∧ c ≠ 'd') :
      SizedTag ('r' :: c :: arg) .random (c :: arg)
  | zeros (arg : List Char) : SizedTag ('d' :: 'z' :: arg) .zeros arg

namespace SizedTag

variable {tag arg : List Char} {kind : CpsKind}

theorem append (h : SizedTag tag kind arg) (y : List Char) :
    SizedTag (tag ++ y) kind (arg ++ y) := by
  cases h with
  | chars => exact .chars (arg ++ y)
  | digits => exact .digits (arg ++ y)
  | random c arg hc => exact .random c (arg ++ y) hc
  | zeros => exact .zeros (arg ++ y)

theorem tagArg?_eq (h : SizedTag tag kind arg) : tagArg? tag = some arg := by
  cases h with
  | random c arg hc => simp [tagArg?, hc.1, hc.2]
  | _ => rfl

theorem writtenTag?_eq (h : SizedTag tag kind arg) :
    writtenTag? tag = some ⟨kind, digitsVal (trim arg), []⟩ := by
  cases h with
  | random c arg hc => simp [writtenTag?, hc.1, hc.2]
  | _ => rfl

theorem cpsTag_eq (h : SizedTag tag kind arg) {t : CpsTemplate}
    (ht : t.segs.length < cpsMaxSegments) : cpsTag t tag = cpsSized t kind arg := by
  unfold cpsTag
  rw [if_neg (Nat.not_le.mpr ht)]
  cases h with
  | random c arg hc => simp [hc.1, hc.2]
  | _ => rfl

end SizedTag

/-- `0x` in lower case. -/
theorem eq_of_toLower_zero {c : Char} (h : c.toLower = '0') : c = '0' := by
  have hnat := toNat_toLower c
  have hzero : '0'.toNat = 48 := rfl
  rw [h, hzero] at hnat
  refine Char.toNat_inj.mp ?_
  split at hnat <;> omega

theorem eq_of_toLower_x {c : Char} (h : c.toLower = 'x') : c = 'x' ∨ c = 'X' := by
  have hnat := toNat_toLower c
  have hx : 'x'.toNat = 120 ∧ 'X'.toNat = 88 := ⟨rfl, rfl⟩
  rw [h, hx.1] at hnat
  rw [← Char.toNat_inj, ← Char.toNat_inj, hx.1, hx.2]
  split at hnat <;> omega

/-- The tags the configurator accepts. -/
theorem isValidCPSTag_cases {tag : List Char} (h : isValidCPSTag tag = true) :
    (∃ arg hex, tag = 'b' :: arg ∧ HexText (trim arg) hex) ∨
      (∃ kind arg, SizedTag tag kind arg ∧ isPositiveInt (trim arg) = true) ∨
      tag = ['d'] ∨ tag = ['d', 's'] ∨ (∃ r, tag = 't' :: r ∧ (trim tag).length = 1) ∨
      ∃ r, tag = 'c' :: r ∧ (trim tag).length = 1 := by
  unfold isValidCPSTag at h
  split at h
  next => cases h
  next arg =>
    refine Or.inl ⟨arg, (trim arg).drop 2, rfl, ?_⟩
    simp only at h
    split_ifs at h with hhead hhex
    simp only [not_or, not_lt, ne_eq, Decidable.not_not, Bool.not_eq_false, List.all_eq_true]
      at hhead hhex
    obtain ⟨hlen, hlower⟩ := hhead
    obtain ⟨hchars, hlen', heven⟩ := hhex
    generalize trim arg = t at *
    match t, hlen' with
    | a :: x :: hex, hlen' =>
        simp only [List.take_succ_cons, List.take_zero, List.map_cons, List.map_nil,
          List.cons.injEq, and_true] at hlower
        obtain rfl := eq_of_toLower_zero hlower.1
        simp only [List.length_cons] at hlen' heven
        simp only [List.drop_succ_cons, List.drop_zero] at hchars
        refine ⟨⟨x, rfl, eq_of_toLower_x hlower.2⟩, ?_, by simpa using heven, hchars⟩
        rintro rfl
        simp at hlen'
    | [_], hlen' => simp at hlen'
    | [], hlen' => simp at hlen'
  next arg => exact Or.inr (Or.inl ⟨_, arg, .chars arg, h⟩)
  next arg => exact Or.inr (Or.inl ⟨_, arg, .digits arg, h⟩)
  next arg hc hd =>
    cases arg with
    | nil => cases h
    | cons c arg =>
        exact Or.inr (Or.inl ⟨_, c :: arg, .random c arg ⟨by rintro rfl; exact hc _ rfl,
          by rintro rfl; exact hd _ rfl⟩, h⟩)
  next => exact Or.inr (Or.inr (Or.inl rfl))
  next => exact Or.inr (Or.inr (Or.inr (Or.inl rfl)))
  next arg => exact Or.inr (Or.inl ⟨_, arg, .zeros arg, h⟩)
  next r => exact Or.inr (Or.inr (Or.inr (Or.inr (Or.inl ⟨r, rfl, of_decide_eq_true h⟩))))
  next r => exact Or.inr (Or.inr (Or.inr (Or.inr (Or.inr ⟨r, rfl, of_decide_eq_true h⟩))))
  next => cases h

/-- A tag that starts with white space is not read. -/
theorem cpsTag_of_space {t : CpsTemplate} {c : Char} {r : List Char} (hc : isSpace c = true) :
    cpsTag t (c :: r) = none := by
  have hne : c ≠ 'b' ∧ c ≠ 'r' ∧ c ≠ 't' ∧ c ≠ 'c' ∧ c ≠ 'd' := by
    refine ⟨?_, ?_, ?_, ?_, ?_⟩ <;> rintro rfl <;> cases hc
  obtain ⟨hb, hr, ht, hc', hd⟩ := hne
  simp [cpsTag, hb, hr, ht, hc', hd]

/-- What the proxy stores for a tag. -/
def storeTag (t : CpsTemplate) : Option CpsTag → Option CpsTemplate
  | none => some t
  | some tag =>
      if tag.size ≤ 1000009 ∧ t.staticData.length + tag.data.length ≤ cpsMaxStatic then
        some (t.push tag.kind tag.size tag.data)
      else none

/-- What stands behind the trimmed tag is no part of its argument. -/
theorem trim_append_right {arg y : List Char} (hy : ∀ c ∈ y, isSpace c = true) :
    trim (arg ++ y) = trim arg :=
  Text.trim_append (a := []) (by simp) hy

/-- A tag with an argument is plain if its argument is. -/
theorem plainTag_iff {inner arg : List Char} (hfront : ∀ c ∈ inner.head?, isSpace c = false)
    (harg : tagArg? inner = some arg) : PlainTag inner ↔ skipSpaces arg = trim arg := by
  refine ⟨fun h => h.arg arg harg, fun h => ⟨hfront, fun a ha => ?_⟩⟩
  rw [harg, Option.mem_some_iff] at ha
  rw [← ha, h]

/-- A tag with an argument, whatever the case of `cps_parse` makes of it. -/
theorem readArg {inner arg : List Char} {o p : Option CpsTemplate}
    (hfront : ∀ c ∈ inner.head?, isSpace c = false) (harg : tagArg? inner = some arg)
    (hplain : skipSpaces arg = trim arg → o = p)
    (hspace : (∃ c ∈ skipSpaces arg, isSpace c = true) → o = none) :
    (PlainTag inner → o = p) ∧ (¬PlainTag inner → o = none) := by
  rw [plainTag_iff hfront harg]
  refine ⟨hplain, fun hne => hspace ?_⟩
  rcases skipSpaces_eq_trim_or arg with h | h
  · exact absurd h hne
  · exact h

/-- A tag without an argument is plain. -/
theorem plainTag_of_none {inner : List Char} (hfront : ∀ c ∈ inner.head?, isSpace c = false)
    (harg : tagArg? inner = none) : PlainTag inner :=
  ⟨hfront, fun _ ha => by simp [harg] at ha⟩

/-- Behind `<d` stands no `z` when it is white space. -/
theorem d_append {y : List Char} (hy : ∀ c ∈ y, isSpace c = true) (t : CpsTemplate)
    (ht : t.segs.length < cpsMaxSegments) :
    tagArg? ('d' :: y) = none ∧ cpsTag t ('d' :: y) = some t := by
  have hz : ∀ arg, y ≠ 'z' :: arg := by
    rintro arg rfl
    cases hy 'z' (by simp)
  unfold cpsTag
  rw [if_neg (Nat.not_le.mpr ht)]
  cases y with
  | nil => exact ⟨rfl, rfl⟩
  | cons c y =>
      have hc : c ≠ 'z' := fun heq => hz y (by rw [heq])
      simp [tagArg?, hc]

/-- **One tag.** The proxy reads a tag the configurator accepts as it is written, where
there is room for it, if and only if it is plain. -/
theorem cpsTag_of_valid {t : CpsTemplate} {inner : List Char}
    (hvalid : isValidCPSTag (trim inner) = true) (ht : t.segs.length < cpsMaxSegments)
    (hstatic : t.staticData.length ≤ cpsMaxStatic) :
    (PlainTag inner → cpsTag t inner = storeTag t (writtenTag? (trim inner))) ∧
      (¬PlainTag inner → cpsTag t inner = none) := by
  obtain ⟨x, y, hx, hy, hinner⟩ := exists_eq_trim inner
  cases x with
  | cons c x =>
      have hc : isSpace c = true := hx c (by simp)
      have hnone : cpsTag t inner = none := by
        rw [hinner]
        exact cpsTag_of_space hc
      refine ⟨fun hplain => ?_, fun _ => hnone⟩
      have hfront := hplain.front c (by rw [hinner]; simp)
      rw [hc] at hfront
      cases hfront
  | nil =>
      rw [List.nil_append] at hinner
      generalize htag : trim inner = tag at hvalid hinner ⊢
      subst hinner
      have hfull := Nat.not_le.mpr ht
      rcases isValidCPSTag_cases hvalid with ⟨arg, hex, rfl, hhex⟩ | ⟨kind, arg, hsized, hpos⟩ |
        rfl | rfl | ⟨r, rfl, -⟩ | ⟨r, rfl, -⟩
      · -- bytes
        have hread : cpsTag t ('b' :: arg ++ y) = cpsStatic t (arg ++ y) := by
          simp [cpsTag, hfull]
        have hhex' : HexText (trim (arg ++ y)) hex := (trim_append_right hy).symm ▸ hhex
        obtain ⟨z, heq, -⟩ := hhex.eq
        have hletters : tagArg? ('b' :: arg ++ y) = some (arg ++ y) := rfl
        rw [hread]
        refine readArg (by simp [show isSpace 'b' = false from rfl]) hletters (fun harg => ?_)
          cpsStatic_of_space
        rw [cpsStatic_of_plain harg hhex']
        simp [writtenTag?, storeTag, heq]
      · -- a size
        have hsized' := hsized.append y
        have hfront : ∀ c ∈ (tag ++ y).head?, isSpace c = false := by
          cases hsized <;>
            simp [show isSpace 'r' = false from rfl, show isSpace 'd' = false from rfl]
        have hpos' : isPositiveInt (trim (arg ++ y)) = true := (trim_append_right hy).symm ▸ hpos
        rw [hsized'.cpsTag_eq ht]
        refine readArg hfront hsized'.tagArg?_eq (fun harg => ?_) cpsSized_of_space
        rw [cpsSized_of_plain harg hpos', trim_append_right hy]
        simp [hsized.writtenTag?_eq, storeTag, hstatic]
      · -- nothing
        obtain ⟨harg, hread⟩ := d_append hy t ht
        have hplain : PlainTag (['d'] ++ y) :=
          plainTag_of_none (by simp [show isSpace 'd' = false from rfl]) harg
        exact ⟨fun _ => hread, fun hnot => absurd hplain hnot⟩
      · have hplain : PlainTag (['d', 's'] ++ y) :=
          plainTag_of_none (by simp [show isSpace 'd' = false from rfl]) rfl
        refine ⟨fun _ => ?_, fun hnot => absurd hplain hnot⟩
        simp [cpsTag, hfull, writtenTag?, storeTag]
      · -- four bytes
        have hplain : PlainTag ('t' :: r ++ y) :=
          plainTag_of_none (by simp [show isSpace 't' = false from rfl]) rfl
        refine ⟨fun _ => ?_, fun hnot => absurd hplain hnot⟩
        simp [cpsTag, hfull, writtenTag?, storeTag, hstatic]
      · have hplain : PlainTag ('c' :: r ++ y) :=
          plainTag_of_none (by simp [show isSpace 'c' = false from rfl]) rfl
        refine ⟨fun _ => ?_, fun hnot => absurd hplain hnot⟩
        simp [cpsTag, hfull, writtenTag?, storeTag, hstatic]

/-! ### All tags -/

/-- The template with what a tag says stored in it. -/
def pushTag (t : CpsTemplate) (tag : CpsTag) : CpsTemplate :=
  t.push tag.kind tag.size tag.data

theorem length_segs_foldl (tags : List CpsTag) (t : CpsTemplate) :
    (tags.foldl pushTag t).segs.length = t.segs.length + tags.length := by
  induction tags generalizing t with
  | nil => rfl
  | cons tag tags ih =>
      simp only [List.foldl_cons, ih, List.length_cons]
      simp [pushTag, CpsTemplate.push]
      omega

theorem written_cons (inner : List Char) (inners : List (List Char)) :
    written (inner :: inners) = (writtenTag? (trim inner)).toList ++ written inners := by
  unfold written
  cases h : writtenTag? (trim inner) with
  | none => simp [h]
  | some tag => simp [h]

/-- The number of static bytes. -/
def staticLength (tags : List CpsTag) : ℕ :=
  (tags.map fun tag => tag.data.length).sum

/-- There is room at every tag if there is at the first, and at every one behind it. -/
theorem room_cons {inner : List Char} {inners : List (List Char)} {n : ℕ} :
    (inner :: inners ≠ [] → n + (written (inner :: inners).dropLast).length < cpsMaxSegments) ↔
      n < cpsMaxSegments ∧
        (inners ≠ [] → n + (writtenTag? (trim inner)).toList.length +
          (written inners.dropLast).length < cpsMaxSegments) := by
  cases inners with
  | nil => simp [written]
  | cons a as =>
      simp only [ne_eq, reduceCtorEq, not_false_eq_true, forall_const, List.dropLast_cons_cons,
        written_cons, List.length_append]
      omega

/-- **The tags of a template.** The proxy reads the tags the configurator accepts if and
only if they are plain, there is room for every one of them, the static bytes fit and the
sizes are not too large for `parse_int`; it stores what they say. -/
theorem cpsFold_eq_some_iff {inners : List (List Char)}
    (hvalid : ∀ inner ∈ inners, isValidCPSTag (trim inner) = true) {t t' : CpsTemplate}
    (hstatic : t.staticData.length ≤ cpsMaxStatic) :
    cpsFold t inners = some t' ↔
      (∀ inner ∈ inners, PlainTag inner) ∧
        (inners ≠ [] → t.segs.length + (written inners.dropLast).length < cpsMaxSegments) ∧
        t.staticData.length + staticLength (written inners) ≤ cpsMaxStatic ∧
        (∀ tag ∈ written inners, tag.size ≤ 1000009) ∧
        t' = (written inners).foldl pushTag t := by
  induction inners generalizing t with
  | nil => simp [cpsFold, written, staticLength, hstatic, eq_comm]
  | cons inner inners ih =>
      have hvalids : ∀ i ∈ inners, isValidCPSTag (trim i) = true :=
        fun i hi => hvalid i (by simp [hi])
      rw [room_cons, written_cons, cpsFold]
      by_cases ht : t.segs.length < cpsMaxSegments
      swap
      · simp [cpsTag, Nat.not_lt.mp ht, ht]
      obtain ⟨hplain, hnot⟩ := cpsTag_of_valid (hvalid inner (by simp)) ht hstatic
      by_cases hp : PlainTag inner
      swap
      · simp [hnot hp, hp]
      rw [hplain hp]
      cases hw : writtenTag? (trim inner) with
      | none => simp [storeTag, ih hvalids hstatic, hp, ht]
      | some tag =>
          by_cases hfit : tag.size ≤ 1000009 ∧ t.staticData.length + tag.data.length ≤ cpsMaxStatic
          · have hpush : (pushTag t tag).staticData.length =
                t.staticData.length + tag.data.length := by
              simp [pushTag, CpsTemplate.push]
            have hsegs : (pushTag t tag).segs.length = t.segs.length + 1 := by
              simp [pushTag, CpsTemplate.push]
            have hih := @ih hvalids (pushTag t tag) (hpush ▸ hfit.2)
            rw [hpush, hsegs] at hih
            simp only [storeTag, if_pos hfit]
            rw [show t.push tag.kind tag.size tag.data = pushTag t tag from rfl, hih]
            simp [hp, ht, staticLength, hfit.1, Nat.add_assoc]
          · simp only [storeTag, if_neg hfit, reduceCtorEq, false_iff]
            rintro ⟨-, -, hlen, hsize, -⟩
            have hsize' := hsize tag (by simp)
            simp only [staticLength, Option.toList_some, List.singleton_append, List.map_cons,
              List.sum_cons] at hlen
            exact hfit ⟨hsize', by omega⟩

/-! ### What is stored -/

/-- The segment of a tag, behind `n` static bytes. -/
def tagSegment (n : ℕ) (tag : CpsTag) : CpsSegment where
  kind := tag.kind
  size := UInt16.ofNat tag.size
  dataOff := UInt16.ofNat (if tag.kind = .static then n else 0)
  dataLen := UInt16.ofNat tag.data.length

/-- The segments of tags, behind `n` static bytes. -/
def tagSegments : ℕ → List CpsTag → List CpsSegment
  | _, [] => []
  | n, tag :: tags => tagSegment n tag :: tagSegments (n + tag.data.length) tags

theorem foldl_pushTag (tags : List CpsTag) (t : CpsTemplate) :
    tags.foldl pushTag t =
      ⟨t.segs ++ tagSegments t.staticData.length tags,
        t.staticData ++ tags.flatMap CpsTag.data⟩ := by
  induction tags generalizing t with
  | nil => simp [tagSegments]
  | cons tag tags ih =>
      rw [List.foldl_cons, ih]
      simp [pushTag, CpsTemplate.push, tagSegments, tagSegment]

/-- The segment of a tag says what the tag does, if its size has 16 bits. -/
theorem segmentSays_tagSegment {tag : CpsTag} {pre post : Bytes} (hsize : tag.size ≤ 65535)
    (hlen : pre.length + tag.data.length ≤ cpsMaxStatic)
    (hdata : tag.kind ≠ .static → tag.data = []) :
    SegmentSays (pre ++ (tag.data ++ post)) tag (tagSegment pre.length tag) := by
  have hmax : cpsMaxStatic = 1500 := rfl
  have hword : ∀ n ≤ 65535, (UInt16.ofNat n).toNat = n :=
    fun n hn => UInt16.toNat_ofNat_of_lt' (by simp only [UInt16.size]; omega)
  refine ⟨rfl, hword _ hsize, ?_⟩
  have hdl := hword tag.data.length (by omega)
  by_cases hkind : tag.kind = .static
  · simp only [tagSegment, if_pos hkind, hdl, hword pre.length (by omega)]
    simp [Bytes.slice]
  · simp only [tagSegment, hdl]
    simp [hdata hkind]

/-- The segments of tags say what the tags do. -/
theorem sameTags_tagSegments {tags : List CpsTag} {pre : Bytes}
    (hsize : ∀ tag ∈ tags, tag.size ≤ 65535)
    (hlen : pre.length + staticLength tags ≤ cpsMaxStatic)
    (hdata : ∀ tag ∈ tags, tag.kind ≠ .static → tag.data = []) :
    List.Forall₂ (SegmentSays (pre ++ tags.flatMap CpsTag.data)) tags
      (tagSegments pre.length tags) := by
  induction tags generalizing pre with
  | nil => exact .nil
  | cons tag tags ih =>
      simp only [staticLength, List.map_cons, List.sum_cons] at hlen
      have hhead : SegmentSays (pre ++ (tag.data ++ tags.flatMap CpsTag.data)) tag
          (tagSegment pre.length tag) :=
        segmentSays_tagSegment (hsize tag (by simp)) (by omega) (hdata tag (by simp))
      have htail := @ih (pre ++ tag.data) (fun t ht => hsize t (by simp [ht]))
        (by simp only [List.length_append, staticLength]; omega)
        fun t ht => hdata t (by simp [ht])
      rw [List.length_append, List.append_assoc] at htail
      exact .cons hhead htail

/-- Only a static tag has bytes. -/
theorem data_of_writtenTag? {tag : List Char} {w : CpsTag} (h : writtenTag? tag = some w)
    (hkind : w.kind ≠ .static) : w.data = [] := by
  unfold writtenTag? at h
  split at h <;> cases h
  · exact absurd rfl hkind
  all_goals rfl

theorem data_of_mem_written {inners : List (List Char)} {w : CpsTag} (h : w ∈ written inners)
    (hkind : w.kind ≠ .static) : w.data = [] := by
  obtain ⟨inner, -, hw⟩ := List.mem_filterMap.mp h
  exact data_of_writtenTag? hw hkind

/-- A segment has 16 bits for a size. -/
theorem size_le_of_sameTags {tags : List CpsTag} {t : CpsTemplate} (h : SameTags tags t) :
    ∀ tag ∈ tags, tag.size ≤ 65535 := by
  unfold SameTags at h
  generalize t.segs = segs at h
  induction h with
  | nil => simp
  | @cons tag seg tags segs hhead _ ih =>
      intro w hw
      rcases List.mem_cons.mp hw with rfl | hw
      · have hlt := seg.size.toNat_lt
        rw [hhead.size] at hlt
        omega
      · exact ih w hw

/-! ### The template -/

/-- What an accepted template consists of. -/
theorem isValidCPSTemplate_cases {s : List Char} (h : isValidCPSTemplate s = true) :
    cutTags s = some (tagTexts s) ∧ tagTexts s ≠ [] ∧
      ∀ inner ∈ tagTexts s, isValidCPSTag (trim inner) = true := by
  unfold isValidCPSTemplate at h
  split_ifs at h
  split at h
  next => cases h
  next inners hcut =>
    have htexts : tagTexts s = inners := by simp [tagTexts, hcut]
    simp only [Bool.and_eq_true, List.all_eq_true, decide_eq_true_eq] at h
    rw [htexts]
    exact ⟨hcut, List.length_pos_iff.mp h.2, h.1⟩

/-- Everything in a template is a blank, a bracket or part of a tag. -/
theorem mem_of_cutTagsFrom {s : List Char} {tag? : Option (List Char)} {inners : List (List Char)}
    (h : cutTagsFrom tag? s = some inners) :
    ∀ c ∈ tag?.getD [] ++ s, isGap c = true ∨ c = '<' ∨ c = '>' ∨ ∃ inner ∈ inners, c ∈ inner := by
  induction s generalizing tag? inners with
  | nil =>
      cases tag? with
      | none => simp
      | some tag => cases h
  | cons d s ih =>
      intro c hc
      cases tag? with
      | none =>
          simp only [cutTagsFrom] at h
          simp only [Option.getD_none, List.nil_append, List.mem_cons] at hc
          split_ifs at h with hgap hopen
          · rcases hc with rfl | hc
            · exact Or.inl hgap
            · exact ih h c (by simpa using hc)
          · rcases hc with rfl | hc
            · exact Or.inr (Or.inl hopen)
            · exact ih h c (by simpa using hc)
      | some tag =>
          simp only [cutTagsFrom] at h
          simp only [Option.getD_some, List.mem_append, List.mem_cons] at hc
          split_ifs at h with hclose
          · obtain ⟨inners', hs, rfl⟩ := Option.map_eq_some_iff.mp h
            rcases hc with hc | rfl | hc
            · exact Or.inr (Or.inr (Or.inr ⟨tag, by simp, hc⟩))
            · exact Or.inr (Or.inr (Or.inl hclose))
            · rcases ih hs c (by simpa using hc) with h | h | h | ⟨inner, hinner, hmem⟩
              · exact Or.inl h
              · exact Or.inr (Or.inl h)
              · exact Or.inr (Or.inr (Or.inl h))
              · exact Or.inr (Or.inr (Or.inr ⟨inner, by simp [hinner], hmem⟩))
          · refine ih h c ?_
            simp only [Option.getD_some, List.mem_append, List.mem_cons]
            rcases hc with hc | rfl | hc
            · exact Or.inl (Or.inl hc)
            · exact Or.inl (Or.inr (Or.inl rfl))
            · exact Or.inr hc

/-- There is no NUL in a tag. -/
theorem nul_notMem_of_isValidCPSTag {tag : List Char} (h : isValidCPSTag tag = true) :
    '\x00' ∉ tag := by
  have hspace : isSpace '\x00' = false := rfl
  -- a letter and a NUL are not one character
  have hone : ∀ c r, c ≠ '\x00' → isSpace c = false → (trim (c :: r)).length = 1 →
      '\x00' ∉ c :: r := by
    intro c r hc hcs hlen hnul
    obtain ⟨d, hd⟩ := List.length_eq_one_iff.mp hlen
    have hfst := mem_trim (s := c :: r) hcs (by simp)
    have hsnd := mem_trim hspace hnul
    rw [hd, List.mem_singleton] at hfst hsnd
    exact hc (hfst.trans hsnd.symm)
  rcases isValidCPSTag_cases h with ⟨arg, hex, rfl, hhex⟩ | ⟨kind, arg, hsized, hpos⟩ |
    rfl | rfl | ⟨r, rfl, hlen⟩ | ⟨r, rfl, hlen⟩
  · intro hnul
    have hmem : '\x00' ∈ trim arg := mem_trim hspace (by simpa using hnul)
    obtain ⟨x, heq, hx⟩ := hhex.eq
    rw [heq] at hmem
    simp only [List.mem_cons] at hmem
    rcases hmem with hmem | rfl | hmem
    · cases hmem
    · rcases hx with hx | hx <;> cases hx
    · cases hhex.chars _ hmem
  · intro hnul
    have hmem : '\x00' ∈ arg := by
      cases hsized <;> simpa using hnul
    obtain ⟨-, hdigits, -⟩ := digits_of_isPositiveInt hpos
    cases hdigits _ (mem_trim hspace hmem)
  · simp
  · simp
  · exact hone 't' r (by simp) rfl hlen
  · exact hone 'c' r (by simp) rfl hlen

/-- A template is a C string. -/
theorem cString_of_isValidCPSTemplate {s : List Char} (h : isValidCPSTemplate s = true) :
    cString s = s := by
  obtain ⟨hcut, -, hvalid⟩ := isValidCPSTemplate_cases h
  refine cString_eq_self fun hnul => ?_
  rcases mem_of_cutTagsFrom hcut _ (by simpa using hnul) with h | h | h | ⟨inner, hinner, hmem⟩
  · cases h
  · cases h
  · cases h
  · exact nul_notMem_of_isValidCPSTag (hvalid inner hinner) (mem_trim rfl hmem)

/-- **A template is read as it is written if and only if it is plain.** -/
theorem sameTags_iff {s : List Char} (h : isValidCPSTemplate s = true) :
    (∃ t, cpsParse s = some t ∧ SameTags (writtenTags s) t) ↔ PlainTemplate s := by
  obtain ⟨hcut, hne, hvalid⟩ := isValidCPSTemplate_cases h
  have hfold := @cpsFold_eq_some_iff (tagTexts s) hvalid ⟨[], []⟩
  simp only [List.length_nil, Nat.zero_add] at hfold
  constructor
  · rintro ⟨t, hparse, hsame⟩
    simp only [cpsParse, hcut] at hparse
    split at hparse
    next => cases hparse
    next t' ht' =>
      split_ifs at hparse with hlen
      cases hparse
      obtain ⟨hplain, hroom, hstatic, -, rfl⟩ := (hfold (by omega)).mp ht'
      refine ⟨hplain, hroom hne, hstatic, size_le_of_sameTags hsame, fun hnil => hlen ?_⟩
      rw [length_segs_foldl]
      simpa [writtenTags] using hnil
  · intro hp
    have hsizes : ∀ tag ∈ written (tagTexts s), tag.size ≤ 1000009 :=
      fun tag htag => (hp.sizes tag htag).trans (by omega)
    have hread := (hfold (by omega)).mpr ⟨hp.tags, fun _ => hp.room, hp.static, hsizes, rfl⟩
    have hlen : ((written (tagTexts s)).foldl pushTag ⟨[], []⟩).segs.length ≠ 0 := by
      rw [length_segs_foldl]
      simpa [writtenTags] using hp.ne_nil
    refine ⟨(written (tagTexts s)).foldl pushTag ⟨[], []⟩, ?_, ?_⟩
    · simp only [cpsParse, hcut, hread, if_neg hlen]
    have hsame := @sameTags_tagSegments (writtenTags s) [] hp.sizes
      (by simpa [staticLength] using hp.static) fun tag htag => data_of_mem_written htag
    rw [SameTags, foldl_pushTag]
    exact hsame

end Configurator

end AwgProxy
