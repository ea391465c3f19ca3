import AwgProxy.Cps
import Mathlib.Tactic.IntervalCases

/-!
# The Grammar of I-Packet Templates

What a template may look like and what it says, without the scanner of `cps_parse`: gaps and
tags between angle brackets, each tag its letters, spaces and an argument.

* `cutTags_eq_some_iff` — the walk over the text finds the tags of the grammar.
* `cpsTag_eq_some_iff` — one tag.
* `cpsParse_eq_some_iff` — a template is accepted exactly when it is one of the grammar, and
  its tags are stored in order.
* `cpsFaithful_iff` — what is stored is what is written, exactly when no size is above 65535:
  sizes are read up to 1000009 and stored in sixteen bits.
-/

namespace AwgProxy

open Configurator Ecma
open Text hiding trim trim_trim exists_eq_trim

/-! ### The grammar -/

/-- Spaces and tabs. -/
def Blanks (s : List Char) : Prop := ∀ c ∈ s, c = ' ' ∨ c = '\t'

/-- The hex text of bytes, in either case. -/
inductive HexOf : List Char → Bytes → Prop
  | nil : HexOf [] []
  | cons {a b : Char} {hex : List Char} {v : UInt8} {d : Bytes}
      (hi : a.toLower = (v.toNat / 16).digitChar) (lo : b.toLower = (v.toNat % 16).digitChar)
      (tail : HexOf hex d) : HexOf (a :: b :: hex) (v :: d)

/-- The letters of a tag with a size. -/
inductive SizeLetters : List Char → CpsKind → Prop
  | random : SizeLetters ['r'] .random
  | chars : SizeLetters ['r', 'c'] .randomChars
  | digits : SizeLetters ['r', 'd'] .randomDigits
  | zeros : SizeLetters ['d', 'z'] .zeros

/-- A decimal numeral of a value from 1 to 1000009. -/
structure Numeral (ds : List Char) : Prop where
  ne_nil : ds ≠ []
  digits : ∀ c ∈ ds, c.isDigit = true
  pos : 1 ≤ digitsVal ds
  le : digitsVal ds ≤ 1000009

/-- The text of a tag, and what it says; `none` for a tag that is ignored. -/
inductive TagForm : List Char → Option CpsTag → Prop
  | static {sp hex : List Char} {x : Char} {d : Bytes} (hsp : Blanks sp) (hx : x = 'x' ∨ x = 'X')
      (hne : hex ≠ []) (hhex : HexOf hex d) :
      TagForm ('b' :: (sp ++ '0' :: x :: hex)) (some ⟨.static, 0, d⟩)
  | sized {letters sp ds : List Char} {kind : CpsKind} (hletters : SizeLetters letters kind)
      (hsp : Blanks sp) (hds : Numeral ds) :
      TagForm (letters ++ (sp ++ ds)) (some ⟨kind, digitsVal ds, []⟩)
  | timestamp (rest : List Char) : TagForm ('t' :: rest) (some ⟨.timestamp, 0, []⟩)
  | counter (rest : List Char) : TagForm ('c' :: rest) (some ⟨.counter, 0, []⟩)
  | ignored {rest : List Char} (hrest : rest.head? ≠ some 'z') : TagForm ('d' :: rest) none

/-- A text of gaps and tags, and the texts of the tags. -/
inductive TemplateText : List Char → List (List Char) → Prop
  | nil : TemplateText [] []
  | gap {c : Char} {s : List Char} {inners : List (List Char)} (hc : isGap c = true)
      (hs : TemplateText s inners) : TemplateText (c :: s) inners
  | tag {inner s : List Char} {inners : List (List Char)} (hinner : '>' ∉ inner)
      (hs : TemplateText s inners) : TemplateText ('<' :: (inner ++ '>' :: s)) (inner :: inners)

/-- The tags that are not ignored. -/
def saidTags (forms : List (Option CpsTag)) : List CpsTag := forms.filterMap id

/-- A template of the grammar, its tags and what they say. -/
structure CpsReading (s : List Char) (inners : List (List Char)) (forms : List (Option CpsTag)) :
    Prop where
  text : TemplateText s inners
  tags : List.Forall₂ TagForm inners forms
  /-- Some tag is not ignored. -/
  pos : 1 ≤ (saidTags forms).length
  /-- There is room for the tags. -/
  le : (saidTags forms).length ≤ cpsMaxSegments
  /-- No tag follows the last one there is room for. -/
  last : (saidTags forms).length = cpsMaxSegments → ∃ tag, forms.getLast? = some (some tag)
  /-- The static bytes fit. -/
  static : staticLength (saidTags forms) ≤ cpsMaxStatic

/-- The tags a template of the grammar says. -/
def CpsText (s : List Char) (tags : List CpsTag) : Prop :=
  ∃ inners forms, CpsReading s inners forms ∧ tags = saidTags forms

/-- A template is accepted exactly when it is one of the grammar, and what is stored is what
its tags say. -/
structure CpsFaithful (s : List Char) : Prop where
  accepts : (∃ t, cpsParse s = some t) ↔ ∃ tags, CpsText s tags
  stores : ∀ t, cpsParse s = some t → ∀ tags, CpsText s tags → SameTags tags t

/-! ### The text -/

/-- An open tag ends at the first closing bracket. -/
theorem cutTagsFrom_some_iff {s tag : List Char} {inners : List (List Char)} :
    cutTagsFrom (some tag) s = some inners ↔
      ∃ body rest inners', s = body ++ '>' :: rest ∧ '>' ∉ body ∧
        cutTagsFrom none rest = some inners' ∧ inners = (tag ++ body) :: inners' := by
  induction s generalizing tag with
  | nil => simp [cutTagsFrom]
  | cons c s ih =>
      rw [cutTagsFrom]
      by_cases hc : c = '>'
      · subst hc
        rw [if_pos rfl, Option.map_eq_some_iff]
        constructor
        · rintro ⟨inners', hrest, rfl⟩
          exact ⟨[], s, inners', rfl, List.not_mem_nil, hrest, by rw [List.append_nil]⟩
        · rintro ⟨body, rest, inners', heq, hbody, hrest, rfl⟩
          cases body with
          | nil =>
              obtain rfl := (List.cons.inj heq).2
              exact ⟨inners', hrest, by rw [List.append_nil]⟩
          | cons b body =>
              obtain rfl := (List.cons.inj heq).1
              exact absurd List.mem_cons_self hbody
      · rw [if_neg hc, ih]
        constructor
        · rintro ⟨body, rest, inners', rfl, hbody, hrest, rfl⟩
          refine ⟨c :: body, rest, inners', rfl, ?_, hrest, by simp⟩
          exact List.not_mem_cons_of_ne_of_not_mem (Ne.symm hc) hbody
        · rintro ⟨body, rest, inners', heq, hbody, hrest, rfl⟩
          cases body with
          | nil => exact absurd (List.cons.inj heq).1 hc
          | cons b body =>
              obtain ⟨rfl, rfl⟩ := List.cons.inj heq
              exact ⟨body, rest, inners', rfl, List.not_mem_of_not_mem_cons hbody, hrest, by simp⟩

/-- A text that is cut is a text of the grammar. -/
theorem TemplateText.of_cutTags {s : List Char} {inners : List (List Char)}
    (h : cutTags s = some inners) : TemplateText s inners := by
  induction hn : s.length using Nat.strong_induction_on generalizing s inners with
  | _ n ih =>
      cases s with
      | nil =>
          obtain rfl := Option.some.inj h
          exact .nil
      | cons c s =>
          rw [List.length_cons] at hn
          rw [cutTags, cutTagsFrom] at h
          split_ifs at h with hgap hopen
          · exact .gap hgap (ih _ (by omega) h rfl)
          · subst hopen
            obtain ⟨body, rest, inners', rfl, hbody, hrest, rfl⟩ := cutTagsFrom_some_iff.mp h
            rw [List.length_append, List.length_cons] at hn
            exact .tag hbody (ih _ (by omega) hrest rfl)

/-- **The walk over the text finds the tags of the grammar.** -/
theorem cutTags_eq_some_iff {s : List Char} {inners : List (List Char)} :
    cutTags s = some inners ↔ TemplateText s inners := by
  refine ⟨.of_cutTags, fun h => ?_⟩
  induction h with
  | nil => rfl
  | gap hc _ ih =>
      rw [cutTags, cutTagsFrom, if_pos hc]
      exact ih
  | @tag inner s inners hinner _ ih =>
      rw [cutTags, cutTagsFrom, if_neg (by decide), if_pos rfl, cutTagsFrom_some_iff]
      exact ⟨inner, s, inners, rfl, hinner, ih, rfl⟩

/-! ### Arguments -/

theorem toNat_digitChar {v : ℕ} (hv : v < 16) :
    v.digitChar.toNat = if v < 10 then 48 + v else 87 + v := by
  interval_cases v <;> rfl

/-- A hex digit is the digit of its value, in either case. -/
theorem hexVal_eq_some_iff {c : Char} {v : ℕ} :
    hexVal c = some v ↔ v < 16 ∧ c.toLower = v.digitChar := by
  have hconst : '0'.toNat = 48 ∧ '9'.toNat = 57 ∧ 'a'.toNat = 97 ∧ 'f'.toNat = 102 ∧
      'A'.toNat = 65 ∧ 'F'.toNat = 70 := ⟨rfl, rfl, rfl, rfl, rfl, rfl⟩
  have hle : ∀ a b : Char, a ≤ b ↔ a.toNat ≤ b.toNat := fun _ _ => Char.le_def
  have hlower := toNat_toLower c
  have hsome : ∀ w, w < 16 → c.toLower.toNat = (if w < 10 then 48 + w else 87 + w) →
      (some w = some v ↔ v < 16 ∧ c.toLower = v.digitChar) := by
    intro w hw hlow
    rw [Option.some.injEq]
    constructor
    · rintro rfl
      exact ⟨hw, Char.toNat_inj.mp (hlow.trans (toNat_digitChar hw).symm)⟩
    · rintro ⟨hv, hc⟩
      have heq := congrArg Char.toNat hc
      rw [hlow, toNat_digitChar hv] at heq
      split_ifs at heq <;> omega
  unfold hexVal
  simp only [Char.isDigit_iff_toNat, hle, hconst]
  split_ifs with h₁ h₂ h₃
  · refine hsome _ (by omega) (hlower.trans ?_)
    split_ifs <;> omega
  · refine hsome _ (by omega) (hlower.trans ?_)
    split_ifs <;> omega
  · refine hsome _ (by omega) (hlower.trans ?_)
    split_ifs <;> omega
  · refine ⟨nofun, fun ⟨hv, hc⟩ => ?_⟩
    have heq := congrArg Char.toNat hc
    rw [hlower, toNat_digitChar hv] at heq
    split_ifs at heq <;> omega

theorem HexOf.length_eq {hex : List Char} {d : Bytes} (h : HexOf hex d) :
    hex.length = 2 * d.length := by
  induction h with
  | nil => rfl
  | cons _ _ _ ih =>
      simp only [List.length_cons, ih]
      omega

/-- Hex digits are no white space. -/
theorem HexOf.not_space {hex : List Char} {d : Bytes} (h : HexOf hex d) :
    ∀ c ∈ hex, isSpace c = false := by
  have hdigit : ∀ {c : Char} {v : ℕ}, v < 16 → c.toLower = v.digitChar → isSpace c = false := by
    intro c v hv hc
    have hsome := hexVal_isSome (c := c)
    rw [hexVal_eq_some_iff.mpr ⟨hv, hc⟩] at hsome
    by_contra hspace
    rw [isHexChar_of_isSpace (Bool.not_eq_false _ ▸ hspace)] at hsome
    cases hsome
  induction h with
  | nil => nofun
  | @cons a b hex v d hi lo _ ih =>
      have hv := v.toNat_lt
      simp only [List.forall_mem_cons]
      exact ⟨hdigit (by omega) hi, hdigit (by omega) lo, ih⟩

/-- The loop over the hex digits decodes hex text. -/
theorem hexBytes_eq_some_iff : ∀ {hex : List Char} {d : Bytes}, hex.length % 2 = 0 →
    (hexBytes hex = some d ↔ HexOf hex d)
  | [], d, _ => by
      have hnil : hexBytes [] = some [] := rfl
      rw [hnil, Option.some.injEq]
      constructor
      · rintro rfl
        exact .nil
      · rintro ⟨⟩
        rfl
  | [_], d, hlen => by simp at hlen
  | a :: b :: hex, d, hlen => by
      have hrest : hex.length % 2 = 0 := by
        rw [List.length_cons, List.length_cons] at hlen
        omega
      have htail := fun d' => @hexBytes_eq_some_iff hex d' hrest
      constructor
      · intro h
        rw [hexBytes] at h
        split at h
        · next hi lo d' hhi hlo hd' =>
            obtain rfl := Option.some.inj h
            obtain ⟨hhi, ha⟩ := hexVal_eq_some_iff.mp hhi
            obtain ⟨hlo, hb⟩ := hexVal_eq_some_iff.mp hlo
            have hv : (UInt8.ofNat (16 * hi + lo)).toNat = 16 * hi + lo :=
              UInt8.toNat_ofNat_of_lt' (by simp only [UInt8.size]; omega)
            refine .cons ?_ ?_ ((htail d').mp hd')
            · rw [hv, ha]
              congr 1
              omega
            · rw [hv, hb]
              congr 1
              omega
        · cases h
      · intro h
        cases h with
        | @cons _ _ _ v d' hi lo hd' =>
            have hv := v.toNat_lt
            have hhi := hexVal_eq_some_iff.mpr ⟨by omega, hi⟩
            have hlo := hexVal_eq_some_iff.mpr ⟨by omega, lo⟩
            rw [hexBytes, hhi, hlo, (htail d').mpr hd']
            refine congrArg (fun w => some (w :: d')) (UInt8.toNat_inj.mp ?_)
            rw [Nat.div_add_mod, UInt8.toNat_ofNat', Nat.mod_eq_of_lt hv]

/-- What stands behind blanks. -/
theorem skipSpaces_append {sp rest : List Char} (hsp : Blanks sp)
    (hrest : ∀ c ∈ rest.head?, isSpace c = false) : skipSpaces (sp ++ rest) = rest := by
  induction sp with
  | nil =>
      cases rest with
      | nil => rfl
      | cons c rest =>
          have hc : ¬ (c = ' ' ∨ c = '\t') := by
            have hspace := hrest c rfl
            rintro (rfl | rfl) <;> cases hspace
          simp only [List.nil_append, skipSpaces, List.dropWhile_cons, Bool.or_eq_true,
            decide_eq_true_eq, if_neg hc]
  | cons c sp ih =>
      have hc := hsp c List.mem_cons_self
      have htail := ih fun d hd => hsp d (List.mem_cons_of_mem _ hd)
      rw [skipSpaces] at htail ⊢
      rw [List.cons_append, List.dropWhile_cons, if_pos (by simpa using hc), htail]

/-- The blanks that are skipped. -/
theorem exists_blanks_append (arg : List Char) : ∃ sp, Blanks sp ∧ arg = sp ++ skipSpaces arg :=
  ⟨arg.takeWhile fun c => c = ' ' || c = '\t',
    fun _ hc => by simpa using List.mem_takeWhile_imp hc,
    List.takeWhile_append_dropWhile.symm⟩

theorem trim_blanks_append {sp rest : List Char} (hsp : Blanks sp)
    (hrest : ∀ c ∈ rest, isSpace c = false) : trim (sp ++ rest) = rest := by
  have hblank : ∀ c ∈ sp, isSpace c = true := by
    intro c hc
    rcases hsp c hc with rfl | rfl <;> rfl
  have happ := Text.trim_append (s := rest) (b := []) hblank (by simp)
  rw [List.append_nil] at happ
  refine happ.trans (Text.trim_eq_self_iff.mpr ⟨fun c hc => ?_, fun c hc => ?_⟩)
  · exact hrest c (List.mem_of_mem_head? hc)
  · exact hrest c (List.mem_of_mem_getLast? hc)

/-- Everything `parse_int` reads is a digit. -/
theorem digits_of_parseIntLoop {s : List Char} {v n : ℕ} (h : parseIntLoop v s = some n) :
    ∀ c ∈ s, c.isDigit = true := by
  induction s generalizing v with
  | nil => nofun
  | cons c s ih =>
      rw [parseIntLoop] at h
      split_ifs at h with hc hbig
      simp only [List.forall_mem_cons]
      exact ⟨hc, ih h⟩

/-- `parse_int` reads numerals. -/
theorem parseInt_eq_some_iff {s : List Char} {n : ℕ} :
    parseInt s = some n ↔
      s ≠ [] ∧ (∀ c ∈ s, c.isDigit = true) ∧ digitsVal s = n ∧ n ≤ 1000009 := by
  rw [parseInt]
  split_ifs with hne
  · simp [hne]
  · constructor
    · intro h
      have hds := digits_of_parseIntLoop h
      rw [parseIntLoop_digits hds (by omega), ← digitsVal] at h
      split_ifs at h with hle
      obtain rfl := Option.some.inj h
      exact ⟨hne, hds, rfl, hle⟩
    · rintro ⟨-, hds, rfl, hle⟩
      rw [parseIntLoop_digits hds (by omega), ← digitsVal, if_pos hle]

/-! ### One tag -/

/-- A static tag, behind its letter. -/
theorem cpsStatic_eq_some_iff {t t' : CpsTemplate} {arg : List Char} :
    cpsStatic t arg = some t' ↔
      ∃ sp x hex d, arg = sp ++ '0' :: x :: hex ∧ Blanks sp ∧ (x = 'x' ∨ x = 'X') ∧ hex ≠ [] ∧
        HexOf hex d ∧ t.staticData.length + d.length ≤ cpsMaxStatic ∧ t' = t.push .static 0 d := by
  constructor
  · intro h
    obtain ⟨sp, hsp, harg⟩ := exists_blanks_append arg
    rw [cpsStatic] at h
    split at h
    · next x hex heq =>
        split_ifs at h with hcond
        obtain ⟨hx, hne, heven, hfit⟩ := hcond
        obtain ⟨d, hd, rfl⟩ := Option.map_eq_some_iff.mp h
        have hhex := (hexBytes_eq_some_iff heven).mp hd
        have hlen := hhex.length_eq
        exact ⟨sp, x, hex, d, heq ▸ harg, hsp, hx, hne, hhex, by omega, rfl⟩
    · cases h
  · rintro ⟨sp, x, hex, d, rfl, hsp, hx, hne, hhex, hfit, rfl⟩
    have hzero : ∀ c ∈ ('0' :: x :: hex).head?, isSpace c = false := by
      rintro c ⟨⟩
      rfl
    have hlen := hhex.length_eq
    have heven : hex.length % 2 = 0 := by omega
    have hhalf : hex.length / 2 = d.length := by omega
    rw [cpsStatic, skipSpaces_append hsp hzero]
    simp only
    rw [hhalf, if_pos ⟨hx, hne, heven, hfit⟩, (hexBytes_eq_some_iff heven).mpr hhex,
      Option.map_some]

/-- Digits are no white space. -/
theorem Numeral.not_space {ds : List Char} (h : Numeral ds) : ∀ c ∈ ds, isSpace c = false :=
  fun c hc => isSpace_of_isDigit (h.digits c hc)

/-- A tag with a size, behind its letters. -/
theorem cpsSized_eq_some_iff {t t' : CpsTemplate} {kind : CpsKind} {arg : List Char} :
    cpsSized t kind arg = some t' ↔
      ∃ sp ds, arg = sp ++ ds ∧ Blanks sp ∧ Numeral ds ∧ t' = t.push kind (digitsVal ds) [] := by
  constructor
  · intro h
    obtain ⟨sp, hsp, harg⟩ := exists_blanks_append arg
    rw [cpsSized] at h
    split at h
    · cases h
    · next n hn =>
        split_ifs at h with hz
        obtain rfl := Option.some.inj h
        obtain ⟨hne, hds, rfl, hle⟩ := parseInt_eq_some_iff.mp hn
        exact ⟨sp, skipSpaces arg, harg, hsp, ⟨hne, hds, Nat.pos_of_ne_zero hz, hle⟩, rfl⟩
  · rintro ⟨sp, ds, rfl, hsp, hds, rfl⟩
    have hread : parseInt ds = some (digitsVal ds) :=
      parseInt_eq_some_iff.mpr ⟨hds.ne_nil, hds.digits, rfl, hds.le⟩
    have hhead : ∀ c ∈ ds.head?, isSpace c = false :=
      fun c hc => hds.not_space c (List.mem_of_mem_head? hc)
    rw [cpsSized, skipSpaces_append hsp hhead, hread]
    exact if_neg (Nat.pos_iff_ne_zero.mp hds.pos)

/-- The letters of a tag with a size, and what stands behind them. -/
theorem SizeLetters.sizedTag {letters sp ds : List Char} {kind : CpsKind}
    (h : SizeLetters letters kind) (hsp : Blanks sp) (hds : Numeral ds) :
    SizedTag (letters ++ (sp ++ ds)) kind (sp ++ ds) := by
  cases h with
  | chars => exact .chars _
  | digits => exact .digits _
  | zeros => exact .zeros _
  | random =>
      have hne : ∀ c ∈ sp ++ ds, c ≠ 'c' ∧ c ≠ 'd' := by
        intro c hc
        rcases List.mem_append.mp hc with hc | hc
        · rcases hsp c hc with rfl | rfl <;> exact ⟨by decide, by decide⟩
        · have hdigit := hds.digits c hc
          constructor <;> rintro rfl <;> cases hdigit
      cases harg : sp ++ ds with
      | nil => exact absurd (List.append_eq_nil_iff.mp harg).2 hds.ne_nil
      | cons c arg => exact .random c arg (hne c (harg ▸ List.mem_cons_self))

/-- What a tag says is what `writtenTag?` finds in it. -/
theorem TagForm.eq_writtenTag? {inner : List Char} {form : Option CpsTag}
    (h : TagForm inner form) : form = writtenTag? inner := by
  cases h with
  | @static sp hex x d hsp hx hne hhex =>
      have hspace : ∀ c ∈ '0' :: x :: hex, isSpace c = false := by
        simp only [List.forall_mem_cons]
        refine ⟨rfl, ?_, hhex.not_space⟩
        rcases hx with rfl | rfl <;> rfl
      have hlen := hhex.length_eq
      rw [writtenTag?, trim_blanks_append hsp hspace]
      simp only [List.drop_succ_cons, List.drop_zero]
      rw [(hexBytes_eq_some_iff (by omega)).mpr hhex, Option.getD_some]
  | sized hletters hsp hds =>
      rw [(hletters.sizedTag hsp hds).writtenTag?_eq, trim_blanks_append hsp hds.not_space]
  | timestamp rest => rfl
  | counter rest => rfl
  | ignored hrest =>
      unfold writtenTag?
      split <;> simp_all

/-- A size is one `parse_int` reads. -/
theorem TagForm.size_le {inner : List Char} {tag : CpsTag} (h : TagForm inner (some tag)) :
    tag.size ≤ 1000009 := by
  cases h with
  | static => exact Nat.zero_le _
  | sized _ _ hds => exact hds.le
  | timestamp => exact Nat.zero_le _
  | counter => exact Nat.zero_le _

/-- **One tag.** Where there is room, a tag is read exactly when it is one of the grammar and
its bytes fit. -/
theorem cpsTag_eq_some_iff {t t' : CpsTemplate} {inner : List Char}
    (ht : t.segs.length < cpsMaxSegments) (hstatic : t.staticData.length ≤ cpsMaxStatic) :
    cpsTag t inner = some t' ↔ ∃ form, TagForm inner form ∧ storeTag t form = some t' := by
  have hstore : ∀ {kind : CpsKind} {n : ℕ}, n ≤ 1000009 →
      storeTag t (some ⟨kind, n, []⟩) = some (t.push kind n []) :=
    fun hn => if_pos ⟨hn, hstatic⟩
  have hsized : ∀ {letters arg : List Char} {kind : CpsKind}, SizeLetters letters kind →
      cpsSized t kind arg = some t' →
        ∃ form, TagForm (letters ++ arg) form ∧ storeTag t form = some t' := by
    intro letters arg kind hletters h
    obtain ⟨sp, ds, rfl, hsp, hds, rfl⟩ := cpsSized_eq_some_iff.mp h
    exact ⟨_, .sized hletters hsp hds, hstore hds.le⟩
  constructor
  · intro h
    unfold cpsTag at h
    rw [if_neg (Nat.not_le.mpr ht)] at h
    split at h
    next => cases h
    next arg =>
      obtain ⟨sp, x, hex, d, rfl, hsp, hx, hne, hhex, hfit, rfl⟩ := cpsStatic_eq_some_iff.mp h
      exact ⟨_, .static hsp hx hne hhex, if_pos ⟨Nat.zero_le _, hfit⟩⟩
    next arg => exact hsized .chars h
    next arg => exact hsized .digits h
    next arg _ _ => exact hsized .random h
    next rest =>
      obtain rfl := Option.some.inj h
      exact ⟨_, .timestamp rest, hstore (Nat.zero_le _)⟩
    next rest =>
      obtain rfl := Option.some.inj h
      exact ⟨_, .counter rest, hstore (Nat.zero_le _)⟩
    next arg => exact hsized .zeros h
    next rest hz =>
      obtain rfl := Option.some.inj h
      refine ⟨none, .ignored fun hhead => ?_, rfl⟩
      cases rest with
      | nil => cases hhead
      | cons c rest => exact hz rest (by rw [Option.some.inj hhead])
    next => cases h
  · rintro ⟨form, hform, hstored⟩
    cases hform with
    | @static sp hex x d hsp hx hne hhex =>
        rw [storeTag] at hstored
        split_ifs at hstored with hfit
        obtain rfl := Option.some.inj hstored
        unfold cpsTag
        rw [if_neg (Nat.not_le.mpr ht)]
        exact cpsStatic_eq_some_iff.mpr ⟨sp, x, hex, d, rfl, hsp, hx, hne, hhex, hfit.2, rfl⟩
    | sized hletters hsp hds =>
        rw [hstore hds.le] at hstored
        obtain rfl := Option.some.inj hstored
        rw [(hletters.sizedTag hsp hds).cpsTag_eq ht]
        exact cpsSized_eq_some_iff.mpr ⟨_, _, rfl, hsp, hds, rfl⟩
    | timestamp rest =>
        rw [← hstored, hstore (Nat.zero_le _), cpsTag, if_neg (Nat.not_le.mpr ht)]
    | counter rest =>
        rw [← hstored, hstore (Nat.zero_le _), cpsTag, if_neg (Nat.not_le.mpr ht)]
    | @ignored rest hrest =>
        rw [← hstored, storeTag]
        unfold cpsTag
        rw [if_neg (Nat.not_le.mpr ht)]
        cases rest with
        | nil => rfl
        | cons c rest =>
            have hc : c ≠ 'z' := fun heq => hrest (congrArg some heq)
            simp [hc]

/-! ### All tags -/

/-- At every tag there is room for a segment, behind the `n` there are. -/
def Room : ℕ → List (Option CpsTag) → Prop
  | _, [] => True
  | n, form :: forms => n < cpsMaxSegments ∧ Room (n + form.toList.length) forms

theorem saidTags_cons (form : Option CpsTag) (forms : List (Option CpsTag)) :
    saidTags (form :: forms) = form.toList ++ saidTags forms := by
  cases form <;> rfl

theorem saidTags_pos {forms : List (Option CpsTag)} {tag : CpsTag}
    (h : forms.getLast? = some (some tag)) : 1 ≤ (saidTags forms).length := by
  have hmem : tag ∈ saidTags forms :=
    List.mem_filterMap.mpr ⟨some tag, List.mem_of_getLast? h, rfl⟩
  exact List.length_pos_of_mem hmem

/-- There is room at every tag when there is room for all, and none behind the last one. -/
theorem room_iff {form : Option CpsTag} {forms : List (Option CpsTag)} {n : ℕ} :
    Room n (form :: forms) ↔
      n + (saidTags (form :: forms)).length ≤ cpsMaxSegments ∧
        (n + (saidTags (form :: forms)).length = cpsMaxSegments →
          ∃ tag, (form :: forms).getLast? = some (some tag)) := by
  induction forms generalizing form n with
  | nil =>
      cases form with
      | none =>
          have hnone : ¬ ∃ tag : CpsTag, [(none : Option CpsTag)].getLast? = some (some tag) := by
            rintro ⟨tag, ⟨⟩⟩
          constructor
          · rintro ⟨hlt, -⟩
            exact ⟨hlt.le, fun heq => absurd heq hlt.ne⟩
          · rintro ⟨hle, hlast⟩
            exact ⟨lt_of_le_of_ne hle fun heq => hnone (hlast heq), trivial⟩
      | some tag =>
          constructor
          · rintro ⟨hlt, -⟩
            exact ⟨hlt, fun _ => ⟨tag, rfl⟩⟩
          · rintro ⟨hle, -⟩
            exact ⟨hle, trivial⟩
  | cons form' forms ih =>
      rw [Room, ih, saidTags_cons form, List.length_append, List.getLast?_cons_cons, Nat.add_assoc]
      refine ⟨fun h => h.2, fun h => ⟨?_, h⟩⟩
      by_contra hfull
      have hz : n + (form.toList.length + (saidTags (form' :: forms)).length) = cpsMaxSegments := by
        omega
      obtain ⟨tag, htag⟩ := h.2 hz
      have hpos := saidTags_pos htag
      omega

/-- What the tags of a form store. -/
theorem TagForm.storeTag_eq {inner : List Char} {form : Option CpsTag} (h : TagForm inner form)
    {t : CpsTemplate} (hstatic : t.staticData.length ≤ cpsMaxStatic) :
    storeTag t form =
      if t.staticData.length + staticLength form.toList ≤ cpsMaxStatic then
        some (form.toList.foldl pushTag t)
      else none := by
  cases form with
  | none => exact (if_pos hstatic).symm
  | some tag =>
      have hsize := h.size_le
      simp [storeTag, staticLength, pushTag, hsize]

theorem length_segs_pushTag (t : CpsTemplate) (form : Option CpsTag) :
    (form.toList.foldl pushTag t).segs.length = t.segs.length + form.toList.length :=
  length_segs_foldl form.toList t

theorem length_static_pushTag (t : CpsTemplate) (form : Option CpsTag) :
    (form.toList.foldl pushTag t).staticData.length =
      t.staticData.length + staticLength form.toList := by
  cases form with
  | none => rfl
  | some tag => simp [pushTag, CpsTemplate.push, staticLength]

/-- **The tags of a template**, whether the configurator accepts them or not. -/
theorem cpsFold_eq_some_iff_forms {inners : List (List Char)} {t t' : CpsTemplate}
    (hstatic : t.staticData.length ≤ cpsMaxStatic) :
    cpsFold t inners = some t' ↔
      ∃ forms, List.Forall₂ TagForm inners forms ∧ Room t.segs.length forms ∧
        t.staticData.length + staticLength (saidTags forms) ≤ cpsMaxStatic ∧
          t' = (saidTags forms).foldl pushTag t := by
  induction inners generalizing t with
  | nil =>
      constructor
      · intro h
        obtain rfl := Option.some.inj h
        exact ⟨[], .nil, trivial, hstatic, rfl⟩
      · rintro ⟨_, ⟨⟩, -, -, rfl⟩
        rfl
  | cons inner inners ih =>
      have hsplit : ∀ (form : Option CpsTag) (forms : List (Option CpsTag)),
          staticLength (saidTags (form :: forms)) =
            staticLength form.toList + staticLength (saidTags forms) := fun form forms => by
        rw [saidTags_cons, staticLength, List.map_append, List.sum_append]
        rfl
      rw [cpsFold]
      by_cases ht : t.segs.length < cpsMaxSegments
      swap
      · have hfull : cpsTag t inner = none := by
          unfold cpsTag
          exact if_pos (Nat.not_lt.mp ht)
        rw [hfull]
        constructor
        · rintro ⟨⟩
        · rintro ⟨_, ⟨⟩, hroom, -⟩
          exact absurd hroom.1 ht
      constructor
      · intro h
        cases htag : cpsTag t inner with
        | none =>
            rw [htag] at h
            cases h
        | some t₁ =>
            rw [htag] at h
            obtain ⟨form, hform, hstored⟩ := (cpsTag_eq_some_iff ht hstatic).mp htag
            rw [hform.storeTag_eq hstatic] at hstored
            split_ifs at hstored with hfit
            obtain rfl := Option.some.inj hstored
            rw [← length_static_pushTag] at hfit
            obtain ⟨forms, hforms, hroom, hlen, rfl⟩ := (ih hfit).mp h
            rw [length_segs_pushTag] at hroom
            rw [length_static_pushTag, Nat.add_assoc, ← hsplit] at hlen
            exact ⟨form :: forms, .cons hform hforms, ⟨ht, hroom⟩, hlen,
              by rw [saidTags_cons, List.foldl_append]⟩
      · rintro ⟨_, hforms, hroom, hlen, rfl⟩
        cases hforms with
        | @cons _ form _ forms hform hforms =>
            rw [hsplit, ← Nat.add_assoc, ← length_static_pushTag] at hlen
            have hfit : (form.toList.foldl pushTag t).staticData.length ≤ cpsMaxStatic := by omega
            have hstored := hform.storeTag_eq hstatic
            rw [if_pos (length_static_pushTag t form ▸ hfit)] at hstored
            have htag := (cpsTag_eq_some_iff ht hstatic).mpr ⟨form, hform, hstored⟩
            rw [htag]
            refine (ih hfit).mpr ⟨forms, hforms, ?_, hlen, ?_⟩
            · rw [length_segs_pushTag]
              exact hroom.2
            · rw [saidTags_cons, List.foldl_append]

/-! ### The template -/

/-- **A template is accepted exactly when it is one of the grammar**, and its tags are stored
in order. -/
theorem cpsParse_eq_some_iff {s : List Char} {t : CpsTemplate} :
    cpsParse s = some t ↔ ∃ tags, CpsText s tags ∧ t = tags.foldl pushTag ⟨[], []⟩ := by
  have hfold := fun inners => @cpsFold_eq_some_iff_forms inners ⟨[], []⟩ t (Nat.zero_le _)
  simp only [List.length_nil, Nat.zero_add] at hfold
  constructor
  · intro h
    rw [cpsParse] at h
    split at h
    · cases h
    · next inners hcut =>
        split at h
        · cases h
        · next t' hread =>
            split_ifs at h with hlen
            obtain rfl := Option.some.inj h
            obtain ⟨forms, hforms, hroom, hstatic, rfl⟩ := (hfold inners).mp hread
            rw [length_segs_foldl, List.length_nil, Nat.zero_add] at hlen
            have hpos : 1 ≤ (saidTags forms).length := Nat.pos_of_ne_zero hlen
            cases forms with
            | nil => cases hpos
            | cons form forms =>
                obtain ⟨hle, hlast⟩ := room_iff.mp hroom
                rw [Nat.zero_add] at hle hlast
                exact ⟨_, ⟨inners, form :: forms,
                  ⟨cutTags_eq_some_iff.mp hcut, hforms, hpos, hle, hlast, hstatic⟩, rfl⟩, rfl⟩
  · rintro ⟨_, ⟨inners, forms, h, rfl⟩, rfl⟩
    have hroom : Room 0 forms := by
      cases forms with
      | nil => trivial
      | cons form forms =>
          refine room_iff.mpr ?_
          rw [Nat.zero_add]
          exact ⟨h.le, h.last⟩
    have hread := (hfold inners).mpr ⟨forms, h.tags, hroom, h.static, rfl⟩
    have hlen : ¬ ((saidTags forms).foldl pushTag ⟨[], []⟩).segs.length = 0 := by
      rw [length_segs_foldl, List.length_nil, Nat.zero_add]
      exact Nat.pos_iff_ne_zero.mp h.pos
    rw [cpsParse, cutTags_eq_some_iff.mpr h.text]
    simp only [hread]
    exact if_neg hlen

/-- What the tags of a text say. -/
theorem forms_eq_map {inners : List (List Char)} {forms : List (Option CpsTag)}
    (h : List.Forall₂ TagForm inners forms) : forms = inners.map writtenTag? := by
  induction h with
  | nil => rfl
  | cons hform _ ih => rw [hform.eq_writtenTag?, ih, List.map_cons]

/-- A template says one thing. -/
theorem CpsText.unique {s : List Char} {tags tags' : List CpsTag} (h : CpsText s tags)
    (h' : CpsText s tags') : tags = tags' := by
  obtain ⟨inners, forms, h, rfl⟩ := h
  obtain ⟨inners', forms', h', rfl⟩ := h'
  have hcut := (cutTags_eq_some_iff.mpr h.text).symm.trans (cutTags_eq_some_iff.mpr h'.text)
  obtain rfl := Option.some.inj hcut
  rw [forms_eq_map h.tags, forms_eq_map h'.tags]

/-- A tag of a template that has bytes is a static one. -/
theorem CpsText.data {s : List Char} {tags : List CpsTag} (h : CpsText s tags) :
    ∀ tag ∈ tags, tag.kind ≠ .static → tag.data = [] := by
  obtain ⟨inners, forms, h, rfl⟩ := h
  rw [forms_eq_map h.tags]
  intro tag htag
  obtain ⟨form, hform, hsome⟩ := List.mem_filterMap.mp htag
  obtain ⟨inner, -, rfl⟩ := List.mem_map.mp hform
  exact data_of_writtenTag? hsome

/-- **What is stored is what is written, exactly when every size has sixteen bits.** -/
theorem cpsFaithful_iff (s : List Char) :
    CpsFaithful s ↔ ∀ tags, CpsText s tags → ∀ tag ∈ tags, tag.size ≤ 65535 := by
  constructor
  · intro h tags htags
    have hread := cpsParse_eq_some_iff.mpr ⟨tags, htags, rfl⟩
    exact size_le_of_sameTags (h.stores _ hread tags htags)
  · intro hsize
    refine ⟨?_, fun t ht tags htags => ?_⟩
    · constructor
      · rintro ⟨t, ht⟩
        obtain ⟨tags, htags, -⟩ := cpsParse_eq_some_iff.mp ht
        exact ⟨tags, htags⟩
      · rintro ⟨tags, htags⟩
        exact ⟨_, cpsParse_eq_some_iff.mpr ⟨tags, htags, rfl⟩⟩
    · obtain ⟨tags', htags', rfl⟩ := cpsParse_eq_some_iff.mp ht
      obtain rfl := htags.unique htags'
      have hstatic : ([] : Bytes).length + staticLength tags ≤ cpsMaxStatic := by
        obtain ⟨inners, forms, hreading, rfl⟩ := htags
        exact (Nat.zero_add _).trans_le hreading.static
      rw [SameTags, foldl_pushTag]
      exact sameTags_tagSegments (hsize tags htags) hstatic htags.data

/-- `<r 70000>` stores 4464. -/
theorem not_cpsFaithful : ¬ CpsFaithful "<r 70000>".toList := by
  rw [cpsFaithful_iff]
  intro hsize
  have hval : digitsVal "70000".toList = 70000 := rfl
  have hdigits : ∀ c ∈ "70000".toList, c.isDigit = true := by simp
  have hds : Numeral "70000".toList := ⟨nofun, hdigits, by omega, by omega⟩
  have hform : TagForm "r 70000".toList (some ⟨.random, 70000, []⟩) :=
    @TagForm.sized ['r'] [' '] _ _ .random (by simp [Blanks]) hds
  have htext : TemplateText "<r 70000>".toList ["r 70000".toList] :=
    @TemplateText.tag "r 70000".toList [] [] (by decide) .nil
  have hle : 70000 ≤ 65535 := hsize [⟨.random, 70000, []⟩]
    ⟨_, [some ⟨.random, 70000, []⟩], ⟨htext, .cons hform .nil, le_rfl, by decide, nofun,
      by decide⟩, rfl⟩ _ List.mem_cons_self
  omega

end AwgProxy
