import AwgProxy.ShareLink

/-!
# How a Link Spells a Hub

A link holds the two bounds of a header, the octets of the network and a byte for each code
unit of a text, and the page writes them out again. What was spelt in another way comes back
in the spelling of the link, with the same bounds and octets; a code unit of more than a byte
comes back as another character.

* `HParam.pairToH_text`, `hToPair_pairToH` — the headers.
* `parseSlash24_plain`, `plain_tunnelSubnet_eq` — the network.
* `fromCharCodes_strToBytes` — the texts.
-/

namespace AwgProxy

namespace Configurator

open Ecma Fields
open Text hiding trim trim_trim exists_eq_trim

/-! ### Headers -/

/-- A header of a profile: a value, or the two bounds of a range. -/
inductive HParam
  | value (v : UInt32)
  | range (lo hi : UInt32)
  deriving DecidableEq

namespace HParam

/-- A header as the page writes it. -/
def text : HParam → List Char
  | value v => decimal v.toNat
  | range lo hi => decimal lo.toNat ++ '-' :: decimal hi.toNat

/-- The two bounds. -/
def bounds : HParam → ℕ × ℕ
  | value v => (v.toNat, v.toNat)
  | range lo hi => (lo.toNat, hi.toNat)

/-- A header that is no range of a single value. -/
def Proper : HParam → Prop
  | value _ => True
  | range lo hi => lo ≠ hi

end HParam

/-- A word is the number of its digits. -/
theorem toUint32_number_decimal {v : ℕ} (hv : v < 4294967296) :
    toUint32 (number (decimal v)) = v := by
  have hsmall : v < 2 ^ 53 := hv.trans (by norm_num)
  rw [number_digits (decimal_ne_nil v) isDigit_of_mem_decimal, digitsVal_decimal,
    natNumber_of_lt hsmall, toUint32_natCast, Nat.mod_eq_of_lt hv]

theorem dash_notMem_decimal (n : ℕ) : '-' ∉ decimal n :=
  dash_notMem_of_digits isDigit_of_mem_decimal

theorem hToPair_decimal {v : ℕ} (hv : v < 4294967296) : hToPair (decimal v) = (v, v) := by
  rw [hToPair, List.splitOn_eq_singleton (dash_notMem_decimal v)]
  exact congrArg₂ _ (toUint32_number_decimal hv) (toUint32_number_decimal hv)

theorem hToPair_range {lo hi : ℕ} (hlo : lo < 4294967296) (hhi : hi < 4294967296) :
    hToPair (decimal lo ++ '-' :: decimal hi) = (lo, hi) := by
  rw [hToPair, List.splitOn_append_cons_self_of_not_mem (dash_notMem_decimal lo),
    List.splitOn_eq_singleton (dash_notMem_decimal hi)]
  exact congrArg₂ _ (toUint32_number_decimal hlo) (toUint32_number_decimal hhi)

/-- The bounds of a header are what is put into a link. -/
theorem HParam.hToPair_text (p : HParam) : hToPair p.text = p.bounds := by
  cases p with
  | value v => exact hToPair_decimal v.toNat_lt
  | range lo hi => exact hToPair_range lo.toNat_lt hi.toNat_lt

/-- **The bounds survive the way through a link.** -/
theorem hToPair_pairToH {lo hi : ℕ} (hlo : lo < 4294967296) (hhi : hi < 4294967296) :
    hToPair (pairToH lo hi) = (lo, hi) := by
  rw [pairToH]
  split
  next h => rw [hToPair_decimal hlo, h]
  next => exact hToPair_range hlo hhi

/-- A range is written with a dash where its bounds differ. -/
theorem mem_pairToH {lo hi : ℕ} : '-' ∈ pairToH lo hi ↔ lo ≠ hi := by
  rw [pairToH]
  split
  next h => exact iff_of_false (dash_notMem_decimal lo) fun hne => hne h
  next h => exact iff_of_true (List.mem_append_right _ List.mem_cons_self) h

/-- **A header comes back as it was written**, unless it is a range of one value. -/
theorem HParam.pairToH_text (p : HParam) : p.Proper → pairToH p.bounds.1 p.bounds.2 = p.text := by
  intro hp
  cases p with
  | value v => exact if_pos rfl
  | range lo hi => exact if_neg fun h => hp (UInt32.toNat_inj.mp h)

/-- What comes back is no range of one value. -/
theorem HParam.proper_of_pairToH {p : HParam} {lo hi : ℕ} (h : p.text = pairToH lo hi) :
    p.Proper := by
  cases p with
  | value v => trivial
  | range l r =>
      rintro rfl
      have hdash : '-' ∈ pairToH lo hi := by
        rw [← h]
        exact List.mem_append_right _ List.mem_cons_self
      have hne := mem_pairToH.mp hdash
      rw [pairToH, if_neg hne] at h
      obtain ⟨hlo, hhi⟩ := append_cons_inj (dash_notMem_decimal _) (dash_notMem_decimal _) h
      exact hne ((decimal_inj.mp hlo).symm.trans (decimal_inj.mp hhi))

/-- So is none that is written as a header that is none. -/
theorem HParam.proper_of_text_eq {p q : HParam} (hq : q.Proper) (h : p.text = q.text) : p.Proper :=
  proper_of_pairToH (h.trans (q.pairToH_text hq).symm)

/-! ### The network -/

/-- The octets of a network have no zero in front. -/
def PlainSubnet (cidr : List Char) : Prop :=
  ∀ o ∈ (dropSlash24 cidr).splitOn '.', NoLeadingZero o

instance (cidr : List Char) : Decidable (PlainSubnet cidr) :=
  inferInstanceAs (Decidable (∀ o ∈ _, _))

theorem dropSlash24_append (s : List Char) : dropSlash24 (s ++ ['/', '2', '4']) = s := by
  have hlen : (s ++ ['/', '2', '4']).length - 3 = s.length := by
    rw [List.length_append]
    rfl
  rw [dropSlash24, if_pos (List.isSuffixOf_iff_suffix.mpr (List.suffix_append s _)), hlen,
    List.take_left]

/-- The pieces of four texts without a dot. -/
theorem splitOn_quad {a b c d : List Char} (ha : '.' ∉ a) (hb : '.' ∉ b) (hc : '.' ∉ c)
    (hd : '.' ∉ d) : (a ++ '.' :: (b ++ '.' :: (c ++ '.' :: d))).splitOn '.' = [a, b, c, d] := by
  rw [List.splitOn_append_cons_self_of_not_mem ha, List.splitOn_append_cons_self_of_not_mem hb,
    List.splitOn_append_cons_self_of_not_mem hc, List.splitOn_eq_singleton hd]

/-- A group of at most three digits, for a byte. -/
def IsOctet (o : List Char) : Prop :=
  isDigits 1 3 o = true ∧ digitsVal o ≤ 255

theorem dot_notMem_of_digits {ds : List Char} (hds : ∀ c ∈ ds, c.isDigit = true) : '.' ∉ ds := by
  intro hc
  cases hds '.' hc

theorem IsOctet.dot_notMem {o : List Char} (h : IsOctet o) : '.' ∉ o :=
  dot_notMem_of_digits (isDigits_iff.mp h.1).2

/-- A network `parseSlash24` accepts is four octets, the last of them zero. -/
theorem exists_octets {cidr : List Char} (h : parseSlash24 cidr ≠ none) :
    ∃ a b c d, cidr = a ++ '.' :: (b ++ '.' :: (c ++ '.' :: d)) ++ ['/', '2', '4'] ∧
      (IsOctet a ∧ IsOctet b ∧ IsOctet c ∧ IsOctet d) ∧ digitsVal d = 0 := by
  rw [parseSlash24] at h
  split at h
  next hsuff =>
    obtain ⟨s, rfl⟩ := List.isSuffixOf_iff_suffix.mp hsuff
    rw [dropSlash24_append, quad?] at h
    split at h
    next hquad =>
      rw [Option.bind_some] at h
      dsimp only at h
      split at h
      next hoct =>
        obtain ⟨hlen, hdig⟩ := hquad
        obtain ⟨a, b, c, d, hparts⟩ := List.length_eq_four.mp hlen
        rw [hparts] at hdig hoct
        have hoctet : ∀ o ∈ [a, b, c, d], IsOctet o := fun o ho =>
          ⟨List.all_eq_true.mp hdig o ho,
            of_decide_eq_true (List.all_eq_true.mp hoct.1 (digitsVal o) (List.mem_map_of_mem ho))⟩
        refine ⟨a, b, c, d, ?_, ⟨hoctet a (by simp), hoctet b (by simp), hoctet c (by simp),
          hoctet d (by simp)⟩, Option.some.inj hoct.2⟩
        have hs : ['.'].intercalate (s.splitOn '.') = s := List.intercalate_splitOn '.'
        rw [hparts, List.intercalate_cons_cons, List.intercalate_cons_cons,
          List.intercalate_cons_cons, List.intercalate_singleton] at hs
        simp only [← hs, List.append_assoc, List.cons_append, List.nil_append]
      next => exact absurd rfl h
    next => exact absurd rfl h
  next => exact absurd rfl h

/-- Four octets are read as their values. -/
theorem parseSlash24_octets {a b c d : List Char} (ha : IsOctet a) (hb : IsOctet b)
    (hc : IsOctet c) (hd : IsOctet d) (hzero : digitsVal d = 0) :
    parseSlash24 (a ++ '.' :: (b ++ '.' :: (c ++ '.' :: d)) ++ ['/', '2', '4']) =
      some [digitsVal a, digitsVal b, digitsVal c, digitsVal d] := by
  have hcut := splitOn_quad ha.dot_notMem hb.dot_notMem hc.dot_notMem hd.dot_notMem
  have hdig : [a, b, c, d].length = 4 ∧ [a, b, c, d].all (isDigits 1 3) = true :=
    ⟨rfl, by simp [ha.1, hb.1, hc.1, hd.1]⟩
  have hoct : ([digitsVal a, digitsVal b, digitsVal c, digitsVal d].all (· ≤ 255)) = true ∧
      [digitsVal a, digitsVal b, digitsVal c, digitsVal d].getLast? = some 0 :=
    ⟨by simp [ha.2, hb.2, hc.2, hd.2], congrArg some hzero⟩
  rw [parseSlash24, if_pos (List.isSuffixOf_iff_suffix.mpr (List.suffix_append _ _)),
    dropSlash24_append, quad?, hcut]
  dsimp only
  rw [if_pos hdig, Option.bind_some]
  exact if_pos hoct

/-- A byte in digits is an octet. -/
theorem isOctet_decimal {n : ℕ} (hn : n < 256) : IsOctet (decimal n) := by
  have hlen : (decimal n).length ≤ 3 :=
    (Nat.length_toDigits_le_iff (by norm_num) (by norm_num)).mpr (by omega)
  refine ⟨isDigits_iff.mpr ⟨⟨?_, hlen⟩, isDigit_of_mem_decimal⟩, ?_⟩
  · exact List.length_pos_of_ne_nil (decimal_ne_nil n)
  · rw [digitsVal_decimal]
    omega

/-- What is put into a link of an octet. -/
theorem toNat_tunOctet {tun : List (List Char)} {i : ℕ} {o : List Char} (ho : tun[i]? = some o)
    (h : IsOctet o) : (tunOctet tun i).toNat = digitsVal o := by
  obtain ⟨⟨hpos, hlen⟩, hds⟩ := isDigits_iff.mp h.1
  have hval := h.2
  have hnum : number o = .finite (digitsVal o : ℕ) :=
    number_of_isDigits (isDigits_iff.mpr ⟨⟨hpos, by omega⟩, hds⟩)
  have hword : digitsVal o % 4294967296 = digitsVal o := Nat.mod_eq_of_lt (by omega)
  have hbyte : digitsVal o % 2 ^ 8 = digitsVal o := Nat.mod_eq_of_lt (by omega)
  rw [tunOctet, ho, Option.elim_some, hnum, toUint32_natCast, hword, UInt8.toNat_ofNat', hbyte]

theorem subnetText_eq (a b c : ℕ) : subnetText a b c =
    decimal a ++ '.' :: (decimal b ++ '.' :: (decimal c ++ '.' :: ['0'])) ++ ['/', '2', '4'] := by
  simp only [subnetText, List.append_assoc, List.cons_append]
  rfl

/-- The network that is read has no zero in front of an octet. -/
theorem plainSubnet_subnetText (a b c : ℕ) : PlainSubnet (subnetText a b c) := by
  have hdot : ∀ n, '.' ∉ decimal n := fun n => dot_notMem_of_digits isDigit_of_mem_decimal
  have hzero : '.' ∉ ['0'] := by decide
  rw [PlainSubnet, subnetText_eq, dropSlash24_append, splitOn_quad (hdot a) (hdot b) (hdot c) hzero]
  intro o ho
  simp only [List.mem_cons, List.not_mem_nil, or_false] at ho
  rcases ho with rfl | rfl | rfl | rfl
  · exact noLeadingZero_decimal a
  · exact noLeadingZero_decimal b
  · exact noLeadingZero_decimal c
  · exact fun _ => rfl

section Plain

variable {x : HubParams}

/-- The network of a link is the one of the form, octet by octet. -/
theorem exists_plain_tunnelSubnet (h : parseSlash24 x.tunnelSubnet ≠ none) : ∃ a b c d,
    x.tunnelSubnet = a ++ '.' :: (b ++ '.' :: (c ++ '.' :: d)) ++ ['/', '2', '4'] ∧
      (IsOctet a ∧ IsOctet b ∧ IsOctet c ∧ IsOctet d) ∧ digitsVal d = 0 ∧
      x.plain.tunnelSubnet = subnetText (digitsVal a) (digitsVal b) (digitsVal c) := by
  obtain ⟨a, b, c, d, hcidr, ⟨ha, hb, hc, hd⟩, hzero⟩ := exists_octets h
  have hcut := splitOn_quad ha.dot_notMem hb.dot_notMem hc.dot_notMem hd.dot_notMem
  refine ⟨a, b, c, d, hcidr, ⟨ha, hb, hc, hd⟩, hzero, ?_⟩
  rw [HubParams.plain]
  dsimp only
  rw [hcidr, dropSlash24_append, hcut, toNat_tunOctet rfl ha, toNat_tunOctet rfl hb,
    toNat_tunOctet rfl hc]

/-- **The network survives the way through a link.** -/
theorem parseSlash24_plain (h : parseSlash24 x.tunnelSubnet ≠ none) :
    parseSlash24 x.plain.tunnelSubnet = parseSlash24 x.tunnelSubnet := by
  obtain ⟨a, b, c, d, hcidr, ⟨ha, hb, hc, hd⟩, hzero, hplain⟩ := exists_plain_tunnelSubnet h
  have hbyte : ∀ {o}, IsOctet o → IsOctet (decimal (digitsVal o)) := fun ho =>
    isOctet_decimal (Nat.lt_succ_of_le ho.2)
  have hlast : IsOctet ['0'] := ⟨by decide, by decide⟩
  rw [hplain, subnetText_eq, parseSlash24_octets (hbyte ha) (hbyte hb) (hbyte hc) hlast rfl, hcidr,
    parseSlash24_octets ha hb hc hd hzero, hzero]
  simp only [digitsVal_decimal]
  rfl

/-- A network without a zero in front of an octet keeps its text. -/
theorem plain_tunnelSubnet_eq (h : parseSlash24 x.tunnelSubnet ≠ none)
    (hp : PlainSubnet x.tunnelSubnet) : x.plain.tunnelSubnet = x.tunnelSubnet := by
  obtain ⟨a, b, c, d, hcidr, ⟨ha, hb, hc, hd⟩, hzero, hplain⟩ := exists_plain_tunnelSubnet h
  have hcut := splitOn_quad ha.dot_notMem hb.dot_notMem hc.dot_notMem hd.dot_notMem
  rw [PlainSubnet, hcidr, dropSlash24_append, hcut] at hp
  have hsame : ∀ o ∈ [a, b, c, d], IsOctet o → decimal (digitsVal o) = o := by
    intro o ho hoct
    obtain ⟨⟨hpos, -⟩, hds⟩ := isDigits_iff.mp hoct.1
    exact decimal_digitsVal (List.ne_nil_of_length_pos hpos) hds (hp o ho)
  have hlast : d = ['0'] := by
    rw [← hsame d (by simp) hd, hzero]
    rfl
  rw [hplain, subnetText_eq, hcidr, hsame a (by simp) ha, hsame b (by simp) hb,
    hsame c (by simp) hc, hlast]

end Plain

/-! ### The texts -/

/-- A text a field can hold: at most 255 code units, each of a byte. -/
def OneByte (s : List Char) : Prop :=
  (codeUnits s).length ≤ 255 ∧ ∀ u ∈ codeUnits s, u ≤ 255

instance (s : List Char) : Decidable (OneByte s) :=
  inferInstanceAs (Decidable (_ ∧ _))

/-- Each character of such a text is a code unit of its own. -/
theorem oneByte_iff {s : List Char} : OneByte s ↔ s.length ≤ 255 ∧ ∀ c ∈ s, c.toNat ≤ 255 := by
  have hmap : (∀ c ∈ s, c.toNat ≤ 255) → codeUnits s = s.map Char.toNat := fun h =>
    codeUnits_of_lt fun c hc => (h c hc).trans_lt (by norm_num)
  constructor
  · rintro ⟨hlen, hsmall⟩
    have hchars : ∀ c ∈ s, c.toNat ≤ 255 := fun c hc =>
      Nat.lt_succ_iff.mp (lt_of_codeUnits_lt (fun u hu => Nat.lt_succ_of_le (hsmall u hu)) hc)
    rw [hmap hchars, List.length_map] at hlen
    exact ⟨hlen, hchars⟩
  · rintro ⟨hlen, hchars⟩
    rw [OneByte, hmap hchars, List.length_map]
    exact ⟨hlen, List.forall_mem_map.mpr hchars⟩

/-- **A text that fits a field comes back as it was.** -/
theorem fromCharCodes_strToBytes {s : List Char} (h : OneByte s) :
    fromCharCodes (strToBytes s) = s := by
  have hchars := (oneByte_iff.mp h).2
  have hunits : codeUnits s = s.map Char.toNat :=
    codeUnits_of_lt fun c hc => (hchars c hc).trans_lt (by norm_num)
  rw [fromCharCodes, strToBytes, hunits, List.map_map, List.map_map]
  conv_rhs => rw [← List.map_id s]
  refine List.map_congr_left fun c hc => ?_
  have hbyte : (UInt8.ofNat c.toNat).toNat = c.toNat :=
    UInt8.toNat_ofNat_of_lt' ((hchars c hc).trans_lt (by norm_num))
  rw [Function.comp_apply, Function.comp_apply, hbyte, Char.ofNat_toNat]
  rfl

theorem length_strToBytes {s : List Char} (h : OneByte s) : (strToBytes s).length < 256 := by
  rw [strToBytes, List.length_map]
  exact Nat.lt_succ_of_le h.1

/-- What is read of a field fits one. -/
theorem oneByte_fromCharCodes {b : Bytes} (h : b.length < 256) : OneByte (fromCharCodes b) := by
  refine oneByte_iff.mpr ⟨?_, ?_⟩
  · rw [fromCharCodes, List.length_map]
    exact Nat.le_of_lt_succ h
  · intro c hc
    obtain ⟨x, -, rfl⟩ := List.mem_map.mp hc
    have hx : x.toNat < 256 := x.toNat_lt
    have hvalid : x.toNat.isValidChar := Or.inl (by omega)
    have hchar : (Char.ofNat x.toNat).toNat = x.toNat := by
      rw [Char.ofNat, dif_pos hvalid]
      rfl
    omega

theorem toNat_le_of_isDigit {c : Char} (h : c.isDigit = true) : c.toNat ≤ 255 := by
  have hc : 48 ≤ c.toNat ∧ c.toNat ≤ 57 := Char.isDigit_iff_toNat.mp h
  omega

/-- An entry of a port band is short. -/
theorem length_portToken_le {t : List Char} (h : isValidPortToken t = true) : t.length ≤ 11 := by
  obtain ⟨⟨x, hx⟩, hshort⟩ := isValidPortToken_iff.mp h
  cases hx with
  | single h =>
      have hlen := (isDigits_iff.mp (isDigits_of_portNum h hshort)).1.2
      omega
  | range hlo hhi hle =>
      obtain ⟨hsd, hse⟩ := (shortNumbers_append rfl).mp hshort
      have hlo' := (isDigits_iff.mp (isDigits_of_portNum hlo hsd)).1.2
      have hhi' := (isDigits_iff.mp (isDigits_of_portNum hhi hse)).1.2
      rw [List.length_append, List.length_cons]
      omega

/-- A port band fits a field. -/
theorem oneByte_of_isValidHubBand {s : List Char} (h : isValidHubBand s = true) : OneByte s := by
  rw [isValidHubBand, isValidPortSpec, Bool.and_eq_true] at h
  have hcount : (s.splitOn ',').length ≤ 8 := of_decide_eq_true h.2
  have htokens : ∀ t ∈ s.splitOn ',', isValidPortToken t = true :=
    List.all_eq_true.mp (Bool.and_eq_true_iff.mp h.1).2
  refine oneByte_iff.mpr ⟨?_, fun c hc => ?_⟩
  · have hlen := length_le_of_splitOn hcount fun t ht => length_portToken_le (htokens t ht)
    omega
  · rcases mem_splitOn (c := ',') hc with rfl | ⟨t, ht, hct⟩
    · decide
    · obtain ⟨⟨x, hx⟩, -⟩ := isValidPortToken_iff.mp (htokens t ht)
      rcases hx.chars c hct with hdig | rfl
      · exact toNat_le_of_isDigit hdig
      · decide

/-- A network of the form fits a field. -/
theorem oneByte_of_isLanSubnet {s : List Char} (h : isLanSubnet s = true) : OneByte s := by
  rw [isLanSubnet] at h
  split at h
  next => cases h
  next a m hcut =>
    obtain ⟨rfl, -⟩ := splitFirst?_eq_some_iff.mp hcut
    rw [Bool.and_eq_true] at h
    obtain ⟨hquad, hmask⟩ := h
    obtain ⟨⟨-, hm⟩, hmds⟩ := isDigits_iff.mp hmask
    rw [quad?] at hquad
    split at hquad
    next hparts =>
      have hgroup : ∀ t ∈ a.splitOn '.',
          (1 ≤ t.length ∧ t.length ≤ 3) ∧ ∀ c ∈ t, c.isDigit = true :=
        fun t ht => isDigits_iff.mp (List.all_eq_true.mp hparts.2 t ht)
      have ha := length_le_of_splitOn hparts.1.le fun t ht => (hgroup t ht).1.2
      refine oneByte_iff.mpr ⟨?_, fun c hc => ?_⟩
      · rw [List.length_append, List.length_cons]
        omega
      · rcases List.mem_append.mp hc with hc | hc
        · rcases mem_splitOn (c := '.') hc with rfl | ⟨t, ht, hct⟩
          · decide
          · exact toNat_le_of_isDigit ((hgroup t ht).2 c hct)
        · rcases List.mem_cons.mp hc with rfl | hc
          · decide
          · exact toNat_le_of_isDigit (hmds c hc)
    next => cases hquad

end Configurator

end AwgProxy
