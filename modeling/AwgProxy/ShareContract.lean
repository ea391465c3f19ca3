import AwgProxy.ShareSpelling

/-!
# What a Share Link Carries

The page promises of a link that it carries the profile of a hub, and that links of older and
of newer pages are read as well: a field that is missing reads as empty or as its default, and
one that is not known is skipped.

`generateServer` looks neither at the length nor at the script of the endpoint and of the name
of the tunnel, and a field holds the low byte of a length and of each code unit.

* `parseURLParams_shape` — what a link can be read as.
* `Shareable.linkCarries_plain` — what a link with fields that fit is read as.
* `linkCarries_iff` — exactly when a link keeps the promise.
-/

namespace AwgProxy

namespace Configurator

open Ecma Fields
open Text hiding trim trim_trim exists_eq_trim

/-! ### Reading -/

/-- A header and a list of fields are read as they were written. -/
theorem parseURLParams_shareText {x : HubParams} {hpRaw : Bytes} (hx : HeaderFits x hpRaw)
    {fields : List Bytes} (hfields : ∀ f ∈ fields, f.length < 256) (n : UInt8) :
    parseURLParams (shareText (shareHeader x hpRaw) n fields) =
      some (withFields x.plain (fields.take n.toNat)) := by
  have hback : atob? (fromUrlSafe (shareText (shareHeader x hpRaw) n fields)) =
      some (shareHeader x hpRaw ++ n :: encodeFields fields) := by
    rw [shareText, fromUrlSafe_toUrlSafe, atob_btoa]
  have hne : shareText (shareHeader x hpRaw) n fields ≠ [] := by
    intro h
    rw [h] at hback
    exact List.append_ne_nil_of_right_ne_nil _ (List.cons_ne_nil _ _) (Option.some.inj hback).symm
  rw [parseURLParams, if_neg hne, hback, Option.bind_some, readShare_shareHeader hx,
    readFields_encodeFields hfields]

/-- What a link can be read as. -/
structure LinkShape (x : HubParams) : Prop where
  h : ∀ t ∈ x.h, ∃ lo hi, t = pairToH lo hi
  tunnelSubnet : ∃ a b c, x.tunnelSubnet = subnetText a b c
  endpoint : OneByte x.endpoint
  prefixName : OneByte x.prefixName

theorem exists_of_mem_getHs {n : ℕ} {r : Bytes} {t : List Char} (ht : t ∈ (getHs n r).1) :
    ∃ lo hi, t = pairToH lo hi := by
  induction n generalizing r with
  | zero => contradiction
  | succ n ih =>
      rcases List.mem_cons.mp ht with rfl | ht
      · exact ⟨_, _, rfl⟩
      · exact ih ht

/-- A field that is missing is short as well. -/
theorem length_getD_readFields (n : ℕ) (r : Bytes) (i : ℕ) :
    ((readFields n r).getD i []).length < 256 := by
  rw [List.getD_eq_getElem?_getD]
  cases h : (readFields n r)[i]? with
  | none => exact Nat.zero_lt_succ 255
  | some f => exact length_lt_of_mem_readFields (List.mem_of_getElem? h)

theorem linkShape_withFields {x : HubParams} (hh : ∀ t ∈ x.h, ∃ lo hi, t = pairToH lo hi)
    (hsub : ∃ a b c, x.tunnelSubnet = subnetText a b c) (n : ℕ) (r : Bytes) :
    LinkShape (withFields x (readFields n r)) where
  h := hh
  tunnelSubnet := hsub
  endpoint := oneByte_fromCharCodes (length_getD_readFields n r 1)
  prefixName := by
    rw [withFields]
    dsimp only
    split
    next => decide
    next => exact oneByte_fromCharCodes (length_getD_readFields n r 2)

/-- **What a link can be read as**, whoever made it. -/
theorem parseURLParams_shape {c : List Char} {x : HubParams} (h : parseURLParams c = some x) :
    LinkShape x := by
  rw [parseURLParams] at h
  split at h
  next => cases h
  next =>
    obtain ⟨buf, -, hbuf⟩ := Option.bind_eq_some_iff.mp h
    rw [readShare] at hbuf
    split at hbuf
    next => cases hbuf
    next =>
      dsimp only at hbuf
      split at hbuf
      next => cases hbuf
      next =>
        cases hbuf
        exact linkShape_withFields (fun t => exists_of_mem_getHs) ⟨_, _, _, rfl⟩ _ _

/-! ### The promise -/

theorem error_eq_nil_iff {p : Prop} [Decidable p] {e : String} :
    (if p then [e] else []) = [] ↔ ¬p := by
  split
  next h => exact iff_of_false (List.cons_ne_nil e []) (not_not_intro h)
  next h => exact iff_of_true rfl h

/-- When `generateServer` finds no error. -/
theorem generateServerErrs_eq_nil_iff {f : ServerForm} (hmode : f.netMode ≠ .awg) :
    generateServerErrs f = [] ↔
      f.endpoint ≠ [] ∧ parseSlash24 f.tunnelSubnet ≠ none ∧
      ¬ ((number f.awgPort).lt (.finite 1024) = true ∨
        (Number.finite 65535).lt (number f.awgPort) = true) ∧
      (f.awgBand = [] ∨ isValidHubBand f.awgBand = true) ∧
      ¬ (f.netMode = .l3 ∧ (f.serverLAN = [] ∨ f.clientLAN = [])) ∧
      (f.serverLAN = [] ∨ isLanSubnet f.serverLAN = true) ∧
      (f.clientLAN = [] ∨ isLanSubnet f.clientLAN = true) ∧
      ¬ ((f.endpoint ≠ [] ∧ quad? f.endpoint = none) ∧ f.dnsServer = []) := by
  have hor : ∀ (p : Prop) (b : Bool), ¬ (p ∧ b = false) ↔ ¬ p ∨ b = true := fun p b => by
    rw [not_and_or, Bool.not_eq_false]
  rw [generateServerErrs]
  simp only [List.append_eq_nil_iff, error_eq_nil_iff, hor, not_not, and_assoc, ne_eq, hmode,
    if_false, not_false_eq_true, true_and]

/-- The hubs of the page: a profile and keys of the generator, the counts of the page, and a
form that `generateServer` finds no error in. -/
structure Shareable (x : HubParams) : Prop where
  jc : x.jc ≤ 255
  words : ∀ v ∈ [x.jmin, x.jmax, x.s1, x.s2, x.s3, x.s4], v < 65536
  h : ∃ a b c d : HParam, x.h = [a.text, b.text, c.text, d.text]
  hpKey : x.hpKey = [] ∨ ∃ b : Bytes, b.length = 32 ∧ (∃ y ∈ b, y ≠ 0) ∧ x.hpKey = btoa b
  serverWgPubKey : ∃ b : Bytes, b.length = 32 ∧ x.serverWgPubKey = btoa b
  ports : ∀ p ∈ [x.awgPort, x.wgPort], 1 ≤ p ∧ p ≤ 65535
  nextClient : 1 ≤ x.nextClient ∧ x.nextClient ≤ 254
  netMode : x.netMode ≠ .awg
  prefixName : x.prefixName ≠ []
  form : ∃ f : ServerForm, f.endpoint = x.endpoint ∧ f.awgBand = x.awgBand ∧
    f.tunnelSubnet = x.tunnelSubnet ∧ f.serverLAN = x.serverLAN ∧ f.netMode = x.netMode ∧
    generateServerErrs f = []

/-- What is left of a hub when only the first `k` fields are there. -/
def HubParams.cutTo (x : HubParams) (k : ℕ) : HubParams :=
  { x with
    serverWgPubKey := if 0 < k then x.serverWgPubKey else []
    endpoint := if 1 < k then x.endpoint else []
    prefixName := if 2 < k then x.prefixName else "awg-server-1".toList
    netMode := if 3 < k then x.netMode else .none
    serverLAN := if 4 < k then x.serverLAN else []
    awgBand := if 5 < k then x.awgBand else [] }

/-- Two hubs of the same values: the headers by their bounds, the network by its octets. -/
structure SameValues (x y : HubParams) : Prop where
  h : y.h.map hToPair = x.h.map hToPair
  tunnelSubnet : parseSlash24 y.tunnelSubnet = parseSlash24 x.tunnelSubnet
  rest : y = { x with h := y.h, tunnelSubnet := y.tunnelSubnet }

/-- The promise of a link, for what counts as the same hub. -/
structure LinkCarries (same : HubParams → HubParams → Prop) (x : HubParams) : Prop where
  /-- It is read as the hub it was made of. -/
  read : ∃ y, (buildShareableURL x).bind parseURLParams = some y ∧ same x y
  /-- What is left of it after any field is read as that, whatever it counts beyond. -/
  cut : ∀ {header fields}, shareParts x = some (header, fields) →
    ∀ (n : UInt8) (k : ℕ), k ≤ fields.length → k ≤ n.toNat →
      ∃ y, parseURLParams (shareText header n (fields.take k)) = some y ∧ same (x.cutTo k) y
  /-- Fields behind the last are skipped. -/
  extended : ∀ {header fields}, shareParts x = some (header, fields) →
    ∀ (n : UInt8) (more : List Bytes), fields.length ≤ n.toNat → (∀ f ∈ more, f.length < 256) →
      ∃ y, parseURLParams (shareText header n (fields ++ more)) = some y ∧ same x y

theorem HubParams.plain_cutTo (x : HubParams) (k : ℕ) : (x.cutTo k).plain = x.plain.cutTo k :=
  rfl

theorem LinkCarries.imp {same same' : HubParams → HubParams → Prop} {x : HubParams}
    (hl : LinkCarries same x) (h : ∀ k y, same (x.cutTo k) y → same' (x.cutTo k) y) :
    LinkCarries same' x where
  read := hl.read.imp fun y hy => ⟨hy.1, h 6 y hy.2⟩
  cut := fun hp n k hk hn => (hl.cut hp n k hk hn).imp fun y hy => ⟨hy.1, h k y hy.2⟩
  extended := fun hp n more hn hmore =>
    (hl.extended hp n more hn hmore).imp fun y hy => ⟨hy.1, h 6 y hy.2⟩

/-- The texts a link has room for. -/
structure FieldSafe (x : HubParams) : Prop where
  endpoint : OneByte x.endpoint
  prefixName : OneByte x.prefixName

/-- The hubs a link has room for, in the spelling it has. -/
structure LinkSafe (x : HubParams) : Prop extends FieldSafe x where
  tunnelSubnet : PlainSubnet x.tunnelSubnet
  h : ∀ p : HParam, p.text ∈ x.h → p.Proper

namespace Shareable

variable {x : HubParams}

/-- What `generateServer` has checked. -/
theorem form_checks (hx : Shareable x) : parseSlash24 x.tunnelSubnet ≠ none ∧
    (x.awgBand = [] ∨ isValidHubBand x.awgBand = true) ∧
    (x.serverLAN = [] ∨ isLanSubnet x.serverLAN = true) := by
  obtain ⟨f, -, hband, hsub, hlan, hmode, herrs⟩ := hx.form
  have hawg : f.netMode ≠ .awg := hmode ▸ hx.netMode
  obtain ⟨-, htun, -, hbandOk, -, hlanOk, -⟩ := (generateServerErrs_eq_nil_iff hawg).mp herrs
  rw [← hsub, ← hband, ← hlan]
  exact ⟨htun, hbandOk, hlanOk⟩

/-- A whole key fills the bytes of the header. -/
theorem keyBytes_of_length {b : Bytes} (h : b.length = 32) : keyBytes b = b := by
  refine List.ext_getElem (by simp [keyBytes, h]) fun i hi hib => ?_
  simp only [keyBytes, List.getElem_map, List.getElem_range]
  exact (List.getElem_eq_getD 0).symm

/-- The key of the profile is read as it was. -/
theorem exists_hpRaw (hx : Shareable x) : ∃ hpRaw,
    (if x.hpKey = [] then some [] else atob? x.hpKey) = some hpRaw ∧
      x.hpKey = if (keyBytes hpRaw).any (· ≠ 0) then btoa (keyBytes hpRaw) else [] := by
  rcases hx.hpKey with hnil | ⟨b, hlen, ⟨y, hy, hne⟩, hkey⟩
  · refine ⟨[], if_pos hnil, hnil.trans ?_⟩
    decide
  · have hany : b.any (· ≠ 0) = true := List.any_eq_true.mpr ⟨y, hy, decide_eq_true hne⟩
    have hkeyne : x.hpKey ≠ [] := by
      intro hnil
      have hb : some b = some [] := (atob_btoa b).symm.trans (congrArg atob? (hkey.symm.trans hnil))
      rw [Option.some.inj hb] at hlen
      cases hlen
    refine ⟨b, ?_, ?_⟩
    · rw [if_neg hkeyne, hkey, atob_btoa]
    · rw [keyBytes_of_length hlen, if_pos hany, hkey]

/-- The values of a hub of the page fit the header. -/
theorem headerFits (hx : Shareable x) {hpRaw : Bytes}
    (hkey : x.hpKey = if (keyBytes hpRaw).any (· ≠ 0) then btoa (keyBytes hpRaw) else []) :
    HeaderFits x hpRaw where
  jc := Nat.lt_succ_of_le hx.jc
  words := by
    intro v hv
    rcases List.mem_append.mp
      (show v ∈ [x.jmin, x.jmax, x.s1, x.s2, x.s3, x.s4] ++ [x.awgPort, x.wgPort] from hv)
      with hv | hv
    · exact hx.words v hv
    · exact Nat.lt_succ_of_le (hx.ports v hv).2
  length := by
    obtain ⟨a, b, c, d, hh⟩ := hx.h
    rw [hh]
    rfl
  nextClient := ⟨hx.nextClient.1, by have := hx.nextClient.2; omega⟩
  hpKey := hkey

/-- The form keeps the network and the ports of the hub short. -/
theorem oneByte_fields (hx : Shareable x) : OneByte x.serverLAN ∧ OneByte x.awgBand := by
  have hnil : OneByte [] := ⟨Nat.zero_le _, nofun⟩
  obtain ⟨-, hband, hlan⟩ := hx.form_checks
  exact ⟨hlan.elim (fun h => h ▸ hnil) oneByte_of_isLanSubnet,
    hband.elim (fun h => h ▸ hnil) oneByte_of_isValidHubBand⟩

/-- The fields of a link fit their lengths. -/
theorem length_of_mem_shareFields (hx : Shareable x) (hs : FieldSafe x) {keyRaw f : Bytes}
    (hf : f ∈ shareFields x keyRaw) : f.length < 256 := by
  obtain ⟨hlan, hband⟩ := hx.oneByte_fields
  simp only [shareFields, List.mem_cons, List.not_mem_nil, or_false] at hf
  rcases hf with rfl | rfl | rfl | rfl | rfl | rfl
  · exact (List.length_take_le 32 keyRaw).trans_lt (by norm_num)
  · exact length_strToBytes hs.endpoint
  · exact length_strToBytes hs.prefixName
  · exact Nat.one_lt_succ_succ 254
  · exact length_strToBytes hlan
  · exact length_strToBytes hband

/-- **The fields are read as they were written**, as many as there are. -/
theorem withFields_eq_cutTo (hx : Shareable x) (hs : FieldSafe x) {keyRaw : Bytes}
    (hlen : keyRaw.length = 32) (hkey : x.serverWgPubKey = btoa keyRaw) {fields : List Bytes}
    {k : ℕ} (hfield : ∀ i < 6,
      fields.getD i [] = if i < k then (shareFields x keyRaw).getD i [] else []) :
    withFields x.plain fields = x.plain.cutTo k := by
  have htext : ∀ {i s}, i < 6 → (shareFields x keyRaw).getD i [] = strToBytes s → OneByte s →
      fromCharCodes (fields.getD i []) = if i < k then s else [] := by
    intro i s hi hs hone
    rw [hfield i hi, hs]
    split
    · exact fromCharCodes_strToBytes hone
    · rfl
  have hserverKey : (if (fields.getD 0 []).length = 32 then btoa (fields.getD 0 []) else []) =
      if 0 < k then x.serverWgPubKey else [] := by
    rw [hfield 0 (by norm_num)]
    split
    · have htake : (shareFields x keyRaw).getD 0 [] = keyRaw := List.take_of_length_le hlen.le
      rw [htake, if_pos hlen, hkey]
    · exact if_neg (by norm_num)
  have hendpoint := htext (i := 1) (by norm_num) rfl hs.endpoint
  have hprefix : (if fromCharCodes (fields.getD 2 []) = [] then "awg-server-1".toList
      else fromCharCodes (fields.getD 2 [])) =
      if 2 < k then x.prefixName else "awg-server-1".toList := by
    rw [htext (i := 2) (by norm_num) rfl hs.prefixName]
    by_cases h2 : 2 < k
    · rw [if_pos h2, if_neg hx.prefixName, if_pos h2]
    · rw [if_neg h2, if_pos rfl, if_neg h2]
  have hmode : (withFields x.plain fields).netMode = if 3 < k then x.netMode else .none := by
    rw [withFields]
    dsimp only
    rw [hfield 3 (by norm_num)]
    by_cases h3 : 3 < k
    · have hawg := hx.netMode
      have hbyte : (shareFields x keyRaw).getD 3 [] = [netModeB x.netMode] := rfl
      rw [if_pos h3, if_pos h3, hbyte]
      cases hm : x.netMode with
      | awg => exact absurd hm hawg
      | none => rfl
      | l3 => rfl
      | l2 => rfl
    · rw [if_neg h3, if_neg h3]
      rfl
  have hlan := htext (i := 4) (by norm_num) rfl hx.oneByte_fields.1
  have hband : (if isValidHubBand (fromCharCodes (fields.getD 5 []))
      then fromCharCodes (fields.getD 5 []) else []) = if 5 < k then x.awgBand else [] := by
    rw [htext (i := 5) (by norm_num) rfl hx.oneByte_fields.2]
    split_ifs with h5 hvalid
    · rfl
    · exact (hx.form_checks.2.1.resolve_right hvalid).symm
    · rfl
    · rfl
  rw [withFields, HubParams.cutTo]
  dsimp only
  rw [hserverKey, hendpoint, hprefix, hlan, hband]
  congr 1

/-- **A link whose fields fit is read as the hub it was made of**, as the link spells it. -/
theorem linkCarries_plain (hx : Shareable x) (hs : FieldSafe x) :
    LinkCarries (fun x y => y = x.plain) x := by
  obtain ⟨keyRaw, hlen, hkey⟩ := hx.serverWgPubKey
  obtain ⟨hpRaw, hhp, hheader⟩ := hx.exists_hpRaw
  have hfits := hx.headerFits hheader
  have hparts : shareParts x = some (shareHeader x hpRaw, shareFields x keyRaw) := by
    rw [shareParts, hhp, hkey, atob_btoa]
    rfl
  have hfields : ∀ f ∈ shareFields x keyRaw, f.length < 256 :=
    fun f => hx.length_of_mem_shareFields hs
  have htake : ∀ k, withFields x.plain ((shareFields x keyRaw).take k) = x.plain.cutTo k := by
    refine fun k => hx.withFields_eq_cutTo hs hlen hkey fun i _ => ?_
    rw [List.getD_eq_getElem?_getD, List.getElem?_take]
    split
    · rw [List.getD_eq_getElem?_getD]
    · rfl
  have happend : ∀ more, withFields x.plain (shareFields x keyRaw ++ more) = x.plain.cutTo 6 := by
    refine fun more => hx.withFields_eq_cutTo hs hlen hkey fun i hi => ?_
    rw [if_pos hi, List.getD_eq_getElem?_getD, List.getElem?_append_left hi,
      ← List.getD_eq_getElem?_getD]
  refine ⟨⟨_, ?_, rfl⟩, fun h n k hk hn => ⟨_, ?_, rfl⟩, fun h n more hn hmore => ⟨_, ?_, rfl⟩⟩
  · rw [buildShareableURL, hparts, Option.map_some, Option.bind_some,
      parseURLParams_shareText hfits hfields]
    exact congrArg some (htake 6)
  · rw [hparts] at h
    cases h
    have hcut : ∀ f ∈ (shareFields x keyRaw).take k, f.length < 256 :=
      fun f hf => hfields f (List.mem_of_mem_take hf)
    rw [parseURLParams_shareText hfits hcut, List.take_take, Nat.min_eq_right hn, htake]
    rfl
  · rw [hparts] at h
    cases h
    have hlong : ∀ f ∈ shareFields x keyRaw ++ more, f.length < 256 := fun f hf =>
      (List.mem_append.mp hf).elim (hfields f) (hmore f)
    rw [parseURLParams_shareText hfits hlong, List.take_append, List.take_of_length_le hn, happend]
    rfl

/-- What a link spells otherwise has the same values. -/
theorem sameValues_plain (hx : Shareable x) (k : ℕ) : SameValues (x.cutTo k) (x.cutTo k).plain where
  h := by
    have hsame : ∀ t, hToPair (pairToH (hToPair t).1 (hToPair t).2) = hToPair t := fun t =>
      hToPair_pairToH (hToPair_lt t).1 (hToPair_lt t).2
    exact List.map_map.trans (List.map_congr_left fun t _ => hsame t)
  tunnelSubnet := parseSlash24_plain (x := x.cutTo k) hx.form_checks.1
  rest := rfl

/-- Nothing is spelt otherwise in a hub of its spelling. -/
theorem plain_eq (hx : Shareable x) (hs : LinkSafe x) : x.plain = x := by
  have hsub := plain_tunnelSubnet_eq hx.form_checks.1 hs.tunnelSubnet
  have hh : x.plain.h = x.h := by
    obtain ⟨a, b, c, d, hh⟩ := hx.h
    have hkeep : ∀ p : HParam, p.text ∈ x.h →
        pairToH (hToPair p.text).1 (hToPair p.text).2 = p.text := fun p hp => by
      rw [p.hToPair_text]
      exact p.pairToH_text (hs.h p hp)
    have hmem : ∀ t ∈ x.h, pairToH (hToPair t).1 (hToPair t).2 = t := by
      intro t ht
      have htext : ∃ p : HParam, p.text = t := by
        rw [hh] at ht
        simp only [List.mem_cons, List.not_mem_nil, or_false] at ht
        rcases ht with rfl | rfl | rfl | rfl
        exacts [⟨a, rfl⟩, ⟨b, rfl⟩, ⟨c, rfl⟩, ⟨d, rfl⟩]
      obtain ⟨p, rfl⟩ := htext
      exact hkeep p ht
    exact (List.map_congr_left hmem).trans (List.map_id _)
  calc x.plain = { x with h := x.plain.h, tunnelSubnet := x.plain.tunnelSubnet } := rfl
    _ = x := by rw [hh, hsub]

end Shareable

/-- What comes back has texts the link has room for. -/
theorem exists_linkShape {same : HubParams → HubParams → Prop} {x : HubParams}
    (h : LinkCarries same x) : ∃ y, LinkShape y ∧ same x y := by
  obtain ⟨y, hy, hsame⟩ := h.read
  obtain ⟨c, -, hc⟩ := Option.bind_eq_some_iff.mp hy
  exact ⟨y, parseURLParams_shape hc, hsame⟩

/-- A hub that comes back in its values has texts that fit. -/
theorem fieldSafe_of_carries {x : HubParams} (h : LinkCarries SameValues x) : FieldSafe x := by
  obtain ⟨y, hshape, hsame⟩ := exists_linkShape h
  have hendpoint : y.endpoint = x.endpoint := (congrArg HubParams.endpoint hsame.rest).trans rfl
  have hprefix : y.prefixName = x.prefixName := (congrArg HubParams.prefixName hsame.rest).trans rfl
  exact ⟨hendpoint ▸ hshape.endpoint, hprefix ▸ hshape.prefixName⟩

/-- One that comes back to the letter has the spelling of the link. -/
theorem linkSafe_of_carries {x : HubParams} (h : LinkCarries Eq x) : LinkSafe x := by
  obtain ⟨_, hshape, rfl⟩ := exists_linkShape h
  refine ⟨⟨hshape.endpoint, hshape.prefixName⟩, ?_, fun p hp => ?_⟩
  · obtain ⟨a, b, c, hsub⟩ := hshape.tunnelSubnet
    rw [hsub]
    exact plainSubnet_subnetText a b c
  · obtain ⟨lo, hi, ht⟩ := hshape.h _ hp
    exact HParam.proper_of_pairToH ht

/-- **Exactly when a link keeps its promise**: in the values, when the endpoint and the name of
the tunnel are at most 255 characters of one byte; to the letter, when also no octet of the
network starts with a zero and no header is a range of a single value. -/
theorem linkCarries_iff {x : HubParams} (hx : Shareable x) :
    (LinkCarries SameValues x ↔ FieldSafe x) ∧ (LinkCarries Eq x ↔ LinkSafe x) := by
  refine ⟨⟨fieldSafe_of_carries, fun hs => ?_⟩, ⟨linkSafe_of_carries, fun hs => ?_⟩⟩
  · refine (hx.linkCarries_plain hs).imp fun k y hy => ?_
    rw [hy]
    exact hx.sameValues_plain k
  · refine (hx.linkCarries_plain hs.toFieldSafe).imp fun k y hy => ?_
    rw [hy, HubParams.plain_cutTo, hx.plain_eq hs]

/-! ### An endpoint in another script -/

/-- A hub behind an endpoint. -/
def homeHub (endpoint : List Char) : HubParams where
  jc := 4
  jmin := 40
  jmax := 70
  s1 := 20
  s2 := 21
  s3 := 22
  s4 := 12
  h := [(HParam.range 5 60).text, (HParam.range 100 160).text, (HParam.range 200 260).text,
    (HParam.value 4294967295).text]
  level := .v3
  hpKey := btoa (List.replicate 32 1)
  serverWgPubKey := btoa (List.replicate 32 7)
  endpoint := endpoint
  awgPort := 12429
  wgPort := 12430
  tunnelSubnet := "10.8.0.0/24".toList
  prefixName := "awg-server-1".toList
  nextClient := 3
  netMode := .l3
  serverLAN := "192.168.88.0/24".toList
  awgBand := []

/-- The form it comes from. -/
def homeForm (endpoint : List Char) : ServerForm where
  endpoint := endpoint
  awgPort := "12429".toList
  awgBand := []
  tunnelSubnet := "10.8.0.0/24".toList
  serverLAN := "192.168.88.0/24".toList
  clientLAN := "192.168.77.0/24".toList
  netMode := .l3
  dnsServer := "1.1.1.1".toList

theorem generateServerErrs_homeForm {endpoint : List Char} (h : endpoint ≠ []) :
    generateServerErrs (homeForm endpoint) = [] := by
  have hmode : (homeForm endpoint).netMode ≠ .awg := show NetMode.l3 ≠ .awg by decide
  have hport : number "12429".toList = .finite (12429 : ℕ) := number_of_isDigits (by decide)
  have hrange : ¬ (Number.lt (.finite (12429 : ℕ)) (.finite 1024) = true ∨
      Number.lt (.finite 65535) (.finite (12429 : ℕ)) = true) := by decide
  have hsub : parseSlash24 "10.8.0.0/24".toList ≠ none := by decide
  have hserver : isLanSubnet "192.168.88.0/24".toList = true := by decide
  have hclient : isLanSubnet "192.168.77.0/24".toList = true := by decide
  have hrequired : ¬ (NetMode.l3 = .l3 ∧
      ("192.168.88.0/24".toList = [] ∨ "192.168.77.0/24".toList = [])) := by decide
  refine (generateServerErrs_eq_nil_iff hmode).mpr ⟨h, hsub, ?_, Or.inl rfl, hrequired,
    Or.inr hserver, Or.inr hclient, fun hdns => List.cons_ne_nil _ _ hdns.2⟩
  exact (congrArg (fun x => ¬ (x.lt (.finite 1024) = true ∨ (Number.finite 65535).lt x = true))
    hport).mpr hrange

theorem shareable_homeHub {endpoint : List Char} (h : endpoint ≠ []) :
    Shareable (homeHub endpoint) where
  jc := show 4 ≤ 255 by decide
  words := show ∀ v ∈ [40, 70, 20, 21, 22, 12], v < 65536 by decide
  h := ⟨_, _, _, _, rfl⟩
  hpKey := Or.inr ⟨_, List.length_replicate,
    ⟨1, List.mem_replicate.mpr ⟨by decide, rfl⟩, by decide⟩, rfl⟩
  serverWgPubKey := ⟨_, List.length_replicate, rfl⟩
  ports := show ∀ p ∈ [12429, 12430], 1 ≤ p ∧ p ≤ 65535 by decide
  nextClient := show 1 ≤ 3 ∧ 3 ≤ 254 by decide
  netMode := show NetMode.l3 ≠ .awg by decide
  prefixName := show "awg-server-1".toList ≠ [] by decide
  form := ⟨homeForm endpoint, rfl, rfl, rfl, rfl, rfl, generateServerErrs_homeForm h⟩

/-- A hub that is carried to the letter. -/
theorem linkCarries_homeHub : LinkCarries Eq (homeHub "hub.example".toList) := by
  refine (linkCarries_iff (shareable_homeHub (by decide))).2.mpr
    ⟨⟨by decide, by decide⟩, (by decide : PlainSubnet "10.8.0.0/24".toList), fun p hp => ?_⟩
  rcases List.mem_cons.mp hp with h | hp
  · exact HParam.proper_of_text_eq (q := .range 5 60) (show (5 : UInt32) ≠ 60 by decide) h
  rcases List.mem_cons.mp hp with h | hp
  · exact HParam.proper_of_text_eq (q := .range 100 160) (show (100 : UInt32) ≠ 160 by decide) h
  rcases List.mem_cons.mp hp with h | hp
  · exact HParam.proper_of_text_eq (q := .range 200 260) (show (200 : UInt32) ≠ 260 by decide) h
  · exact HParam.proper_of_text_eq (q := .value 4294967295) trivial (List.mem_singleton.mp hp)

/-- **A hub of the form whose link does not carry its endpoint.** -/
theorem not_linkCarries_cyrillic : Shareable (homeHub "сервер.рф".toList) ∧
    ¬ LinkCarries SameValues (homeHub "сервер.рф".toList) := by
  refine ⟨shareable_homeHub (by decide), fun h => ?_⟩
  exact absurd (fieldSafe_of_carries h).endpoint (by decide)

end Configurator

end AwgProxy
