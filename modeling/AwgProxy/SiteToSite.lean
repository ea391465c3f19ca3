import AwgProxy.Curve25519
import AwgProxy.Endpoint
import AwgProxy.EnvLines

/-!
# The Site-to-Site Setup

The configurator sets up both ends of a tunnel at once: it draws the parameters, and two key pairs,
and writes for each of the two routers the environment of its container. The first router calls, in
normal mode; the second is called, in reverse mode.

* `siteToSite_starts_iff` — which draws give environments that `main` accepts at both ends.
* `siteToSite_pair` — what `main` has read of them: the stages that were drawn, the same chain and
  header protection key at both ends, and MAC1 keys that are each other's.

What a proxy does behind `main`'s checks is not part of this: `proxy_init` still parses and
resolves the address of the other side, and binds the one to listen at.
-/

namespace AwgProxy

open Configurator Text

namespace Configurator

/-! ### The environments -/

/-- What the form says of the two sites. -/
structure SiteToSite where
  /-- The address of the second router. -/
  endpointB : List Char
  /-- The address of a router in the network of its container. -/
  vethGw : List Char
  /-- IPv6 is switched on. -/
  ipv6 : Bool
  /-- The resolver, empty for none. -/
  dnsServer : List Char
  /-- Fragments are allowed. -/
  noDf : Bool

variable (site : SiteToSite) (ap : AwgParams) (keyA keyB : List Char × List Char)

/-- The variables of both ends that `buildSiteToSiteCommands` sets after the obfuscation. -/
def keyEnvLines : List (String × List Char) :=
  [("AWG_SERVER_PUB", keyB.2), ("AWG_CLIENT_PUB", keyA.2)]

/-- The environment `buildSiteToSiteCommands` sets for the first router. -/
def sideAEnv : List (String × List Char) :=
  [("AWG_LISTEN", ":51820".toList),
    ("AWG_REMOTE", endpointJoin site.endpointB (decimal ap.port))] ++ s2sObfEnvLines ap ++
    keyEnvLines keyA keyB ++
    (if site.dnsServer = [] then [] else [("AWG_DNS", site.dnsServer)]) ++
    (if site.noDf then [("AWG_NO_DF", "1".toList)] else [])

/-- The environment `buildSiteToSiteCommands` sets for the second router. -/
def sideBEnv : List (String × List Char) :=
  [("AWG_LISTEN", (if site.ipv6 then "[::]:".toList else ":".toList) ++ decimal ap.port),
    ("AWG_REMOTE", site.vethGw ++ ':' :: decimal ap.wgListenPort),
    ("AWG_MODE", "reverse".toList)] ++ s2sObfEnvLines ap ++
    keyEnvLines keyA keyB ++ (if site.noDf then [("AWG_NO_DF", "1".toList)] else [])

end Configurator

/-! ### Templates -/

/-- A byte in hex. -/
def hexPair (b : ℕ) : List Char :=
  (if (Nat.toDigits 16 b).length < 2 then ['0'] else []) ++ Nat.toDigits 16 b

/-- A byte is written with two hex digits. -/
theorem hexPair_eq : ∀ b < 256,
    hexPair b =
        [(b / 16).digitChar, (b % 16).digitChar] ∧
      (b / 16).digitChar.toLower = (b / 16).digitChar ∧
      (b % 16).digitChar.toLower = (b % 16).digitChar := by
  decide +kernel

/-- The hex text of a list of bytes. -/
theorem hexOf_flatMap {bs : List ℕ} (hbs : ∀ b ∈ bs, b < 256) :
    HexOf (bs.flatMap hexPair) (bs.map UInt8.ofNat) := by
  induction bs with
  | nil => exact .nil
  | cons b bs ih =>
      obtain ⟨hb, hbs⟩ := List.forall_mem_cons.mp hbs
      obtain ⟨hpair, hhi, hlo⟩ := hexPair_eq b hb
      have hval : (UInt8.ofNat b).toNat = b := by
        rw [UInt8.toNat_ofNat', Nat.mod_eq_of_lt hb]
      rw [List.flatMap_cons, hpair, List.map_cons]
      refine .cons ?_ ?_ (ih hbs)
      · rw [hval, hhi]
      · rw [hval, hlo]

theorem generateCPSTemplate_eq (d : CpsDraws) :
    generateCPSTemplate d = "<b 0x".toList ++ (List.range (randomInt 2 6 d.nbytes)).flatMap
      (fun i => hexPair (randomInt 0 255 (d.bytes i))) ++ "><r ".toList ++
      decimal (randomInt 4 16 d.tail) ++ ">".toList := by
  unfold generateCPSTemplate
  rfl

/-- A template of some bytes and a tail of random ones is one the proxy reads. -/
theorem exists_cpsParse_of_bytes {bs : List ℕ} (hlen : 0 < bs.length ∧ bs.length ≤ 6)
    (hbs : ∀ b ∈ bs, b < 256) {tail : ℕ} (htail : 4 ≤ tail ∧ tail ≤ 16) :
    ∃ t, cpsParse ("<b 0x".toList ++ bs.flatMap hexPair ++ "><r ".toList ++ decimal tail ++
      ">".toList) = some t := by
  have hhex := hexOf_flatMap hbs
  have hdigit : ∀ v < 16, Nat.digitChar v ≠ '>' := by decide
  have hnotHex : '>' ∉ bs.flatMap hexPair := by
    intro hmem
    obtain ⟨b, hb, hmem⟩ := List.mem_flatMap.mp hmem
    have hlt := hbs b hb
    rw [(hexPair_eq b hlt).1, List.mem_pair] at hmem
    rcases hmem with h | h
    · exact hdigit (b / 16) (by omega) h.symm
    · exact hdigit (b % 16) (by omega) h.symm
  have hnotNum : '>' ∉ decimal tail :=
    fun hmem => absurd (isDigit_of_mem_decimal _ hmem) (by decide)
  have hnum : Numeral (decimal tail) :=
    ⟨decimal_ne_nil _, isDigit_of_mem_decimal, by rw [digitsVal_decimal]; omega,
      by rw [digitsVal_decimal]; omega⟩
  have hne : bs.flatMap hexPair ≠ [] := by
    cases bs with
    | nil => exact absurd hlen.1 (lt_irrefl 0)
    | cons b bs =>
        rw [List.flatMap_cons, (hexPair_eq b (hbs b List.mem_cons_self)).1]
        exact List.cons_ne_nil _ _
  have hblank : Blanks [' '] := by
    rintro c hc
    exact Or.inl (List.mem_singleton.mp hc)
  have htext : TemplateText ("<b 0x".toList ++ bs.flatMap hexPair ++ "><r ".toList ++
      decimal tail ++ ">".toList)
      ['b' :: ([' '] ++ '0' :: 'x' :: bs.flatMap hexPair), ['r'] ++ ([' '] ++ decimal tail)] := by
    have h1 : "<b 0x".toList = ['<', 'b', ' ', '0', 'x'] := by decide
    have h2 : "><r ".toList = ['>', '<', 'r', ' '] := by decide
    have h3 : ">".toList = ['>'] := by decide
    have hnotFirst : '>' ∉ 'b' :: ([' '] ++ '0' :: 'x' :: bs.flatMap hexPair) := by
      simpa using hnotHex
    have hnotSecond : '>' ∉ ['r'] ++ ([' '] ++ decimal tail) := by simpa using hnotNum
    have hall := TemplateText.tag hnotFirst (.tag hnotSecond .nil)
    rw [h1, h2, h3]
    simpa [List.append_assoc] using hall
  have hforms := List.Forall₂.cons (TagForm.static hblank (Or.inl rfl) hne hhex)
    (.cons (TagForm.sized .random hblank hnum) .nil)
  refine ⟨_, cpsParse_eq_some_iff.mpr ⟨_, ⟨_, _, ⟨htext, hforms, ?_, ?_, ?_, ?_⟩, rfl⟩, rfl⟩⟩
  · simp [saidTags]
  · exact (by decide : 2 ≤ cpsMaxSegments)
  · simp [saidTags]
  · simp only [saidTags, List.filterMap_cons, id_eq, List.filterMap_nil, staticLength,
      List.map_cons, List.length_map, List.length_nil, List.map_nil, List.sum_cons, List.sum_nil]
    have : 6 ≤ cpsMaxStatic := by decide
    omega

/-- A drawn template is one the proxy reads. -/
theorem exists_cpsParse_generateCPSTemplate (d : CpsDraws) :
    ∃ t, cpsParse (generateCPSTemplate d) = some t := by
  obtain ⟨hlo, hhi⟩ := randomInt_mem (by decide : 2 ≤ 6) d.nbytes
  obtain ⟨bs, hbs⟩ : ∃ bs, bs =
    (List.range (randomInt 2 6 d.nbytes)).map fun i => randomInt 0 255 (d.bytes i) := ⟨_, rfl⟩
  have hlen : 0 < bs.length ∧ bs.length ≤ 6 := by
    rw [hbs, List.length_map, List.length_range]
    omega
  have hlt : ∀ b ∈ bs, b < 256 := by
    intro b hb
    rw [hbs] at hb
    obtain ⟨i, -, rfl⟩ := List.mem_map.mp hb
    exact Nat.lt_succ_of_le (randomInt_mem (Nat.zero_le 255) (d.bytes i)).2
  rw [generateCPSTemplate_eq, ← List.flatMap_map, ← hbs]
  exact exists_cpsParse_of_bytes hlen hlt (randomInt_mem (by decide : 4 ≤ 16) d.tail)

/-! ### What is read of both environments -/

/-- The parameters are drawn, up to headers that may overlap. -/
structure DrawnParams (ap : AwgParams) : Prop where
  room : ap.stages.length ≤ awgMaxProfiles
  stages : ∀ o ∈ ap.stages, Drawn o
  junk : ap.jc ≤ intMax ∧ ap.jmin ≤ ap.jmax ∧ ap.jmax ≤ intMax
  key : ap.hpKey = [] ∨ ∃ key : Bytes, key.length = 32 ∧ ap.hpKey = btoa key

theorem DrawnParams.roomy {ap : AwgParams} (hd : DrawnParams ap) : Roomy ap :=
  ⟨hd.room, fun o ho => (hd.stages o ho).few⟩

/-- A drawn stage. -/
theorem drawn_of_generateObfLevel {level : ProtoLevel} {avoidS1 : ℕ} {d : ObfDraws}
    {o : ObfLevel} (h : generateObfLevel level avoidS1 d = some o) :
    Drawn o ∧ (o.hpKey = [] ∨ o.hpKey = btoa (List.ofFn d.key)) := by
  obtain ⟨hs1, -, h2, h3, h4, hkey, hh⟩ := of_generateObfLevel h
  obtain ⟨s1, -, ho⟩ := Option.bind_eq_some_iff.mp h
  have hcps : ∀ t ∈ o.cps.getD [], ∃ i, t = generateCPSTemplate (d.cps i) := by
    obtain rfl := Option.some.inj ho
    intro t ht
    dsimp only at ht
    split at ht
    · obtain ⟨i, -, rfl⟩ := List.mem_map.mp ht
      exact ⟨i, rfl⟩
    · cases ht
  have hfew : FewTemplates o := by
    obtain rfl := Option.some.inj ho
    have hn := (randomInt_mem (by decide : 1 ≤ 3) d.ncps).2
    rw [FewTemplates]
    dsimp only
    split
    · rw [Option.getD_some, List.length_map, List.length_range]
      exact hn.trans (by decide)
    · exact Nat.zero_le _
  refine ⟨⟨hfew, ⟨(of_drawS1_eq_some hs1).2.1, h2, h3, h4⟩, fun hne => ?_, ?_, ?_⟩, ?_⟩
  · obtain ⟨k1, k2, k3, k4⟩ := hkey hne
    exact ⟨by omega, by omega, by omega, k4⟩
  · rw [hh]
    intro s hs
    split at hs
    · obtain ⟨r, hr, rfl⟩ := List.mem_map.mp hs
      obtain ⟨k, hk, -⟩ := exists_rangesLoop d.ranges 99 0
      rw [hk, drawRanges, List.mem_ofFn] at hr
      obtain ⟨i, rfl⟩ := hr
      exact ⟨by simp [rangeText], _, parseHrange_rangeText _ (randomHRange_mem _)⟩
    · obtain ⟨i, rfl⟩ := List.mem_ofFn.mp hs
      exact ⟨decimal_ne_nil _, _, parseHrange_decimal _⟩
  · intro t ht
    obtain ⟨i, rfl⟩ := hcps t ht
    exact exists_cpsParse_generateCPSTemplate _
  · obtain rfl := Option.some.inj ho
    dsimp only
    split
    · exact Or.inr rfl
    · exact Or.inl rfl

/-- Drawn parameters. -/
theorem drawnParams_of_generateChainParams {level : ProtoLevel} {compat : Bool}
    {d : ChainDraws} {ap : AwgParams} (h : generateChainParams level compat d = some ap) :
    DrawnParams ap := by
  obtain ⟨-, -, hlength, hall⟩ := generateChainParams_spec h
  have hlevels : (chainLevels level compat).length ≤ awgMaxProfiles := by
    cases level <;> cases compat <;> decide
  have hdrawn : ∀ k (hk : k < ap.stages.length), ∃ l avoidS1,
      generateObfLevel l avoidS1 (d.stage k) = some ap.stages[k] := by
    intro k hk
    obtain ⟨avoid, hgen⟩ := hall k _ _ (List.getElem?_eq_getElem (hlength ▸ hk))
      (List.getElem?_eq_getElem hk)
    exact ⟨_, avoid, hgen⟩
  refine ⟨hlength ▸ hlevels, fun o ho => ?_, ?_, ?_⟩
  · obtain ⟨k, hk, rfl⟩ := List.getElem_of_mem ho
    obtain ⟨l, avoid, hgen⟩ := hdrawn k hk
    exact (drawn_of_generateObfLevel hgen).1
  · obtain ⟨ap₀, hprimary, hattach⟩ := Option.bind_eq_some_iff.mp h
    obtain ⟨o, -, hap⟩ := Option.bind_eq_some_iff.mp hprimary
    obtain rfl := Option.some.inj hap
    have h1 := (randomInt_mem (by decide : 3 ≤ 8) d.jc).2
    have h2 := (randomInt_mem (by decide : 50 ≤ 250) d.jmin).2
    have h3 := randomInt_mem (by decide : 500 ≤ 1000) d.jmax
    have hmax : 1000 ≤ intMax := by decide
    -- the chain leaves the junk as it is
    have hjunk : ap.jc = randomInt 3 8 d.jc ∧ ap.jmin = randomInt 50 250 d.jmin ∧
        ap.jmax = randomInt 500 1000 d.jmax := by
      cases compat with
      | false =>
          obtain rfl := Option.some.inj hattach
          exact ⟨rfl, rfl, rfl⟩
      | true =>
          obtain ⟨chain, -, hap⟩ := Option.bind_eq_some_iff.mp hattach
          obtain rfl := Option.some.inj hap
          exact ⟨rfl, rfl, rfl⟩
    obtain ⟨hjc, hjmin, hjmax⟩ := hjunk
    omega
  · obtain ⟨l, avoid, hgen⟩ := hdrawn 0 (Nat.succ_pos _)
    rcases (drawn_of_generateObfLevel hgen).2 with hnone | hkey
    · exact Or.inl hnone
    · exact Or.inr ⟨_, List.length_ofFn, hkey⟩

/-- The variables of an end are set as they were drawn. -/
structure SetsSite (h : Host) (ap : AwgParams) (pubA pubB : Bytes) : Prop where
  stages : ∀ k < awgMaxProfiles, ∀ suffix ∈ stageSuffixes, h.value (fbName k suffix) =
    (ap.stages[k]?).bind fun o => ((stageVars o).lookup suffix).filter (· ≠ [])
  jc : h.value "AWG_JC" = some (decimal ap.jc)
  jmin : h.value "AWG_JMIN" = some (decimal ap.jmin)
  jmax : h.value "AWG_JMAX" = some (decimal ap.jmax)
  hpKey : h.value "AWG_HEADER_PROTECTION_KEY" = if ap.hpKey = [] then none else some ap.hpKey
  serverPub : h.value "AWG_SERVER_PUB" = some (btoa pubB)
  clientPub : h.value "AWG_CLIENT_PUB" = some (btoa pubA)
  cookies : h.value "AWG_DISABLE_COOKIES" = none
  listen : (h.value "AWG_LISTEN").isSome = true
  remote : (h.value "AWG_REMOTE").isSome = true
  mode : readMode h ≠ .server

section

variable {h : Host} {ap : AwgParams} {pubA pubB : Bytes} {k : ℕ}

theorem SetsSite.setsStage (hs : SetsSite h ap pubA pubB) (hk : k < awgMaxProfiles) {o : ObfLevel}
    (ho : ap.stages[k]? = some o) : SetsStage h k o := by
  intro suffix hsuffix
  rw [hs.stages k hk suffix hsuffix, ho]
  rfl

/-- A stage is set when there is one. -/
theorem SetsSite.h1_eq_none_iff (hs : SetsSite h ap pubA pubB) (hd : DrawnParams ap)
    (hk : k < awgMaxProfiles) : h.value (fbName k "H1") = none ↔ ap.stages.length ≤ k := by
  rw [hs.stages k hk "H1" (by decide)]
  rcases Nat.lt_or_ge k ap.stages.length with hlt | hge
  · have ho := hd.stages _ (List.getElem_mem hlt)
    obtain ⟨-, -, -, -, -, -, lh1, -⟩ := lookup_stageVars ho.few
    obtain ⟨hne, -⟩ := ho.headers _ List.mem_cons_self
    rw [List.getElem?_eq_getElem hlt, Option.bind_some, lh1,
      Option.filter_some_pos (by simpa using hne)]
    exact iff_of_false (by rintro ⟨⟩) (not_le.mpr hlt)
  · rw [List.getElem?_eq_none hge]
    exact iff_of_true rfl hge

theorem btoa_ne_nil {key : Bytes} (hlen : key.length = 32) : btoa key ≠ [] := by
  intro heq
  have hread := decodeBase64Key_btoa hlen
  rw [heq, show decodeBase64Key [] = none by decide +kernel] at hread
  cases hread

/-- The header protection key is the one that was drawn. -/
theorem SetsSite.exists_hpKey (hs : SetsSite h ap pubA pubB) (hd : DrawnParams ap) :
    ∃ key, readHpKey h = .ok key ∧ (keySet key = true → ap.hpKey ≠ []) ∧
      ∀ key' : Bytes, key'.length = 32 → ap.hpKey = btoa key' → key = key' := by
  rw [readHpKey, hs.hpKey]
  rcases hd.key with hnone | ⟨key, hlen, hkey⟩
  · rw [if_pos hnone]
    exact ⟨zeroKey, rfl, fun hset => absurd hset (by decide),
      fun key' hlen heq => absurd (heq.symm.trans hnone) (btoa_ne_nil hlen)⟩
  · have hread := decodeKey32_of_isBase64 hlen (isBase64_textBytes key)
    have hne := btoa_ne_nil hlen
    rw [if_neg (hkey ▸ hne), hkey]
    refine ⟨key, ?_, fun _ => hne, fun key' hlen' heq => ?_⟩
    · simp only [hread]
    · have hread' := decodeBase64Key_btoa hlen'
      rw [← heq, decodeBase64Key_btoa hlen] at hread'
      exact Option.some.inj hread'

/-- Every variable a proxy needs is set. -/
theorem SetsSite.required (hs : SetsSite h ap pubA pubB) (hd : DrawnParams ap) :
    ∀ name ∈ requiredVars, (h.value name).isSome = true := by
  have ho := hd.stages ap.toObfLevel List.mem_cons_self
  have hset := hs.setsStage (o := ap.toObfLevel) (by decide : 0 < awgMaxProfiles) rfl
  obtain ⟨ls1, ls2, -, -, -, -, lh1, lh2, lh3, lh4⟩ := lookup_stageVars ho.few
  have hsome : ∀ suffix ∈ stageSuffixes, ∀ s, (stageVars ap.toObfLevel).lookup suffix = some s →
      s ≠ [] → (h.value (fbName 0 suffix)).isSome = true := by
    intro suffix hsuffix s hlook hne
    rw [hset suffix hsuffix, hlook, Option.filter_some_pos (by simpa using hne)]
    rfl
  have hheader : ∀ suffix ∈ stageSuffixes, ∀ s ∈ [ap.h1, ap.h2, ap.h3, ap.h4],
      (stageVars ap.toObfLevel).lookup suffix = some s →
      (h.value (fbName 0 suffix)).isSome = true :=
    fun suffix hsuffix s hmem hlook => hsome suffix hsuffix s hlook (ho.headers s hmem).1
  simp only [requiredVars, List.forall_mem_cons]
  refine ⟨hs.listen, hs.remote, ?_, ?_, ?_, hsome "S1" (by decide) _ ls1 (decimal_ne_nil _),
    hsome "S2" (by decide) _ ls2 (decimal_ne_nil _), hheader "H1" (by decide) _ (by simp) lh1,
    hheader "H2" (by decide) _ (by simp) lh2, hheader "H3" (by decide) _ (by simp) lh3,
    hheader "H4" (by decide) _ (by simp) lh4, ?_, List.forall_mem_nil _⟩
  · rw [hs.jc]
    rfl
  · rw [hs.jmin]
    rfl
  · rw [hs.jmax]
    rfl
  · rw [hs.serverPub]
    rfl

/-- The first stage alone takes the header protection key. -/
theorem SetsSite.key_of_first {o : ObfLevel} {hpKeySet : Bool}
    (hkey : hpKeySet = true → ap.hpKey ≠ []) (ho : ap.stages[k]? = some o) :
    k = 0 → hpKeySet = true → o.hpKey ≠ [] := by
  rintro rfl hset
  obtain rfl := Option.some.inj ho
  exact hkey hset

/-- The chain that is read is as long as the one that was drawn. -/
theorem SetsSite.profileCount_eq (hs : SetsSite h ap pubA pubB) (hd : DrawnParams ap)
    {cfg : MainConfig} (hw : MainWritten h cfg) : cfg.profileCount = ap.stages.length := by
  have hroom := hd.room
  obtain ⟨hpos, hle⟩ := hw.count
  refine le_antisymm ?_ ?_
  · by_contra hlt
    have hk : cfg.profileCount - 1 < awgMaxProfiles := by omega
    obtain ⟨s, hset, -⟩ := (hw.stages ⟨cfg.profileCount - 1, hk⟩ (Nat.sub_one_lt hpos.ne')).h1
    rw [(hs.h1_eq_none_iff hd hk).mpr (by omega)] at hset
    cases hset
  · by_contra hlt
    have hk : cfg.profileCount < awgMaxProfiles := by omega
    exact hlt ((hs.h1_eq_none_iff hd hk).mp (hw.ends hk))

/-- **`main` accepts** the environment of an end of a site when it accepts all the stages. -/
theorem SetsSite.exists_mainConfig_iff (hs : SetsSite h ap pubA pubB) (hd : DrawnParams ap)
    (hA : pubA.length = 32) (hB : pubB.length = 32) :
    (∃ cfg, mainConfig h = .ok cfg) ↔ ∀ o ∈ ap.stages, Accepts o := by
  have hroom := hd.room
  obtain ⟨key, hread, hkey, -⟩ := hs.exists_hpKey hd
  have hstage : ∀ (k : Fin awgMaxProfiles) (hk : (k : ℕ) < ap.stages.length),
      (∃ pr, StageWritten h (keySet key) k pr) ↔ Accepts ap.stages[k] := by
    intro k hk
    have ho := List.getElem?_eq_getElem hk
    exact (hs.setsStage k.isLt ho).exists_stageWritten_iff (hd.stages _ (List.getElem_mem hk))
      (SetsSite.key_of_first hkey ho)
  constructor
  · rintro ⟨cfg, hcfg⟩ o ho
    have hw := mainConfig_eq_ok_iff.mp hcfg
    obtain ⟨k, hk, rfl⟩ := List.getElem_of_mem ho
    have hlt : k < awgMaxProfiles := lt_of_lt_of_le hk hroom
    have hstages := hw.stages ⟨k, hlt⟩ ((hs.profileCount_eq hd hw).symm ▸ hk)
    rw [Except.ok.inj (hw.hpKey.symm.trans hread)] at hstages
    exact (hstage ⟨k, hlt⟩ hk).mp ⟨_, hstages⟩
  · intro hacc
    have hex : ∀ k : Fin awgMaxProfiles, ∃ pr, (k : ℕ) < ap.stages.length →
        StageWritten h (keySet key) k pr := by
      intro k
      by_cases hk : (k : ℕ) < ap.stages.length
      · obtain ⟨pr, hpr⟩ := (hstage k hk).mpr (hacc _ (List.getElem_mem hk))
        exact ⟨pr, fun _ => hpr⟩
      · exact ⟨Configurator.zeroProfile, fun h => absurd h hk⟩
    choose prs hprs using hex
    obtain ⟨hjc, hjmin, hjmax⟩ := hd.junk
    have hnum : ∀ name n, n ≤ intMax → h.value name = some (decimal n) → h.Numbers name n :=
      fun name n hn hval => ⟨_, hval, parseIntStr?_decimal hn⟩
    have hclient : checkClientPub h = .ok () := by
      rw [checkClientPub, hs.clientPub, if_neg (by simp), if_neg (by simp)]
    have hjunk : (0 : ℤ) < ap.jc → (ap.jmin : ℤ) ≤ ap.jmax := fun _ => by omega
    have hpub : readClientPub h = .ok pubA := by
      rw [readClientPub, hs.clientPub]
      exact readPub_eq_ok_iff.mpr (decodeBase64Key_btoa hA)
    have hpeers : readPeers h = .ok .empty := by
      rw [readPeers, if_neg hs.mode]
    have hcookies : readBool h "AWG_DISABLE_COOKIES" = .ok false := by
      rw [readBool, hs.cookies]
    have hends : ap.stages.length < awgMaxProfiles →
        h.value (fbName ap.stages.length "H1") = none :=
      fun hlt => (hs.h1_eq_none_iff hd hlt).mpr le_rfl
    exact exists_mainConfig (hs.required hd) hclient (hnum _ _ hjc hs.jc)
      (hnum _ _ (hjmin.trans hjmax) hs.jmin) (hnum _ _ hjmax hs.jmax) hjunk
      ⟨_, hs.serverPub, decodeBase64Key_btoa hB⟩ hpub hpeers hread hcookies
      ⟨Nat.succ_pos _, hroom⟩ hprs hends

end

/-! ### The two environments -/

/-- The variables that differ between the ends. -/
def siteVars : List String :=
  ["AWG_LISTEN", "AWG_REMOTE", "AWG_MODE", "AWG_DNS", "AWG_NO_DF"]

section

variable {ap : AwgParams} {pre post : List (String × List Char)} {privA privB : Bytes}

/-- The public key of an end. -/
def pubOf (priv : Bytes) : Bytes := curve25519ScalarMult priv basepoint

theorem length_pubOf (priv : Bytes) : (pubOf priv).length = 32 := by
  rw [pubOf, curve25519ScalarMult, bytesOf_eq, Bytes.length_leBytes]

/-- The lines of an end, looked up behind and ahead of those that differ. -/
theorem lookup_site (hpre : ∀ v ∈ pre, v.1 ∈ siteVars)
    (hpost : ∀ v ∈ post, v.1 ∈ siteVars) {name : String} (hname : name ∉ siteVars) :
    (pre ++ s2sObfEnvLines ap ++ keyEnvLines (generateWgKeyPair privA) (generateWgKeyPair privB) ++
        post).lookup name =
      ((s2sObfEnvLines ap).lookup name).or
        ((keyEnvLines (generateWgKeyPair privA) (generateWgKeyPair privB)).lookup name) := by
  have hnone : ∀ vars : List (String × List Char), (∀ v ∈ vars, v.1 ∈ siteVars) →
      vars.lookup name = none :=
    fun vars hvars => lookup_eq_none_of_notMem fun v hv heq => hname (heq ▸ hvars v hv)
  rw [List.lookup_append, List.lookup_append, List.lookup_append, hnone pre hpre,
    hnone post hpost, Option.none_or, Option.or_none]

/-- **The lines of an end** set the site. -/
theorem setsSite_of_lines (hd : DrawnParams ap) (hpre : ∀ v ∈ pre, v.1 ∈ siteVars)
    (hpost : ∀ v ∈ post, v.1 ∈ siteVars) {h : Host}
    (hh : h = .ofVars (pre ++ s2sObfEnvLines ap ++
      keyEnvLines (generateWgKeyPair privA) (generateWgKeyPair privB) ++ post))
    (hlisten : (h.value "AWG_LISTEN").isSome = true)
    (hremote : (h.value "AWG_REMOTE").isSome = true) (hmode : readMode h ≠ .server) :
    SetsSite h ap (pubOf privA) (pubOf privB) := by
  have hval : ∀ name ∉ siteVars, h.value name = (((s2sObfEnvLines ap).lookup name).or
      ((keyEnvLines (generateWgKeyPair privA) (generateWgKeyPair privB)).lookup name)).filter
        (· ≠ []) := by
    intro name hname
    rw [Host.value, hh, ← lookup_site hpre hpost hname]
    rfl
  have hneA : btoa (curve25519ScalarMult privA basepoint) ≠ [] := btoa_ne_nil (length_pubOf privA)
  have hneB : btoa (curve25519ScalarMult privB basepoint) ≠ [] := btoa_ne_nil (length_pubOf privB)
  have hplain : ∀ name ∈ plainVars, (s2sObfEnvLines ap).lookup name = _ :=
    fun _ hname => lookup_s2sObfEnvLines_plain hd.roomy hname
  refine ⟨fun k hk suffix hsuffix => ?_, ?_, ?_, ?_, ?_, ?_, ?_, ?_, hlisten, hremote, hmode⟩
  · have hnotMem := fbName_notMem_plainVars k hk suffix hsuffix
    have hkeys : (keyEnvLines (generateWgKeyPair privA) (generateWgKeyPair privB)).lookup
        (fbName k suffix) = none := by
      refine lookup_eq_none_of_notMem fun v hv heq => hnotMem ?_
      rw [heq]
      simp only [keyEnvLines, List.mem_cons, List.not_mem_nil, or_false] at hv
      rcases hv with rfl | rfl <;> simp [plainVars]
    have hsite : fbName k suffix ∉ siteVars :=
      fun hmem => hnotMem ((by decide : siteVars ⊆ plainVars) hmem)
    rw [hval _ hsite, lookup_s2sObfEnvLines hd.roomy hk hsuffix, hkeys, Option.or_none]
    cases ap.stages[k]? <;> rfl
  · rw [hval _ (by decide), hplain _ (by decide)]
    simp [decimal_ne_nil]
  · rw [hval _ (by decide), hplain _ (by decide)]
    simp [List.lookup_cons, decimal_ne_nil]
  · rw [hval _ (by decide), hplain _ (by decide)]
    simp [List.lookup_cons, decimal_ne_nil]
  · rw [hval _ (by decide), hplain _ (by decide)]
    split
    · simp [List.lookup_cons, keyEnvLines]
    · simp [List.lookup_cons, keyEnvLines, *]
  · rw [hval _ (by decide), hplain _ (by decide)]
    split <;> simp [List.lookup_cons, keyEnvLines, generateWgKeyPair, pubOf, hneB]
  · rw [hval _ (by decide), hplain _ (by decide)]
    split <;> simp [List.lookup_cons, keyEnvLines, generateWgKeyPair, pubOf, hneA]
  · rw [hval _ (by decide), hplain _ (by decide)]
    split <;> simp [List.lookup_cons, keyEnvLines]

end

/-- The environments of the two routers. -/
def sideA (site : SiteToSite) (ap : AwgParams) (privA privB : Bytes) : Host :=
  .ofVars (sideAEnv site ap (generateWgKeyPair privA) (generateWgKeyPair privB))

def sideB (site : SiteToSite) (ap : AwgParams) (privA privB : Bytes) : Host :=
  .ofVars (sideBEnv site ap (generateWgKeyPair privA) (generateWgKeyPair privB))

section

variable {ap : AwgParams} {site : SiteToSite} {privA privB : Bytes}

theorem endpointJoin_ne_nil (host port : List Char) : endpointJoin host port ≠ [] := by
  rw [endpointJoin]
  exact List.append_ne_nil_of_right_ne_nil _ (List.cons_ne_nil _ _)

theorem value_ofVars (vars : List (String × List Char)) (name : String) :
    (Host.ofVars vars).value name = (vars.lookup name).filter (· ≠ []) :=
  rfl

/-- The first end calls. -/
theorem readMode_sideA (site : SiteToSite) (privA privB : Bytes) (hd : DrawnParams ap) :
    readMode (sideA site ap privA privB) = .normal := by
  have hnone : (sideAEnv site ap (generateWgKeyPair privA) (generateWgKeyPair privB)).lookup
      "AWG_MODE" = none := by
    rw [sideAEnv, List.lookup_append, List.lookup_append, List.lookup_append, List.lookup_append,
      lookup_s2sObfEnvLines_plain hd.roomy (by decide)]
    split <;> split <;> split <;> simp [List.lookup_cons, keyEnvLines]
  rw [readMode, sideA, value_ofVars, hnone]
  rfl

/-- The second end is called. -/
theorem readMode_sideB (site : SiteToSite) (ap : AwgParams) (privA privB : Bytes) :
    readMode (sideB site ap privA privB) = .reverse := by
  have hsome : (sideBEnv site ap (generateWgKeyPair privA) (generateWgKeyPair privB)).lookup
      "AWG_MODE" = some "reverse".toList := by
    rw [sideBEnv, List.lookup_append, List.lookup_append, List.lookup_append]
    rfl
  rw [readMode, sideB, value_ofVars, hsome]
  rfl

theorem setsSite_sideA (site : SiteToSite) (privA privB : Bytes) (hd : DrawnParams ap) :
    SetsSite (sideA site ap privA privB) ap (pubOf privA) (pubOf privB) := by
  have hpre : ∀ v ∈ [("AWG_LISTEN", ":51820".toList),
      ("AWG_REMOTE", endpointJoin site.endpointB (decimal ap.port))], v.1 ∈ siteVars := by
    simp [siteVars]
  have hpost : ∀ v ∈ (if site.dnsServer = [] then [] else [("AWG_DNS", site.dnsServer)]) ++
      if site.noDf then [("AWG_NO_DF", "1".toList)] else [], v.1 ∈ siteVars := by
    intro v hv
    rw [List.mem_append] at hv
    rcases hv with hv | hv <;> split at hv <;> simp at hv <;> simp [hv, siteVars]
  refine setsSite_of_lines hd hpre hpost ?_ ?_ ?_ ?_
  · rw [sideA, sideAEnv, ← List.append_assoc]
  · rfl
  · rw [sideA, value_ofVars, sideAEnv]
    simp [List.lookup_cons, endpointJoin_ne_nil]
  · rw [readMode_sideA site privA privB hd]
    rintro ⟨⟩

theorem setsSite_sideB (site : SiteToSite) (privA privB : Bytes) (hd : DrawnParams ap) :
    SetsSite (sideB site ap privA privB) ap (pubOf privA) (pubOf privB) := by
  have hpre : ∀ v ∈ [("AWG_LISTEN", (if site.ipv6 then "[::]:".toList else ":".toList) ++
        decimal ap.port),
      ("AWG_REMOTE", site.vethGw ++ ':' :: decimal ap.wgListenPort),
      ("AWG_MODE", "reverse".toList)], v.1 ∈ siteVars := by
    simp [siteVars]
  have hpost : ∀ v ∈ if site.noDf then [("AWG_NO_DF", "1".toList)] else [], v.1 ∈ siteVars := by
    intro v hv
    split at hv <;> simp at hv
    simp [hv, siteVars]
  refine setsSite_of_lines hd hpre hpost rfl ?_ ?_ ?_
  · rw [sideB, value_ofVars, sideBEnv]
    simp [decimal_ne_nil]
  · rw [sideB, value_ofVars, sideBEnv]
    simp [List.lookup_cons]
  · rw [readMode_sideB site ap privA privB]
    rintro ⟨⟩

end

/-! ### Both ends -/

section

variable {level : ProtoLevel} {compat : Bool} {d : ChainDraws} {ap : AwgParams}
  {site : SiteToSite} {privA privB : Bytes} {cfgA cfgB : MainConfig}

/-- The stages are accepted when their headers are apart. -/
theorem accepts_stages_iff (hap : generateChainParams level compat d = some ap) :
    (∀ o ∈ ap.stages, Accepts o) ↔
      ∀ n l, (chainLevels level compat)[n]? = some l → HeadersApart l (d.stage n) := by
  obtain ⟨-, -, hlength, hall⟩ := generateChainParams_spec hap
  constructor
  · intro hacc n l hl
    have hn : n < ap.stages.length := hlength ▸ (List.getElem?_eq_some_iff.mp hl).1
    obtain ⟨avoid, hgen⟩ := hall n l _ hl (List.getElem?_eq_getElem hn)
    exact (accepts_generateObfLevel_iff hgen).mp (hacc _ (List.getElem_mem hn))
  · intro happart o ho
    obtain ⟨k, hk, rfl⟩ := List.getElem_of_mem ho
    have hl := List.getElem?_eq_getElem (hlength ▸ hk : k < (chainLevels level compat).length)
    obtain ⟨avoid, hgen⟩ := hall k _ _ hl (List.getElem?_eq_getElem hk)
    exact (accepts_generateObfLevel_iff hgen).mpr (happart k _ hl)

/-- **`main` accepts both environments** exactly with draws that give each stage headers that are
apart. -/
theorem siteToSite_starts_iff (hap : generateChainParams level compat d = some ap)
    (site : SiteToSite) (privA privB : Bytes) :
    ((∃ cfg, mainConfig (sideA site ap privA privB) = .ok cfg) ↔
        ∀ n l, (chainLevels level compat)[n]? = some l → HeadersApart l (d.stage n)) ∧
      ((∃ cfg, mainConfig (sideB site ap privA privB) = .ok cfg) ↔
        ∀ n l, (chainLevels level compat)[n]? = some l → HeadersApart l (d.stage n)) := by
  have hd := drawnParams_of_generateChainParams hap
  rw [← accepts_stages_iff hap]
  exact ⟨(setsSite_sideA site privA privB hd).exists_mainConfig_iff hd (length_pubOf privA)
      (length_pubOf privB),
    (setsSite_sideB site privA privB hd).exists_mainConfig_iff hd (length_pubOf privA)
      (length_pubOf privB)⟩

/-- A site, and draws for four stages with a header protection key. -/
def exampleSite : SiteToSite where
  endpointB := "192.0.2.1".toList
  vethGw := "172.16.0.1".toList
  ipv6 := true
  dnsServer := []
  noDf := false

def keyedDraws : ChainDraws :=
  { farDraws with stage := fun n => { farDraws.stage n with key := fun i => .ofNat i } }

theorem headersApart_keyedDraws (n : ℕ) (l : ProtoLevel) : HeadersApart l (keyedDraws.stage n) :=
  headersApart_drawsOfS1 (fun n => 20 * .ofNat n) n l

/-- Its two environments are accepted. -/
theorem siteToSite_starts_iff_example : ∃ ap, generateChainParams .v3 true keyedDraws = some ap ∧
    (∃ cfg, mainConfig (sideA exampleSite ap [1] [2]) = .ok cfg) ∧
      ∃ cfg, mainConfig (sideB exampleSite ap [1] [2]) = .ok cfg := by
  obtain ⟨ap, hap⟩ := Option.isSome_iff_exists.mp
    (by decide : (generateChainParams .v3 true keyedDraws).isSome = true)
  obtain ⟨hA, hB⟩ := siteToSite_starts_iff hap exampleSite [1] [2]
  exact ⟨ap, hap, hA.mpr fun n l _ => headersApart_keyedDraws n l,
    hB.mpr fun n l _ => headersApart_keyedDraws n l⟩

/-- The two environments share the tunnel. -/
theorem sharesTunnel_siteToSite (site : SiteToSite) (privA privB : Bytes) (hd : DrawnParams ap) :
    (sideA site ap privA privB).SharesTunnel (sideB site ap privA privB) := by
  have hA := setsSite_sideA site privA privB hd
  have hB := setsSite_sideB site privA privB hd
  exact ⟨fun k hk suffix hs =>
      (hB.stages k hk suffix hs).trans (hA.stages k hk suffix hs).symm,
    hB.hpKey.trans hA.hpKey.symm, hB.serverPub.trans hA.serverPub.symm,
    hB.clientPub.trans hA.clientPub.symm⟩

/-- Stages behind the first are drawn without a header protection key. -/
theorem hpKey_eq_nil_of_chain (hap : generateChainParams level compat d = some ap) {k : ℕ}
    {o : ObfLevel} (ho : ap.stages[k + 1]? = some o) : o.hpKey = [] := by
  obtain ⟨-, -, hlength, hall⟩ := generateChainParams_spec hap
  have hk : k + 1 < (chainLevels level compat).length :=
    hlength ▸ (List.getElem?_eq_some_iff.mp ho).1
  obtain ⟨l, hl⟩ : ∃ l, (chainLevels level compat)[k + 1]? = some l :=
    ⟨_, List.getElem?_eq_getElem hk⟩
  have hlow : ∀ l ∈ (chainLevels level compat).tail, l ≠ .v3 := by
    cases level <;> cases compat <;> decide
  obtain ⟨avoid, hgen⟩ := hall (k + 1) l o hl ho
  obtain ⟨s1, -, heq⟩ := Option.bind_eq_some_iff.mp hgen
  rw [← Option.some.inj heq]
  refine if_neg (hlow l (List.mem_of_getElem? (i := k) ?_))
  rw [List.getElem?_tail]
  exact hl

/-- What `main` has read at both ends. -/
structure SitePair (ap : AwgParams) (pubA pubB : Bytes) (cfgA cfgB : MainConfig) : Prop where
  /-- The first calls, the second is called. -/
  modes : cfgA.mode = .normal ∧ cfgB.mode = .reverse
  /-- The chain is the one that was drawn. -/
  count : cfgA.profileCount = ap.stages.length
  stages : ∀ (k : Fin awgMaxProfiles) o, ap.stages[(k : ℕ)]? = some o →
    ReadsAs o (cfgA.profiles k)
  /-- It is the same at both ends. -/
  profiles : cfgB.profiles = cfgA.profiles
  counts : cfgB.profileCount = cfgA.profileCount
  hpKey : cfgB.hpKey = cfgA.hpKey
  maxS4 : cfgB.maxS4 = cfgA.maxS4
  /-- What goes to an end is signed for it. -/
  toB : cfgA.mac1keyOut = mac1KeyOf pubB ∧ cfgB.mac1keyIn = mac1KeyOf pubB
  toA : cfgB.mac1keyOut = mac1KeyOf pubA ∧ cfgA.mac1keyIn = mac1KeyOf pubA

/-- The chain takes header protection where a key was drawn. -/
theorem SetsSite.hpOn_iff {h : Host} {pubA pubB : Bytes} {cfg : MainConfig}
    (hs : SetsSite h ap pubA pubB) (hap : generateChainParams level compat d = some ap)
    (hzero : ap.hpKey ≠ btoa zeroKey) (hw : MainWritten h cfg) {k : Fin awgMaxProfiles}
    {o : ObfLevel} (ho : ap.stages[(k : ℕ)]? = some o)
    (hstage : StageWritten h (keySet cfg.hpKey) k (cfg.profiles k)) :
    (cfg.profiles k).hpOn = true ↔ o.hpKey ≠ [] := by
  have hd := drawnParams_of_generateChainParams hap
  have hset := hs.setsStage k.isLt ho
  have hprot := hstage.hp
  obtain ⟨n, hn⟩ : ∃ n, n = (k : ℕ) := ⟨_, rfl⟩
  rw [← hn] at ho hset hprot
  rw [Host.Protects] at hprot
  cases n with
  | zero =>
      obtain rfl := Option.some.inj ho
      obtain ⟨key, hread, hne, hkey⟩ := hs.exists_hpKey hd
      rw [if_pos rfl, Except.ok.inj (hw.hpKey.symm.trans hread)] at hprot
      rw [hprot]
      refine ⟨hne, fun hsome => ?_⟩
      rcases hd.key with hnone | ⟨key', hlen, heq⟩
      · exact absurd hnone hsome
      · rw [hkey key' hlen heq, keySet]
        exact decide_eq_true fun hkz => hzero (hkz ▸ heq)
  | succ n =>
      rw [if_neg (Nat.succ_ne_zero n)] at hprot
      obtain ⟨v, hv, hon, -⟩ := hprot
      have hnone : readInt h (fbName (n + 1) "HP") = .ok 0 := by
        obtain ⟨-, -, -, -, lhp, -⟩ := lookup_stageVars (hd.stages o (List.mem_of_getElem? ho)).few
        rw [readInt, hset "HP" (by decide), lhp]
        rfl
      rw [hon, Except.ok.inj (hv.symm.trans hnone), hpKey_eq_nil_of_chain hap ho]
      exact iff_of_false (by decide) fun h => h rfl

/-- The public keys are those of the ends. -/
theorem SetsSite.pubs_eq {h : Host} {pubA pubB : Bytes} {cfg : MainConfig}
    (hs : SetsSite h ap pubA pubB) (hw : MainWritten h cfg) (hA : pubA.length = 32)
    (hB : pubB.length = 32) : cfg.serverPub = pubB ∧ cfg.clientPub = pubA := by
  obtain ⟨s, hval, hdec⟩ := hw.serverPub
  rw [hs.serverPub] at hval
  obtain rfl := Option.some.inj hval
  have hpub := hw.clientPub
  rw [readClientPub, hs.clientPub] at hpub
  have hdec' := readPub_eq_ok_iff.mp hpub
  rw [decodeBase64Key_btoa hB] at hdec
  rw [decodeBase64Key_btoa hA] at hdec'
  exact ⟨(Option.some.inj hdec).symm, (Option.some.inj hdec').symm⟩

/-- **Both ends are configured for one tunnel**, unless the key that was drawn is all zeros, which
no end takes for one. -/
theorem siteToSite_pair (hap : generateChainParams level compat d = some ap)
    (hzero : ap.hpKey ≠ btoa zeroKey)
    (hA : mainConfig (sideA site ap privA privB) = .ok cfgA)
    (hB : mainConfig (sideB site ap privA privB) = .ok cfgB) :
    SitePair ap (pubOf privA) (pubOf privB) cfgA cfgB := by
  have hd := drawnParams_of_generateChainParams hap
  have hsA := setsSite_sideA site privA privB hd
  have hshare := sharesTunnel_siteToSite site privA privB hd
  have hwA := mainConfig_eq_ok_iff.mp hA
  have hwB := mainConfig_eq_ok_iff.mp hB
  obtain ⟨houtA, hinB, houtB, hinA⟩ :=
    mac1keys_of_sharesTunnel hshare hwA hwB (readMode_sideA site privA privB hd)
      (readMode_sideB site ap privA privB)
  obtain ⟨hserver, hclient⟩ := hsA.pubs_eq hwA (length_pubOf privA) (length_pubOf privB)
  rw [hserver] at houtA hinB
  rw [hclient] at houtB hinA
  obtain ⟨hprofiles, hcounts⟩ := chain_of_sharesTunnel hshare hwA hwB
  have hcount := hsA.profileCount_eq hd hwA
  refine ⟨⟨hwA.mode.trans (readMode_sideA site privA privB hd),
      hwB.mode.trans (readMode_sideB site ap privA privB)⟩, hcount, fun k o ho => ?_, hprofiles,
    hcounts, hpKey_of_sharesTunnel hshare hwA hwB, ?_, ⟨houtA, hinB⟩, houtB, hinA⟩
  · have hk : (k : ℕ) < cfgA.profileCount := by
      rw [hcount]
      exact (List.getElem?_eq_some_iff.mp ho).1
    have hstage := hwA.stages k hk
    exact (hsA.setsStage k.isLt ho).readsAs (hd.stages o (List.mem_of_getElem? ho)) hstage
      (hsA.hpOn_iff hap hzero hwA ho hstage)
  · have hmaxA := congrArg AwgConfig.maxS4 hwA.chain
    have hmaxB := congrArg AwgConfig.maxS4 hwB.chain
    rw [← hmaxA, ← hmaxB, configComputeMaxS4, configComputeMaxS4]
    dsimp only
    rw [hprofiles, hcounts]

/-- The two ends of the site. -/
theorem siteToSite_pair_example : ∃ ap cfgA cfgB,
    generateChainParams .v3 true keyedDraws = some ap ∧
      SitePair ap (pubOf [1]) (pubOf [2]) cfgA cfgB := by
  have hkey : (generateChainParams .v3 true keyedDraws).map
      (fun ap => decide (ap.hpKey ≠ btoa zeroKey)) = some true := by
    decide +kernel
  obtain ⟨ap, hap, hne⟩ := Option.map_eq_some_iff.mp hkey
  have hd := drawnParams_of_generateChainParams hap
  have hacc := (accepts_stages_iff hap).mpr fun n l _ => headersApart_keyedDraws n l
  obtain ⟨cfgA, hA⟩ := ((setsSite_sideA exampleSite [1] [2] hd).exists_mainConfig_iff hd
    (length_pubOf [1]) (length_pubOf [2])).mpr hacc
  obtain ⟨cfgB, hB⟩ := ((setsSite_sideB exampleSite [1] [2] hd).exists_mainConfig_iff hd
    (length_pubOf [1]) (length_pubOf [2])).mpr hacc
  exact ⟨ap, cfgA, cfgB, hap, siteToSite_pair hap (of_decide_eq_true hne) hA hB⟩

end

end AwgProxy
