import Mathlib.Data.Fin.VecNotation
import AwgProxy.Keys
import AwgProxy.S2cLoop
import AwgProxy.Senders
import AwgProxy.Startup

/-!
# Starting from the Environment

`main` reads the whole configuration from the environment: the flat profile, the keys, and the
fallback chain, whose stages are named `AWG_FB_*`, `AWG_FB2_*` and `AWG_FB3_*`. It ends at the
first thing that is missing, malformed or out of range, and otherwise hands the configuration to
`proxy_init`. Its other variables, of ports, timeouts and tuning, do not end the start, and are left
out here.

* `readStages_eq_ok_iff` — the chain is as long as the stages are set in a row, and each of its
  stages is what its variables say.
* `mainConfig_spec` — `main` starts with a configuration exactly when the environment says all of
  it; what comes out is accepted, and the threads of `proxy_init` are in the state all else starts
  from.
-/

namespace AwgProxy

/-! ### The environment -/

/-- Why a file cannot be read. -/
inductive FileError
  | open | seek | stat | rewind | memory | read
  deriving DecidableEq

/-- What a process is started with. -/
structure Host where
  /-- `getenv`. -/
  env : String → Option (List Char)
  /-- The contents of a file. -/
  file : List Char → Except FileError (List Char)

/-- A host without files, whose environment is set to these values. -/
def Host.ofVars (vars : List (String × List Char)) : Host where
  env name := vars.lookup name
  file _ := .error .open

variable (h : Host)

/-- The value of a variable that is set and not empty. -/
def Host.value (name : String) : Option (List Char) :=
  (h.env name).filter (· ≠ [])

/-- What `getenv_required` returns. -/
def Host.text (name : String) : List Char :=
  (h.value name).getD []

/-- The variables without which the proxy does not start. -/
def requiredVars : List String :=
  ["AWG_LISTEN", "AWG_REMOTE", "AWG_JC", "AWG_JMIN", "AWG_JMAX", "AWG_S1", "AWG_S2", "AWG_H1",
    "AWG_H2", "AWG_H3", "AWG_H4", "AWG_SERVER_PUB"]

/-- The calls of `getenv_required`, and the check behind them. -/
def checkRequired : Start Unit :=
  let missing := requiredVars.filter fun name => (h.value name).isNone
  if missing = [] then .ok ()
  else .error (.fatal (missing.map (· ++ " is not set") ++
    ["missing required environment variables (see above)"]))

/-- `AWG_MODE`. -/
def readMode : AwgMode :=
  match h.value "AWG_MODE" with
  | some ('r' :: _) => .reverse
  | some ('s' :: _) => .server
  | _ => .normal

/-- There is a client, or in server mode a list of them. -/
def checkClientPub : Start Unit :=
  let pub := (h.value "AWG_CLIENT_PUB").isNone
  if readMode h ≠ .server ∧ pub then die "AWG_CLIENT_PUB is not set"
  else if readMode h = .server ∧ pub ∧ (h.value "AWG_CLIENT_PUBS").isNone ∧
      (h.value "AWG_CLIENT_PUBS_FILE").isNone then
    die "server mode requires AWG_CLIENT_PUB or AWG_CLIENT_PUBS/AWG_CLIENT_PUBS_FILE"
  else .ok ()

/-! ### Values -/

/-- `parse_int_str`. -/
def parseIntStr (s : List Char) : Start ℤ :=
  match parseIntStr? s with
  | some v => .ok v
  | none => .error .overflow

/-- `on`, in any case. -/
def isOn : List Char → Bool
  | [a, b] => (a == 'o' || a == 'O') && (b == 'n' || b == 'N')
  | _ => false

/-- A text that starts like `true` or `yes`. -/
def startsTrue : List Char → Bool
  | c :: _ => (c == 't' || c == 'T') || (c == 'y' || c == 'Y')
  | [] => false

/-- `parse_bool_str`. -/
def parseBoolStr (s : List Char) : Start Bool :=
  if isOn s then .ok true
  else if startsTrue s then .ok true
  else do
    let v ← parseIntStr s
    return v ≠ 0

/-- A number that is zero unless it is set. -/
def readInt (name : String) : Start ℤ :=
  match h.value name with
  | some s => parseIntStr s
  | none => .ok 0

/-- A switch that is off unless it is set. -/
def readBool (name : String) : Start Bool :=
  match h.value name with
  | some s => parseBoolStr s
  | none => .ok false

/-- A header range. -/
def readHrange (name : String) (s : List Char) : Start HRange :=
  match parseHrange s with
  | some r => .ok r
  | none => die (name ++ ": invalid range")

/-- A public key. -/
def readPub (name : String) (s : List Char) : Start Bytes :=
  match decodeBase64Key s with
  | some k => .ok k
  | none => die (name ++ ": must decode to 32 bytes")

/-- `AWG_CLIENT_PUB`, zeros where it is missing. -/
def readClientPub : Start Bytes :=
  match h.value "AWG_CLIENT_PUB" with
  | some s => readPub "AWG_CLIENT_PUB" s
  | none => .ok zeroKey

/-- The text of a `FileError`. -/
def FileError.text (path : List Char) : FileError → String
  | .open => "AWG_CLIENT_PUBS_FILE: cannot open " ++ String.ofList path
  | .seek => "AWG_CLIENT_PUBS_FILE: cannot seek"
  | .stat => "AWG_CLIENT_PUBS_FILE: cannot stat"
  | .rewind => "AWG_CLIENT_PUBS_FILE: cannot rewind"
  | .memory => "AWG_CLIENT_PUBS_FILE: out of memory"
  | .read => "AWG_CLIENT_PUBS_FILE: cannot read"

/-- `load_server_peer_file`; the list ends where the file holds a NUL. -/
def loadServerPeerFile (peers : ServerPeers) (path : List Char) : Start ServerPeers :=
  match h.file path with
  | .error e => die (e.text path)
  | .ok buf =>
      let s := Text.cString buf
      parseServerPeerList "AWG_CLIENT_PUBS_FILE" s.length peers s

/-- The peers of server mode. -/
def readPeers : Start ServerPeers :=
  if readMode h = .server then do
    let peers ← match h.value "AWG_CLIENT_PUBS" with
      | some s => parseServerPeerList "AWG_CLIENT_PUBS" s.length .empty s
      | none => .ok .empty
    match h.value "AWG_CLIENT_PUBS_FILE" with
    | some path => loadServerPeerFile h peers path
    | none => .ok peers
  else .ok .empty

/-- The header protection key, zeros where it is missing. -/
def readHpKey : Start Bytes :=
  match h.value "AWG_HEADER_PROTECTION_KEY" with
  | some s =>
      match decodeKey32 s with
      | some k => .ok k
      | none => die "AWG_HEADER_PROTECTION_KEY: must be 44 base64 or 64 hex chars (32 bytes)"
  | none => .ok zeroKey

/-- `fb_name`. -/
def fbName (stage : ℕ) (suffix : String) : String :=
  if stage = 0 then "AWG_" ++ suffix
  else if stage > 1 then "AWG_FB" ++ toString stage ++ "_" ++ suffix
  else "AWG_FB_" ++ suffix

/-- One of the templates of `load_cps_stage`. -/
def readCps (name : String) : Start (Option CpsTemplate) :=
  match h.value name with
  | none => .ok none
  | some s =>
      match cpsParse s with
      | some t => .ok (some t)
      | none => die (name ++ ": invalid CPS template")

/-- `load_cps_stage`. -/
def loadCpsStage (stage : ℕ) : Start (Fin awgCpsCount → Option CpsTemplate) := do
  let i1 ← readCps h (fbName stage "I1")
  let i2 ← readCps h (fbName stage "I2")
  let i3 ← readCps h (fbName stage "I3")
  let i4 ← readCps h (fbName stage "I4")
  let i5 ← readCps h (fbName stage "I5")
  return ![i1, i2, i3, i4, i5]

/-! ### The chain -/

/-- `fb_required`. -/
def fbRequired (stage : ℕ) (suffix : String) : Start (List Char) :=
  match h.value (fbName stage suffix) with
  | some s => .ok s
  | none => die (fbName stage suffix ++ " is required when " ++ fbName stage "H1" ++ " is set")

/-- `fb_hrange`. -/
def fbHrange (stage : ℕ) (suffix : String) : Start HRange := do
  let s ← fbRequired h stage suffix
  readHrange (fbName stage suffix) s

/-- `config_validate_profile` and `config_validate`, whose texts end the start. -/
def validated (r : Except String Unit) : Start Unit :=
  match r with
  | .ok () => .ok ()
  | .error e => die e

/-- `parse_fb_stage`. -/
def parseFbStage (hpKeySet : Bool) (stage : ℕ) : Start (Option AwgProfile) :=
  if (h.value (fbName stage "H1")).isNone then .ok none
  else do
    let s1 ← fbRequired h stage "S1"
    let s1 ← parseIntStr s1
    let s2 ← fbRequired h stage "S2"
    let s2 ← parseIntStr s2
    let s3 ← readInt h (fbName stage "S3")
    let s4 ← readInt h (fbName stage "S4")
    let hp ← readInt h (fbName stage "HP")
    let rt ← readBool h (fbName stage "RANDOM_TRAILERS")
    if hp ≠ 0 ∧ !hpKeySet then
      die (fbName stage "HP" ++ "=1 requires AWG_HEADER_PROTECTION_KEY")
    else
      let h1 ← fbHrange h stage "H1"
      let h2 ← fbHrange h stage "H2"
      let h3 ← fbHrange h stage "H3"
      let h4 ← fbHrange h stage "H4"
      let cps ← loadCpsStage h stage
      let fb := configComputeProfile { Configurator.zeroProfile with
        s1 := s1, s2 := s2, s3 := s3, s4 := s4, h1 := h1, h2 := h2, h3 := h3, h4 := h4
        cps := cps, hpOn := hp ≠ 0, rt := rt }
      validated (configValidateProfile fb)
      return some fb

/-- The loop over the fallback stages, with `left` of them to go. -/
def readStages (hpKeySet : Bool) : ℕ → AwgConfig → Start AwgConfig
  | 0, cfg => .ok cfg
  | left + 1, cfg => do
      let stage := Fin.ofNat awgMaxProfiles (awgMaxProfiles - (left + 1))
      match ← parseFbStage h hpKeySet stage with
      | none => .ok cfg
      | some fb =>
          readStages hpKeySet left { cfg with
            profiles := Function.update cfg.profiles stage fb
            profileCount := stage + 1 }

/-! ### The whole configuration -/

/-- `awg_config_t`, with the keys it is computed from. -/
structure MainConfig extends AwgConfig where
  /-- `server_pub`. -/
  serverPub : Bytes
  /-- `client_pub`. -/
  clientPub : Bytes
  /-- `server_peer_pubs`. -/
  peers : ServerPeers

/-- `has_server_pub`, `has_client_pub` and `hp_key_set`. -/
def keySet (k : Bytes) : Bool := k ≠ zeroKey

/-- `config_compute`. The derived fields are computed from the flat ones, and `profiles[0]` is
made to mirror them. -/
def configCompute (cfg : MainConfig) : MainConfig :=
  let server := if keySet cfg.serverPub then some (computeMac1Key cfg.serverPub) else none
  let client := if keySet cfg.clientPub then some (computeMac1Key cfg.clientPub) else none
  let flat := configComputeProfile cfg.toAwgProfile
  { cfg with
    toAwgConfig := configComputeMaxS4 { cfg.toAwgConfig with
      toAwgProfile := flat
      serverPeerMac1keys := cfg.peers.pubs.map computeMac1Key
      mac1keyOut := if cfg.mode = .normal then server else client
      mac1keyIn := if cfg.mode = .normal then client else server
      udpWindow := if cfg.udpWindow < awgDefaultUdpWindow then awgDefaultUdpWindow
        else cfg.udpWindow
      profileCount := if cfg.profileCount < 1 then 1 else cfg.profileCount
      activeProfile := 0
      profiles := Function.update cfg.profiles 0 flat } }

/-- `main` up to `config_validate`. -/
def readFlat : Start MainConfig := do
  checkRequired h
  checkClientPub h
  let jc ← parseIntStr (h.text "AWG_JC")
  let jmin ← parseIntStr (h.text "AWG_JMIN")
  let jmax ← parseIntStr (h.text "AWG_JMAX")
  let s1 ← parseIntStr (h.text "AWG_S1")
  let s2 ← parseIntStr (h.text "AWG_S2")
  let h1 ← readHrange "AWG_H1" (h.text "AWG_H1")
  let h2 ← readHrange "AWG_H2" (h.text "AWG_H2")
  let h3 ← readHrange "AWG_H3" (h.text "AWG_H3")
  let h4 ← readHrange "AWG_H4" (h.text "AWG_H4")
  let serverPub ← readPub "AWG_SERVER_PUB" (h.text "AWG_SERVER_PUB")
  let clientPub ← readClientPub h
  let peers ← readPeers h
  let s3 ← readInt h "AWG_S3"
  let s4 ← readInt h "AWG_S4"
  let hpKey ← readHpKey h
  let rt ← readBool h "AWG_RANDOM_TRAILERS"
  let disableCookies ← readBool h "AWG_DISABLE_COOKIES"
  return { Configurator.zeroConfig with
    mode := readMode h, jc := jc, jmin := jmin, jmax := jmax
    s1 := s1, s2 := s2, s3 := s3, s4 := s4, h1 := h1, h2 := h2, h3 := h3, h4 := h4
    hpKey := hpKey, hpOn := keySet hpKey, rt := rt, disableCookies := disableCookies
    serverPub := serverPub, clientPub := clientPub, peers := peers }

/-- `main` up to the chain and `config_compute_max_s4`, what `proxy_init` gets of the
configuration. -/
def mainConfig : Start MainConfig := do
  let cfg ← readFlat h
  validated (configValidate cfg.toAwgConfig)
  let cps ← loadCpsStage h 0
  let cfg := configCompute { cfg with cps := cps }
  let chain ← readStages h (keySet cfg.hpKey) 3 cfg.toAwgConfig
  return { cfg with toAwgConfig := configComputeMaxS4 chain }

/-! ### What is written -/

/-- A stage is written with header protection: the first by the key, the others by a switch of
their own that needs the key. -/
def Host.Protects (hpKeySet : Bool) (stage : ℕ) (hpOn : Bool) : Prop :=
  if stage = 0 then hpOn = hpKeySet
  else ∃ v, readInt h (fbName stage "HP") = .ok v ∧ hpOn = decide (v ≠ 0) ∧
    (hpOn = true → hpKeySet = true)

/-- A header range is written. -/
def Host.Ranges (name : String) (r : HRange) : Prop :=
  ∃ s, h.value name = some s ∧ parseHrange s = some r

/-- A number is written. -/
def Host.Numbers (name : String) (v : ℤ) : Prop :=
  ∃ s, h.value name = some s ∧ parseIntStr? s = some v

/-- The variables of a stage say that it is this profile, and it is accepted. -/
structure StageWritten (hpKeySet : Bool) (stage : ℕ) (pr : AwgProfile) : Prop where
  s1 : h.Numbers (fbName stage "S1") pr.s1
  s2 : h.Numbers (fbName stage "S2") pr.s2
  s3 : readInt h (fbName stage "S3") = .ok pr.s3
  s4 : readInt h (fbName stage "S4") = .ok pr.s4
  hp : h.Protects hpKeySet stage pr.hpOn
  rt : readBool h (fbName stage "RANDOM_TRAILERS") = .ok pr.rt
  h1 : h.Ranges (fbName stage "H1") pr.h1
  h2 : h.Ranges (fbName stage "H2") pr.h2
  h3 : h.Ranges (fbName stage "H3") pr.h3
  h4 : h.Ranges (fbName stage "H4") pr.h4
  cps : loadCpsStage h stage = .ok pr.cps
  valid : pr.Valid
  derived : configComputeProfile pr = pr

variable {h} {hpKeySet : Bool} {stage : ℕ} {pr : AwgProfile}

/-- Such a profile is one of those the proxy accepts. -/
theorem StageWritten.accepted (hw : StageWritten h hpKeySet stage pr) :
    ∃ apr : AcceptedProfile, pr = apr.toAwgProfile :=
  ⟨⟨pr, (configValidateProfile_eq_ok_iff pr).mpr hw.valid, hw.derived⟩, rfl⟩

theorem parseIntStr_eq_ok_iff {s : List Char} {v : ℤ} :
    parseIntStr s = .ok v ↔ parseIntStr? s = some v := by
  rw [parseIntStr]
  split
  · rename_i hs
    rw [hs, Except.ok.injEq, Option.some.injEq]
  · rename_i hs
    rw [hs]
    exact iff_of_false (by rintro ⟨⟩) (by rintro ⟨⟩)

theorem readHrange_eq_ok_iff {name : String} {s : List Char} {r : HRange} :
    readHrange name s = .ok r ↔ parseHrange s = some r := by
  rw [readHrange]
  split
  · rename_i hs
    rw [hs, Except.ok.injEq, Option.some.injEq]
  · rename_i hs
    rw [hs]
    exact iff_of_false (by rintro ⟨⟩) (by rintro ⟨⟩)

theorem validated_eq_ok_iff {r : Except String Unit} {u : Unit} :
    validated r = .ok u ↔ r = .ok () := by
  unfold validated
  split
  · exact iff_of_true rfl rfl
  · exact iff_of_false (by rintro ⟨⟩) (by rintro ⟨⟩)

theorem fbRequired_eq_ok_iff {suffix : String} {s : List Char} :
    fbRequired h stage suffix = .ok s ↔ h.value (fbName stage suffix) = some s := by
  rw [fbRequired]
  split
  · rename_i hs
    rw [hs, Except.ok.injEq, Option.some.injEq]
  · rename_i hs
    rw [hs]
    exact iff_of_false (by rintro ⟨⟩) (by rintro ⟨⟩)

theorem fbHrange_eq_ok_iff {suffix : String} {r : HRange} :
    fbHrange h stage suffix = .ok r ↔ h.Ranges (fbName stage suffix) r := by
  simp only [fbHrange, Start.bind_eq_ok_iff, fbRequired_eq_ok_iff, readHrange_eq_ok_iff,
    Host.Ranges]

/-- A stage is left out when its first header is not set. -/
theorem parseFbStage_eq_none_iff :
    parseFbStage h hpKeySet stage = .ok none ↔ h.value (fbName stage "H1") = none := by
  rw [parseFbStage]
  split
  · rename_i hnone
    exact iff_of_true rfl (Option.isNone_iff_eq_none.mp hnone)
  · rename_i hsome
    refine iff_of_false ?_ fun hnone => hsome (Option.isNone_iff_eq_none.mpr hnone)
    simp only [Start.bind_eq_ok_iff]
    rintro ⟨s1, -, v1, -, s2, -, v2, -, v3, -, v4, -, hp, -, rt, -, hrest⟩
    split at hrest
    · cases hrest
    · simp only [Start.bind_eq_ok_iff] at hrest
      obtain ⟨h1, -, h2, -, h3, -, h4, -, cps, -, u, -, hfb⟩ := hrest
      cases hfb

/-- A fallback stage is read when all of it is written. -/
theorem parseFbStage_eq_some_iff (hstage : stage ≠ 0) :
    parseFbStage h hpKeySet stage = .ok (some pr) ↔ StageWritten h hpKeySet stage pr := by
  rw [parseFbStage]
  split
  · rename_i hnone
    refine iff_of_false (by rintro ⟨⟩) fun hw => ?_
    obtain ⟨s, hs, -⟩ := hw.h1
    rw [hs] at hnone
    cases hnone
  · simp only [Start.bind_eq_ok_iff, fbRequired_eq_ok_iff, parseIntStr_eq_ok_iff]
    constructor
    · rintro ⟨s1, hs1, v1, hv1, s2, hs2, v2, hv2, v3, hv3, v4, hv4, hp, hhp, rt, hrt, hrest⟩
      split at hrest
      · cases hrest
      · rename_i hkey
        simp only [Start.bind_eq_ok_iff, fbHrange_eq_ok_iff, validated_eq_ok_iff] at hrest
        obtain ⟨h1, hh1, h2, hh2, h3, hh3, h4, hh4, cps, hcps, u, hvalid, hfb⟩ := hrest
        obtain rfl := Option.some.inj (Except.ok.inj hfb)
        refine ⟨⟨s1, hs1, hv1⟩, ⟨s2, hs2, hv2⟩, hv3, hv4, ?_, hrt, hh1, hh2, hh3, hh4, hcps,
          (configValidateProfile_eq_ok_iff _).mp hvalid, rfl⟩
        rw [Host.Protects, if_neg hstage]
        refine ⟨hp, hhp, rfl, fun hon => ?_⟩
        have hne : hp ≠ 0 := of_decide_eq_true hon
        by_contra hoff
        exact hkey ⟨hne, by rw [Bool.not_eq_true] at hoff; rw [hoff]; rfl⟩
    · intro hw
      obtain ⟨s1, hs1, hv1⟩ := hw.s1
      obtain ⟨s2, hs2, hv2⟩ := hw.s2
      have hprot := hw.hp
      rw [Host.Protects, if_neg hstage] at hprot
      obtain ⟨hp, hhp, hon, hkey⟩ := hprot
      refine ⟨s1, hs1, _, hv1, s2, hs2, _, hv2, _, hw.s3, _, hw.s4, hp, hhp, _, hw.rt, ?_⟩
      rw [if_neg]
      · simp only [Start.bind_eq_ok_iff, fbHrange_eq_ok_iff, validated_eq_ok_iff]
        have heq : configComputeProfile { Configurator.zeroProfile with
            s1 := pr.s1, s2 := pr.s2, s3 := pr.s3, s4 := pr.s4
            h1 := pr.h1, h2 := pr.h2, h3 := pr.h3, h4 := pr.h4
            cps := pr.cps, hpOn := decide (hp ≠ 0), rt := pr.rt } = pr := by
          rw [← hon]
          exact hw.derived
        refine ⟨_, hw.h1, _, hw.h2, _, hw.h3, _, hw.h4, _, hw.cps, (), ?_, ?_⟩
        · rw [heq]
          exact (configValidateProfile_eq_ok_iff pr).mpr hw.valid
        · rw [heq]
          rfl
      · rintro ⟨hne, hoff⟩
        rw [hkey (hon.trans (decide_eq_true hne))] at hoff
        cases hoff

/-! ### The chain as it is written -/

/-- The chain of `cfg'` is that of `cfg`, and from the stage `n` on the stages that are set in a
row. -/
structure ChainRead (h : Host) (hpKeySet : Bool) (n : ℕ) (cfg cfg' : AwgConfig) : Prop where
  count : n ≤ cfg'.profileCount ∧ cfg'.profileCount ≤ awgMaxProfiles
  written : ∀ k : Fin awgMaxProfiles, n ≤ k → (k : ℕ) < cfg'.profileCount →
    StageWritten h hpKeySet k (cfg'.profiles k)
  ends : cfg'.profileCount < awgMaxProfiles → h.value (fbName cfg'.profileCount "H1") = none
  kept : ∀ k : Fin awgMaxProfiles, ¬ (n ≤ k ∧ (k : ℕ) < cfg'.profileCount) →
    cfg'.profiles k = cfg.profiles k
  rest : cfg' = { cfg with profiles := cfg'.profiles, profileCount := cfg'.profileCount }

/-- A chain that is read no further is the one there was. -/
theorem ChainRead.eq_of_count {n : ℕ} {cfg cfg' : AwgConfig}
    (hc : ChainRead h hpKeySet n cfg cfg') (hn : cfg.profileCount = n)
    (hcount : cfg'.profileCount = n) : cfg' = cfg := by
  have hprofiles : cfg'.profiles = cfg.profiles := by
    funext k
    exact hc.kept k (by omega)
  have hrest := hc.rest
  rw [hprofiles, hcount] at hrest
  rw [hrest, ← hn]

/-- **The loop over the stages** reads those that are set in a row, each as it is written. -/
theorem readStages_eq_ok_iff {left n : ℕ} (hn : 0 < n) (hleft : n + left = awgMaxProfiles)
    {cfg cfg' : AwgConfig} (hcount : cfg.profileCount = n) :
    readStages h hpKeySet left cfg = .ok cfg' ↔ ChainRead h hpKeySet n cfg cfg' := by
  induction left generalizing n cfg with
  | zero =>
      rw [readStages, Except.ok.injEq]
      constructor
      · rintro rfl
        exact ⟨by omega, fun k _ hk => by omega, fun hlt => by omega, fun _ _ => rfl, rfl⟩
      · exact fun hc => (hc.eq_of_count hcount (by have := hc.count; omega)).symm
  | succ left ih =>
      have hstage : (Fin.ofNat awgMaxProfiles (awgMaxProfiles - (left + 1)) : ℕ) = n := by
        rw [Fin.val_ofNat, Nat.mod_eq_of_lt (by omega)]
        omega
      obtain ⟨j, hj⟩ : ∃ j, j = Fin.ofNat awgMaxProfiles (awgMaxProfiles - (left + 1)) := ⟨_, rfl⟩
      rw [← hj] at hstage
      rw [readStages, ← hj, Start.bind_eq_ok_iff, hstage]
      constructor
      · rintro ⟨_ | fb, hparse, hrest⟩
        · obtain rfl := Except.ok.inj hrest
          have hnone := parseFbStage_eq_none_iff.mp hparse
          exact ⟨by omega, fun k _ hk => by omega, fun _ => by rw [hcount]; exact hnone,
            fun _ _ => rfl, rfl⟩
        · have hw := (parseFbStage_eq_some_iff (by omega)).mp hparse
          obtain ⟨hcnt, hwritten, hends, hkept, hrest⟩ :=
            (ih (Nat.succ_pos n) (by omega) rfl).mp hrest
          have hjth : cfg'.profiles j = fb :=
            (hkept j (by omega)).trans (Function.update_self ..)
          refine ⟨by omega, fun k hk hlt => ?_, hends, fun k hk => ?_, hrest⟩
          · rcases Nat.eq_or_lt_of_le hk with heq | hlt'
            · obtain rfl : j = k := Fin.ext (hstage.trans heq)
              rw [hjth, hstage]
              exact hw
            · exact hwritten k hlt' hlt
          · have hne : k ≠ j := by
              rintro rfl
              omega
            exact (hkept k (by omega)).trans (Function.update_of_ne hne ..)
      · intro hc
        have hcnt := hc.count
        rcases Nat.eq_or_lt_of_le hcnt.1 with heq | hlt
        · have hnone := hc.ends (by omega)
          rw [← heq] at hnone
          exact ⟨none, parseFbStage_eq_none_iff.mpr hnone,
            by rw [hc.eq_of_count hcount heq.symm]⟩
        · have hw := hc.written j hstage.ge (by omega)
          rw [hstage] at hw
          refine ⟨some (cfg'.profiles j), (parseFbStage_eq_some_iff (by omega)).mpr hw, ?_⟩
          refine (ih (Nat.succ_pos n) (by omega) rfl).mpr ⟨by omega, fun k hk hk' => ?_, hc.ends,
            fun k hk => ?_, hc.rest⟩
          · exact hc.written k (by omega) hk'
          · by_cases hne : k = j
            · subst hne
              exact (Function.update_self k (cfg'.profiles k) cfg.profiles).symm
            · refine Eq.trans (hc.kept k fun hin => hk ⟨?_, hin.2⟩)
                (Function.update_of_ne hne ..).symm
              have hval : (k : ℕ) ≠ j := fun h => hne (Fin.ext h)
              omega

/-! ### The configuration as it is written -/

/-- The environment says this of a configuration, and the rest of it is computed. -/
structure MainWritten (h : Host) (cfg : MainConfig) : Prop where
  required : ∀ name ∈ requiredVars, (h.value name).isSome = true
  client : checkClientPub h = .ok ()
  mode : cfg.mode = readMode h
  jc : h.Numbers "AWG_JC" cfg.jc
  jmin : h.Numbers "AWG_JMIN" cfg.jmin
  jmax : h.Numbers "AWG_JMAX" cfg.jmax
  junk : 0 < cfg.jc → cfg.jmin ≤ cfg.jmax
  serverPub : ∃ s, h.value "AWG_SERVER_PUB" = some s ∧ decodeBase64Key s = some cfg.serverPub
  clientPub : readClientPub h = .ok cfg.clientPub
  peers : readPeers h = .ok cfg.peers
  hpKey : readHpKey h = .ok cfg.hpKey
  cookies : readBool h "AWG_DISABLE_COOKIES" = .ok cfg.disableCookies
  count : 0 < cfg.profileCount ∧ cfg.profileCount ≤ awgMaxProfiles
  stages : ∀ k : Fin awgMaxProfiles, (k : ℕ) < cfg.profileCount →
    StageWritten h (keySet cfg.hpKey) k (cfg.profiles k)
  ends : cfg.profileCount < awgMaxProfiles → h.value (fbName cfg.profileCount "H1") = none
  unset : ∀ k : Fin awgMaxProfiles, cfg.profileCount ≤ k →
    cfg.profiles k = Configurator.zeroProfile
  active : cfg.activeProfile = 0
  flat : cfg.toAwgProfile = cfg.profiles 0
  peerKeys : cfg.serverPeerMac1keys = cfg.peers.pubs.map computeMac1Key
  keyOut : cfg.mac1keyOut = if cfg.mode = .normal then
      if keySet cfg.serverPub then some (computeMac1Key cfg.serverPub) else none
    else if keySet cfg.clientPub then some (computeMac1Key cfg.clientPub) else none
  keyIn : cfg.mac1keyIn = if cfg.mode = .normal then
      if keySet cfg.clientPub then some (computeMac1Key cfg.clientPub) else none
    else if keySet cfg.serverPub then some (computeMac1Key cfg.serverPub) else none
  window : cfg.udpWindow = awgDefaultUdpWindow
  chain : configComputeMaxS4 cfg.toAwgConfig = cfg.toAwgConfig

theorem checkRequired_eq_ok_iff {u : Unit} :
    checkRequired h = .ok u ↔ ∀ name ∈ requiredVars, (h.value name).isSome = true := by
  rw [checkRequired]
  split
  · rename_i hnil
    refine iff_of_true rfl fun name hname => ?_
    rw [List.filter_eq_nil_iff] at hnil
    have := hnil name hname
    rwa [Option.isNone_iff_eq_none, ← Option.not_isSome_iff_eq_none, not_not] at this
  · rename_i hne
    refine iff_of_false (by rintro ⟨⟩) fun hall => hne ?_
    rw [List.filter_eq_nil_iff]
    intro name hname hnone
    have hsome := hall name hname
    rw [Option.isNone_iff_eq_none.mp hnone] at hsome
    cases hsome

theorem readPub_eq_ok_iff {name : String} {s : List Char} {k : Bytes} :
    readPub name s = .ok k ↔ decodeBase64Key s = some k := by
  rw [readPub]
  split
  · rename_i hs
    rw [hs, Except.ok.injEq, Option.some.injEq]
  · rename_i hs
    rw [hs]
    exact iff_of_false (by rintro ⟨⟩) (by rintro ⟨⟩)

/-- A required number is read as it is written. -/
theorem parseIntStr_text_iff {name : String} (hset : (h.value name).isSome = true) {v : ℤ} :
    parseIntStr (h.text name) = .ok v ↔ h.Numbers name v := by
  obtain ⟨s, hs⟩ := Option.isSome_iff_exists.mp hset
  simp only [parseIntStr_eq_ok_iff, Host.text, hs, Option.getD_some, Host.Numbers,
    Option.some.injEq, exists_eq_left']

/-- A required range is read as it is written. -/
theorem readHrange_text_iff {name : String} (hset : (h.value name).isSome = true) {r : HRange} :
    readHrange name (h.text name) = .ok r ↔ h.Ranges name r := by
  obtain ⟨s, hs⟩ := Option.isSome_iff_exists.mp hset
  simp only [readHrange_eq_ok_iff, Host.text, hs, Option.getD_some, Host.Ranges,
    Option.some.injEq, exists_eq_left']

/-- A required key is read as it is written. -/
theorem readPub_text_iff {name : String} (hset : (h.value name).isSome = true) {k : Bytes} :
    readPub name (h.text name) = .ok k ↔
      ∃ s, h.value name = some s ∧ decodeBase64Key s = some k := by
  obtain ⟨s, hs⟩ := Option.isSome_iff_exists.mp hset
  simp only [readPub_eq_ok_iff, Host.text, hs, Option.getD_some, Option.some.injEq,
    exists_eq_left']

/-- What is read of a configuration before its chain is, the rest zeros. -/
def MainConfig.base (cfg : MainConfig) : MainConfig :=
  { Configurator.zeroConfig with
    mode := cfg.mode, jc := cfg.jc, jmin := cfg.jmin, jmax := cfg.jmax
    s1 := cfg.s1, s2 := cfg.s2, s3 := cfg.s3, s4 := cfg.s4
    h1 := cfg.h1, h2 := cfg.h2, h3 := cfg.h3, h4 := cfg.h4
    hpKey := cfg.hpKey, hpOn := cfg.hpOn, rt := cfg.rt, disableCookies := cfg.disableCookies
    serverPub := cfg.serverPub, clientPub := cfg.clientPub, peers := cfg.peers }

/-- The environment says this of the flat fields and the keys. -/
structure FlatWritten (h : Host) (flat : MainConfig) : Prop where
  required : ∀ name ∈ requiredVars, (h.value name).isSome = true
  client : checkClientPub h = .ok ()
  mode : flat.mode = readMode h
  jc : h.Numbers "AWG_JC" flat.jc
  jmin : h.Numbers "AWG_JMIN" flat.jmin
  jmax : h.Numbers "AWG_JMAX" flat.jmax
  s1 : h.Numbers "AWG_S1" flat.s1
  s2 : h.Numbers "AWG_S2" flat.s2
  h1 : h.Ranges "AWG_H1" flat.h1
  h2 : h.Ranges "AWG_H2" flat.h2
  h3 : h.Ranges "AWG_H3" flat.h3
  h4 : h.Ranges "AWG_H4" flat.h4
  serverPub : ∃ s, h.value "AWG_SERVER_PUB" = some s ∧ decodeBase64Key s = some flat.serverPub
  clientPub : readClientPub h = .ok flat.clientPub
  peers : readPeers h = .ok flat.peers
  s3 : readInt h "AWG_S3" = .ok flat.s3
  s4 : readInt h "AWG_S4" = .ok flat.s4
  hpKey : readHpKey h = .ok flat.hpKey
  hpOn : flat.hpOn = keySet flat.hpKey
  rt : readBool h "AWG_RANDOM_TRAILERS" = .ok flat.rt
  cookies : readBool h "AWG_DISABLE_COOKIES" = .ok flat.disableCookies
  rest : flat = flat.base

theorem readFlat_eq_ok_iff {flat : MainConfig} : readFlat h = .ok flat ↔ FlatWritten h flat := by
  simp only [readFlat, Start.bind_eq_ok_iff, checkRequired_eq_ok_iff]
  constructor
  · rintro ⟨_, hset, ⟨⟩, hclient, jc, hjc, jmin, hjmin, jmax, hjmax, s1, hs1, s2, hs2, h1, hh1, h2,
      hh2, h3, hh3, h4, hh4, serverPub, hserver, clientPub, hclientPub, peers, hpeers, s3, hs3, s4,
      hs4, hpKey, hhp, rt, hrt, cookies, hcookies, hflat⟩
    rw [parseIntStr_text_iff (hset _ (by decide))] at hjc hjmin hjmax hs1 hs2
    rw [readHrange_text_iff (hset _ (by decide))] at hh1 hh2 hh3 hh4
    rw [readPub_text_iff (hset _ (by decide))] at hserver
    obtain rfl := Except.ok.inj hflat
    exact ⟨hset, hclient, rfl, hjc, hjmin, hjmax, hs1, hs2, hh1, hh2, hh3, hh4, hserver,
      hclientPub, hpeers, hs3, hs4, hhp, rfl, hrt, hcookies, rfl⟩
  · intro hw
    have hset := hw.required
    have hnum : ∀ name ∈ requiredVars, ∀ v, h.Numbers name v →
        parseIntStr (h.text name) = .ok v :=
      fun name hname v hv => (parseIntStr_text_iff (hset name hname)).mpr hv
    have hran : ∀ name ∈ requiredVars, ∀ r, h.Ranges name r →
        readHrange name (h.text name) = .ok r :=
      fun name hname r hr => (readHrange_text_iff (hset name hname)).mpr hr
    refine ⟨(), hset, (), hw.client, _, hnum _ (by decide) _ hw.jc, _,
      hnum _ (by decide) _ hw.jmin, _, hnum _ (by decide) _ hw.jmax, _,
      hnum _ (by decide) _ hw.s1, _, hnum _ (by decide) _ hw.s2, _, hran _ (by decide) _ hw.h1, _,
      hran _ (by decide) _ hw.h2, _, hran _ (by decide) _ hw.h3, _, hran _ (by decide) _ hw.h4, _,
      (readPub_text_iff (hset _ (by decide))).mpr hw.serverPub, _, hw.clientPub, _, hw.peers, _,
      hw.s3, _, hw.s4, _, hw.hpKey, _, hw.rt, _, hw.cookies, ?_⟩
    rw [← hw.hpOn, ← hw.mode]
    exact congrArg Except.ok hw.rest.symm

/-- What `config_compute` leaves, and the first profile. -/
theorem configCompute_profiles (cfg : MainConfig) :
    (configCompute cfg).profiles =
      Function.update cfg.profiles 0 (configComputeProfile cfg.toAwgProfile) :=
  rfl

theorem configCompute_profiles_zero (cfg : MainConfig) :
    (configCompute cfg).profiles 0 = configComputeProfile cfg.toAwgProfile := by
  rw [configCompute_profiles, Function.update_self]

/-- Nothing has been read of the chain yet. -/
theorem FlatWritten.unread {flat : MainConfig} (hf : FlatWritten h flat) :
    flat.profileCount = 0 ∧ flat.udpWindow = 0 ∧
      flat.profiles = fun _ => Configurator.zeroProfile := by
  rw [hf.rest]
  exact ⟨rfl, rfl, rfl⟩

/-- **What comes out** is written, and the rest of it computed. -/
theorem mainWritten_of_mainConfig {cfg : MainConfig} (hm : mainConfig h = .ok cfg) :
    MainWritten h cfg := by
  simp only [mainConfig, Start.bind_eq_ok_iff, validated_eq_ok_iff] at hm
  obtain ⟨flat, hflat, u, hvalid, cps, hcps, chain, hchain, hcfg⟩ := hm
  have hf := readFlat_eq_ok_iff.mp hflat
  obtain ⟨hcount0, hwindow0, hprofiles0⟩ := hf.unread
  obtain ⟨hjunk, hval⟩ := (configValidate_eq_ok_iff _).mp hvalid
  obtain ⟨c, hc⟩ : ∃ c, c = configCompute { flat with cps := cps } := ⟨_, rfl⟩
  rw [← hc] at hchain hcfg
  have hcount : c.profileCount = 1 := by
    rw [hc]
    change (if flat.profileCount < 1 then 1 else flat.profileCount) = 1
    rw [hcount0]
    rfl
  obtain ⟨hcnt, hwritten, hends, hkept, hrest⟩ :=
    (readStages_eq_ok_iff Nat.zero_lt_one rfl hcount).mp hchain
  have hkey : c.hpKey = flat.hpKey := by rw [hc]; rfl
  have hfirst : chain.profiles 0 = configComputeProfile { flat.toAwgProfile with cps := cps } := by
    rw [hkept 0 (by simp), hc, configCompute_profiles_zero]
  have hstage0 : StageWritten h (keySet c.hpKey) 0 (chain.profiles 0) := by
    rw [hfirst, hkey]
    exact ⟨hf.s1, hf.s2, hf.s3, hf.s4, hf.hpOn, hf.rt, hf.h1, hf.h2, hf.h3, hf.h4, hcps,
      AwgProfile.Valid.configComputeProfile ⟨hval.s1_mem, hval.s2_mem, hval.s3_mem, hval.s4_mem,
        hval.hp, hval.h12, hval.h13, hval.h14, hval.h23, hval.h24, hval.h34⟩, rfl⟩
  have hunset : ∀ k : Fin awgMaxProfiles, chain.profileCount ≤ k →
      chain.profiles k = Configurator.zeroProfile := by
    intro k hk
    have hne : k ≠ 0 := by
      rintro rfl
      exact absurd hcnt.1 (not_le.mpr (Nat.lt_succ_of_le hk))
    rw [hkept k (by omega), hc, configCompute_profiles, Function.update_of_ne hne]
    exact congrFun hprofiles0 k
  have hwindow : c.udpWindow = awgDefaultUdpWindow := by
    rw [hc]
    change (if flat.udpWindow < awgDefaultUdpWindow then awgDefaultUdpWindow
      else flat.udpWindow) = _
    rw [hwindow0]
    rfl
  obtain rfl := Except.ok.inj hcfg
  have hstages : ∀ k : Fin awgMaxProfiles, (k : ℕ) < chain.profileCount →
      StageWritten h (keySet c.hpKey) k (chain.profiles k) := by
    intro k hk
    by_cases hzero : k = 0
    · rw [hzero]
      exact hstage0
    · exact hwritten k (Nat.one_le_iff_ne_zero.mpr fun h0 => hzero (Fin.ext h0)) hk
  obtain ⟨prs, n, rfl⟩ : ∃ prs n, chain =
      { c.toAwgConfig with profiles := prs, profileCount := n } := ⟨_, _, hrest⟩
  subst hc
  exact {
    required := hf.required, client := hf.client, mode := hf.mode
    jc := hf.jc, jmin := hf.jmin, jmax := hf.jmax, junk := hjunk
    serverPub := hf.serverPub, clientPub := hf.clientPub, peers := hf.peers
    hpKey := hf.hpKey, cookies := hf.cookies
    count := hcnt, stages := hstages, ends := hends, unset := hunset
    active := rfl, flat := hfirst.symm, peerKeys := rfl, keyOut := rfl, keyIn := rfl
    window := hwindow, chain := rfl }

/-- The first stage is that of the flat fields. -/
theorem MainWritten.first {cfg : MainConfig} (hw : MainWritten h cfg) :
    StageWritten h (keySet cfg.hpKey) 0 cfg.toAwgProfile := by
  rw [hw.flat]
  exact hw.stages 0 hw.count.1

theorem MainWritten.flatWritten {cfg : MainConfig} (hw : MainWritten h cfg) :
    FlatWritten h cfg.base := by
  have hzero := hw.first
  exact ⟨hw.required, hw.client, hw.mode, hw.jc, hw.jmin, hw.jmax, hzero.s1, hzero.s2, hzero.h1,
    hzero.h2, hzero.h3, hzero.h4, hw.serverPub, hw.clientPub, hw.peers, hzero.s3, hzero.s4,
    hw.hpKey, hzero.hp, hzero.rt, hw.cookies, rfl⟩

/-- The flat fields are accepted before anything is computed from them. -/
theorem MainWritten.configValidate_base {cfg : MainConfig} (hw : MainWritten h cfg) :
    configValidate cfg.base.toAwgConfig = .ok () := by
  have hval := hw.first.valid
  exact (configValidate_eq_ok_iff _).mpr ⟨hw.junk, hval.s1_mem, hval.s2_mem, hval.s3_mem,
    hval.s4_mem, hval.hp, hval.h12, hval.h13, hval.h14, hval.h23, hval.h24, hval.h34⟩

/-- What a configuration is before its chain is read. -/
def MainConfig.computed (cfg : MainConfig) : MainConfig :=
  configCompute { cfg.base with cps := cfg.cps }

/-- What it is with its chain. -/
def MainConfig.chained (cfg : MainConfig) : AwgConfig :=
  { cfg.computed.toAwgConfig with profiles := cfg.profiles, profileCount := cfg.profileCount }

/-- All but the chain is computed from what is read. -/
theorem MainWritten.eq_chained {cfg : MainConfig} (hw : MainWritten h cfg) :
    configComputeMaxS4 cfg.chained = cfg.toAwgConfig := by
  have hfirst : configComputeProfile { cfg.base.toAwgProfile with cps := cfg.cps } =
      cfg.toAwgProfile := hw.first.derived
  have heq : cfg.chained =
      { cfg.toAwgConfig with maxS4 := cfg.chained.maxS4, rtAny := cfg.chained.rtAny } := by
    rw [MainConfig.chained, MainConfig.computed]
    simp only [configCompute, configComputeMaxS4, AwgConfig.mk.injEq, and_true, true_and]
    exact ⟨hfirst, rfl, rfl, rfl, rfl, hw.peerKeys.symm, rfl, rfl, hw.window.symm,
      hw.keyOut.symm, hw.keyIn.symm, hw.active.symm⟩
  rw [heq]
  exact hw.chain

/-- The chain that is read behind the first stage. -/
theorem MainWritten.chainRead {cfg : MainConfig} (hw : MainWritten h cfg) :
    ChainRead h (keySet cfg.computed.hpKey) 1 cfg.computed.toAwgConfig cfg.chained := by
  refine ⟨hw.count, fun k _ hk => hw.stages k hk, hw.ends, fun k hk => ?_, rfl⟩
  change cfg.profiles k = cfg.computed.profiles k
  rw [MainConfig.computed, configCompute_profiles]
  by_cases hk0 : k = 0
  · rw [hk0, Function.update_self]
    exact hw.flat.symm.trans hw.first.derived.symm
  · rw [Function.update_of_ne hk0]
    refine hw.unset k (not_lt.mp fun hlt => hk ⟨?_, hlt⟩)
    exact Nat.one_le_iff_ne_zero.mpr fun h0 => hk0 (Fin.ext h0)

/-- **An environment that says all of a configuration** starts with it. -/
theorem mainConfig_of_mainWritten {cfg : MainConfig} (hw : MainWritten h cfg) :
    mainConfig h = .ok cfg := by
  simp only [mainConfig, Start.bind_eq_ok_iff, validated_eq_ok_iff]
  refine ⟨cfg.base, readFlat_eq_ok_iff.mpr hw.flatWritten, (), hw.configValidate_base, cfg.cps,
    hw.first.cps, cfg.chained, ?_, ?_⟩
  · exact (readStages_eq_ok_iff Nat.zero_lt_one rfl rfl).mpr hw.chainRead
  · rw [hw.eq_chained]
    rfl

/-- `main` starts with a configuration if and only if the environment says all of it. -/
theorem mainConfig_eq_ok_iff {cfg : MainConfig} : mainConfig h = .ok cfg ↔ MainWritten h cfg :=
  ⟨mainWritten_of_mainConfig, mainConfig_of_mainWritten⟩

/-- All that is read makes a configuration. -/
theorem exists_mainConfig {jc jmin jmax : ℤ} {serverPub clientPub hpKey : Bytes}
    {peers : ServerPeers} {cookies : Bool} {n : ℕ} {prs : Fin awgMaxProfiles → AwgProfile}
    (hset : ∀ name ∈ requiredVars, (h.value name).isSome = true)
    (hclient : checkClientPub h = .ok ()) (hjc : h.Numbers "AWG_JC" jc)
    (hjmin : h.Numbers "AWG_JMIN" jmin) (hjmax : h.Numbers "AWG_JMAX" jmax)
    (hjunk : 0 < jc → jmin ≤ jmax)
    (hserver : ∃ s, h.value "AWG_SERVER_PUB" = some s ∧ decodeBase64Key s = some serverPub)
    (hpub : readClientPub h = .ok clientPub) (hpeers : readPeers h = .ok peers)
    (hhp : readHpKey h = .ok hpKey) (hcookies : readBool h "AWG_DISABLE_COOKIES" = .ok cookies)
    (hn : 0 < n ∧ n ≤ awgMaxProfiles)
    (hstages : ∀ k : Fin awgMaxProfiles, (k : ℕ) < n → StageWritten h (keySet hpKey) k (prs k))
    (hends : n < awgMaxProfiles → h.value (fbName n "H1") = none) :
    ∃ cfg, mainConfig h = .ok cfg := by
  let server := if keySet serverPub then some (computeMac1Key serverPub) else none
  let client := if keySet clientPub then some (computeMac1Key clientPub) else none
  let cfg : MainConfig :=
    { toAwgConfig := configComputeMaxS4 { Configurator.zeroConfig with
        toAwgProfile := prs 0, mode := readMode h, jc := jc, jmin := jmin, jmax := jmax
        serverPeerMac1keys := peers.pubs.map computeMac1Key, hpKey := hpKey
        disableCookies := cookies, udpWindow := awgDefaultUdpWindow
        mac1keyOut := if readMode h = .normal then server else client
        mac1keyIn := if readMode h = .normal then client else server
        profiles := fun k => if (k : ℕ) < n then prs k else Configurator.zeroProfile
        profileCount := n, activeProfile := 0 }
      serverPub := serverPub, clientPub := clientPub, peers := peers }
  refine ⟨cfg, mainConfig_of_mainWritten ?_⟩
  exact {
    required := hset, client := hclient, mode := rfl, jc := hjc, jmin := hjmin, jmax := hjmax
    junk := hjunk, serverPub := hserver, clientPub := hpub, peers := hpeers, hpKey := hhp
    cookies := hcookies, count := hn
    stages := fun k hk => by
      rw [show cfg.profiles k = prs k from if_pos hk]
      exact hstages k hk
    ends := hends
    unset := fun k hk => if_neg (not_lt.mpr hk)
    active := rfl
    flat := (if_pos hn.1).symm
    peerKeys := rfl, keyOut := rfl, keyIn := rfl, window := rfl, chain := rfl }

/-! ### What the threads start with -/

/-- The state `proxy_init` leaves for the threads, with the seed it has drawn. -/
def proxyInit (cfg : AwgConfig) (seed : UInt64) : Proxy :=
  fillH4Rings { Proxy.zeroed cfg zeroBufs with
    rng := fastrandInit seed, rngS2c := fastrandInit (seed ^^^ 0xBF58476D1CE4E5B9) }

/-- The c2s thread of normal mode in that state. -/
def proxyInitC2s (cfg : AwgConfig) (seed : UInt64) : C2sNormal where
  toProxy := proxyInit cfg seed
  rngC2s := fastrandInit (seed ^^^ 0x9E3779B97F4A7C15)
  clientInit := false
  sendC2s := []
  handed := []

/-- Filling rings leaves all but the rings and their generator. -/
theorem foldl_fillH4Ring_eq (stages : List (Fin awgMaxProfiles)) (p : Proxy) :
    ∃ ring rng, stages.foldl fillH4Ring p = { p with h4Ring := ring, rng := rng } := by
  induction stages generalizing p with
  | nil => exact ⟨_, _, rfl⟩
  | cons k stages ih =>
      obtain ⟨ring, rng, heq⟩ := ih (fillH4Ring p k)
      exact ⟨ring, rng, by rw [List.foldl_cons, heq, fillH4Ring]⟩

theorem proxyInit_eq (cfg : AwgConfig) (seed : UInt64) : ∃ ring rng, proxyInit cfg seed =
    { Proxy.zeroed cfg zeroBufs with
      rng := rng, rngS2c := fastrandInit (seed ^^^ 0xBF58476D1CE4E5B9), h4Ring := ring } := by
  obtain ⟨ring, rng, heq⟩ := foldl_fillH4Ring_eq _ _
  exact ⟨ring, rng, heq⟩

/-- The state all else starts from: a chain of accepted stages, at its first, under which both
threads run. -/
structure Started (cfg : AwgConfig) (seed : UInt64) : Prop where
  chain : cfg.AcceptedChain
  mirrored : cfg.Mirrored
  first : cfg.activeProfile = 0
  c2s : C2sReady (proxyInitC2s cfg seed)
  s2c : S2cLayout (proxyInit cfg seed)
  rings : RingsReady (proxyInit cfg seed)

/-- A configuration that comes out of `main` is one to start from. -/
theorem started_of_mainConfig {cfg : MainConfig} (hm : mainConfig h = .ok cfg) (seed : UInt64) :
    Started cfg.toAwgConfig seed := by
  have hw := mainConfig_eq_ok_iff.mp hm
  have hacc : ∀ k : Fin awgMaxProfiles, (k : ℕ) < cfg.profileCount →
      ∃ pr : AcceptedProfile, cfg.profiles k = pr.toAwgProfile :=
    fun k hk => (hw.stages k hk).accepted
  have hact : (cfg.activeProfile : ℕ) < cfg.profileCount := by
    rw [hw.active]
    exact hw.count.1
  have hmir : cfg.toAwgConfig.Mirrored := by
    rw [AwgConfig.Mirrored, configActiveProfile, hw.active]
    exact hw.flat
  have hmax : cfg.maxS4 = (configComputeMaxS4 cfg.toAwgConfig).maxS4 :=
    congrArg AwgConfig.maxS4 hw.chain.symm
  obtain ⟨ring, rng, heq⟩ := proxyInit_eq cfg.toAwgConfig seed
  have hcfg : (proxyInit cfg.toAwgConfig seed).cfg = cfg.toAwgConfig := by rw [heq]; rfl
  refine ⟨⟨hacc, hact⟩, hmir, hw.active, ?_, ?_, ?_⟩
  · exact c2sReady_fillH4Rings (p := ⟨{ Proxy.zeroed cfg.toAwgConfig zeroBufs with
        rng := fastrandInit seed, rngS2c := fastrandInit (seed ^^^ 0xBF58476D1CE4E5B9) },
        fastrandInit (seed ^^^ 0x9E3779B97F4A7C15), false, [], []⟩)
      hacc hact hmir hmax (fun _ _ => List.length_replicate) List.length_replicate fun _ => rfl
  · rw [heq]
    exact ⟨hacc, hw.count.1, hact, fun _ => hw.count.1, hmax,
      fun _ _ => List.length_replicate, List.length_replicate⟩
  · exact ringsReady_fillH4Rings (fun _ => Nat.zero_lt_succ _) hcfg

/-- **`main` starts with a configuration** if and only if the environment says all of it: the
flat fields and the keys, and the stages that are set in a row. What comes out is one to start
from. -/
theorem mainConfig_spec (h : Host) (cfg : MainConfig) :
    (mainConfig h = .ok cfg ↔ MainWritten h cfg) ∧
      (mainConfig h = .ok cfg → ∀ seed, Started cfg.toAwgConfig seed) :=
  ⟨mainConfig_eq_ok_iff, started_of_mainConfig⟩

/-- The environment of a client with one stage to fall back to. -/
def twoStageVars : List (String × List Char) :=
  [("AWG_LISTEN", ":51820".toList), ("AWG_REMOTE", "10.0.0.1:443".toList),
    ("AWG_JC", "4".toList), ("AWG_JMIN", "50".toList), ("AWG_JMAX", "500".toList),
    ("AWG_S1", "20".toList), ("AWG_S2", "20".toList), ("AWG_S3", "20".toList),
    ("AWG_S4", "20".toList), ("AWG_H1", "1000-1050".toList), ("AWG_H2", "2000-2050".toList),
    ("AWG_H3", "3000".toList), ("AWG_H4", "4000-4008".toList),
    ("AWG_I1", "<b 0x0102><r 4>".toList),
    ("AWG_SERVER_PUB", Configurator.btoa (List.replicate 32 1)),
    ("AWG_CLIENT_PUB", Configurator.btoa (List.replicate 32 2)),
    ("AWG_FB_H1", "11000".toList), ("AWG_FB_H2", "12000".toList),
    ("AWG_FB_H3", "13000".toList), ("AWG_FB_H4", "14000".toList),
    ("AWG_FB_S1", "20".toList), ("AWG_FB_S2", "20".toList), ("AWG_FB_S3", "20".toList),
    ("AWG_FB_S4", "20".toList)]

/-- It starts with both. -/
theorem mainConfig_spec_twoStage : ∃ cfg, MainWritten (.ofVars twoStageVars) cfg ∧
    cfg.profileCount = 2 ∧ Started cfg.toAwgConfig 7 := by
  have hok : (mainConfig (.ofVars twoStageVars)).toOption.map
      (fun cfg => cfg.profileCount) = some 2 := by
    decide +kernel
  obtain ⟨cfg, hcfg, hcount⟩ := Option.map_eq_some_iff.mp hok
  have hm := Start.eq_ok_of_toOption hcfg
  obtain ⟨hiff, hstarted⟩ := mainConfig_spec (.ofVars twoStageVars) cfg
  exact ⟨cfg, hiff.mp hm, hcount, hstarted hm 7⟩

end AwgProxy
