import Mathlib.Data.Bool.Basic
import Mathlib.Tactic.Common
import AwgProxy.Lib.Bytes

/-!
# Profiles and Configuration

The configuration data of `transform.h` and the functions of `transform.c` that check it,
derive from it and mirror it: header ranges, obfuscation profiles, `config_validate`,
`config_compute_profile` and the move of a profile into the flat fields of the
configuration.

* `configValidateProfile_eq_ok_iff` — what `config_validate_profile` accepts, as the
  structure `AwgProfile.Valid`: the bounds of the four paddings and pairwise disjoint
  header ranges.
* `AcceptedProfile` — a profile that was accepted and carries the derived fields
  `config_compute_profile` gives it. Every profile the proxy transforms with is one, and
  the results about transforms are stated for it.
* `hrangeContains_hrangePick` — the type word an encoder draws lies in its range, and by
  `AwgProfile.Valid` in no other.
-/

namespace AwgProxy

/-! ### Message types and sizes -/

/-- `WG_HANDSHAKE_INIT`. -/
def wgHandshakeInit : UInt32 := 1

/-- `WG_HANDSHAKE_RESPONSE`. -/
def wgHandshakeResponse : UInt32 := 2

/-- `WG_COOKIE_REPLY`. -/
def wgCookieReply : UInt32 := 3

/-- `WG_TRANSPORT_DATA`. -/
def wgTransportData : UInt32 := 4

/-- A response is no init. -/
theorem wgHandshakeResponse_ne : wgHandshakeResponse ≠ wgHandshakeInit := by
  decide

/-- A cookie reply is no other handshake message. -/
theorem wgCookieReply_ne :
    wgCookieReply ≠ wgHandshakeInit ∧ wgCookieReply ≠ wgHandshakeResponse := by
  decide

/-- Transport data is no handshake message. -/
theorem wgTransportData_ne : wgTransportData ≠ wgHandshakeInit ∧
    wgTransportData ≠ wgHandshakeResponse ∧ wgTransportData ≠ wgCookieReply := by
  decide

/-- `WG_INIT_SIZE`. -/
abbrev wgInitSize : ℕ := 148

/-- `WG_RESP_SIZE`. -/
abbrev wgRespSize : ℕ := 92

/-- `WG_COOKIE_SIZE`. -/
abbrev wgCookieSize : ℕ := 64

/-- `WG_TRANSPORT_MIN`. -/
abbrev wgTransportMin : ℕ := 32

/-- `AWG_PACKET_BUF_SIZE`. -/
abbrev awgPacketBufSize : ℕ := 1500

/-- `AWG_PACKET_HEADROOM`. -/
abbrev awgPacketHeadroom : ℕ := 256

/-- `AWG_HP_MIN_PADDING`, the nonce of the cipher. -/
abbrev awgHpMinPadding : ℕ := 12

/-- `AWG_HP_TRANSPORT_HDR`. -/
abbrev awgHpTransportHdr : ℕ := 16

/-- `AWG_MAX_PROFILES`. -/
abbrev awgMaxProfiles : ℕ := 4

/-- There is a profile zero. -/
instance neZero_awgMaxProfiles : NeZero awgMaxProfiles := ⟨by decide⟩

/-- The number of I-packets of a profile. -/
abbrev awgCpsCount : ℕ := 5

/-- There is a first I-packet. -/
instance neZero_awgCpsCount : NeZero awgCpsCount := ⟨by decide⟩

/-! ### Header ranges -/

/-- `hrange_t`. The one function that builds ranges rejects a reversed one
(`parseHrange`), so the order of the bounds is part of the type. -/
structure HRange where
  /-- The smallest header. -/
  min : UInt32
  /-- The largest header. -/
  max : UInt32
  /-- The bounds are in order. -/
  le : min ≤ max
  deriving DecidableEq

/-- The range of one value. -/
def HRange.single (v : UInt32) : HRange := ⟨v, v, UInt32.le_refl v⟩

/-- `hrange_pick`: a header of the range, drawn by `randVal`. -/
def hrangePick (r : HRange) (randVal : UInt64) : UInt32 :=
  if r.min = r.max then r.min
  else
    let span := r.max.toUInt64 - r.min.toUInt64 + 1
    r.min + (randVal % span).toUInt32

theorem hrangePick_single (v : UInt32) (randVal : UInt64) :
    hrangePick (.single v) randVal = v :=
  if_pos rfl

/-- `hrange_contains`. -/
def hrangeContains (r : HRange) (v : UInt32) : Bool :=
  r.min ≤ v && v ≤ r.max

/-- `hrange_overlaps`. -/
def hrangeOverlaps (a b : HRange) : Bool :=
  a.min ≤ b.max && b.min ≤ a.max

/-- `parse_uint32`: the decimal digits at the start of the string, modulo `2 ^ 32`. -/
def parseUint32 (s : List Char) : UInt32 :=
  (s.takeWhile Char.isDigit).foldl (fun v c => v * 10 + (c.toNat - '0'.toNat).toUInt32) 0

/-- `parse_hrange`: a range from `MIN-MAX` or `VALUE`, `none` where the source returns
`-1`. The part before the dash is copied to a buffer of 32 bytes, so it must be shorter. -/
def parseHrange (s : List Char) : Option HRange :=
  let head := s.takeWhile (· ≠ '-')
  if head.length = s.length then some (HRange.single (parseUint32 s))
  else if 32 ≤ head.length then none
  else
    let min := parseUint32 head
    let max := parseUint32 (s.drop (head.length + 1))
    if h : min ≤ max then some ⟨min, max, h⟩ else none

example : (parseHrange "5-7".toList).map (fun r => (r.min, r.max)) = some (5, 7) := by
  decide

theorem hrangeContains_iff (r : HRange) (v : UInt32) :
    hrangeContains r v = true ↔ r.min ≤ v ∧ v ≤ r.max := by
  simp [hrangeContains]

/-- The header drawn from a range lies in the range. -/
theorem hrangeContains_hrangePick (r : HRange) (randVal : UInt64) :
    hrangeContains r (hrangePick r randVal) = true := by
  obtain ⟨lo, hi, hle⟩ := r
  rw [hrangeContains_iff]
  by_cases h : lo = hi
  · subst h
    simp [hrangePick]
  · have hlo := lo.toNat_lt
    have hhi := hi.toNat_lt
    have hnat : lo.toNat ≤ hi.toNat := UInt32.le_iff_toNat_le.mp hle
    have hspan : (hi.toUInt64 - lo.toUInt64 + 1).toNat = hi.toNat - lo.toNat + 1 := by
      have hle64 : lo.toUInt64 ≤ hi.toUInt64 := by
        rw [UInt64.le_iff_toNat_le]
        simpa using hnat
      rw [UInt64.toNat_add, UInt64.toNat_sub_of_le _ _ hle64]
      simp only [UInt32.toNat_toUInt64, UInt64.toNat_one]
      omega
    have hmod : (randVal % (hi.toUInt64 - lo.toUInt64 + 1)).toUInt32.toNat ≤
        hi.toNat - lo.toNat := by
      rw [UInt64.toNat_toUInt32, UInt64.toNat_mod, hspan]
      have := Nat.mod_lt randVal.toNat (show hi.toNat - lo.toNat + 1 > 0 by omega)
      exact (Nat.mod_le _ _).trans (by omega)
    have hpick : (hrangePick ⟨lo, hi, hle⟩ randVal).toNat = lo.toNat +
        (randVal % (hi.toUInt64 - lo.toUInt64 + 1)).toUInt32.toNat := by
      simp only [hrangePick, if_neg h, UInt32.toNat_add]
      exact Nat.mod_eq_of_lt (by omega)
    rw [UInt32.le_iff_toNat_le, UInt32.le_iff_toNat_le]
    dsimp only
    omega

theorem hrangeOverlaps_comm (a b : HRange) : hrangeOverlaps a b = hrangeOverlaps b a :=
  Bool.and_comm ..

/-- Ranges that do not overlap share no header. -/
theorem not_hrangeContains_of_not_hrangeOverlaps {a b : HRange}
    (h : hrangeOverlaps a b = false) {v : UInt32} (ha : hrangeContains a v = true) :
    hrangeContains b v = false := by
  rw [hrangeContains_iff] at ha
  simp only [hrangeOverlaps, Bool.and_eq_false_iff, decide_eq_false_iff_not,
    UInt32.not_le] at h
  by_contra hb
  rw [Bool.not_eq_false, hrangeContains_iff] at hb
  rcases h with h | h
  · exact UInt32.lt_irrefl _ (UInt32.lt_of_lt_of_le h (UInt32.le_trans ha.1 hb.2))
  · exact UInt32.lt_irrefl _ (UInt32.lt_of_lt_of_le h (UInt32.le_trans hb.1 ha.2))

/-! ### Profiles -/

/-- The kinds of a segment of an I-packet template, `CPS_STATIC` to `CPS_ZEROS`. -/
inductive CpsKind
  | static | random | timestamp | counter | randomChars | randomDigits | zeros
  deriving DecidableEq

/-- `cps_segment_t`. -/
structure CpsSegment where
  /-- What the segment is filled with. -/
  kind : CpsKind
  /-- The size of a random segment. -/
  size : UInt16
  /-- The offset of a static segment in the static data. -/
  dataOff : UInt16
  /-- The length of a static segment. -/
  dataLen : UInt16
  deriving DecidableEq

/-- `cps_template_t`: the `nseg` segments and the `static_used` bytes of static data. -/
structure CpsTemplate where
  /-- The segments in use. -/
  segs : List CpsSegment
  /-- The static data in use. -/
  staticData : Bytes
  deriving DecidableEq

/-- `awg_profile_t`. -/
structure AwgProfile where
  /-- Padding before a handshake init. -/
  s1 : ℤ
  /-- Padding before a handshake response. -/
  s2 : ℤ
  /-- Padding before a cookie reply. -/
  s3 : ℤ
  /-- Padding before transport data. -/
  s4 : ℤ
  /-- Headers of handshake inits. -/
  h1 : HRange
  /-- Headers of handshake responses. -/
  h2 : HRange
  /-- Headers of cookie replies. -/
  h3 : HRange
  /-- Headers of transport data. -/
  h4 : HRange
  /-- The templates `I1` to `I5`, `none` where not configured. -/
  cps : Fin awgCpsCount → Option CpsTemplate
  /-- Header protection. -/
  hpOn : Bool
  /-- Random trailers after handshakes. -/
  rt : Bool
  /-- Derived: the header of a fixed `h4`. -/
  h4Fixed : UInt32
  /-- Derived: transport data passes unchanged. -/
  h4Noop : Bool
  /-- Derived: the size of a padded init. -/
  initTotal : ℤ
  /-- Derived: the size of a padded response. -/
  respTotal : ℤ
  /-- Derived: the size of a padded cookie reply. -/
  cookieTotal : ℤ
  /-- Derived: a padded handshake may be as long as padded transport data. -/
  transportSizeAmbiguous : Bool

/-- `config_validate_profile`, with the text it reports where the source returns `-1`. -/
def configValidateProfile (pr : AwgProfile) : Except String Unit :=
  if pr.s1 < 0 ∨ pr.s1 > awgPacketBufSize - wgInitSize then
    .error "AWG_S1: must be between 0 and 1352"
  else if pr.s2 < 0 ∨ pr.s2 > awgPacketBufSize - wgRespSize then
    .error "AWG_S2: must be between 0 and 1408"
  else if pr.s3 < 0 ∨ pr.s3 > awgPacketBufSize - wgCookieSize then
    .error "AWG_S3: must be between 0 and 1436"
  else if pr.s4 < 0 ∨ pr.s4 > awgPacketHeadroom then
    .error "AWG_S4: must be between 0 and 256"
  else if pr.hpOn ∧ pr.s1 < awgHpMinPadding then
    .error "AWG_S1: must be >= 12 when AWG_HEADER_PROTECTION_KEY is set"
  else if pr.hpOn ∧ pr.s2 < awgHpMinPadding then
    .error "AWG_S2: must be >= 12 when AWG_HEADER_PROTECTION_KEY is set"
  else if pr.hpOn ∧ pr.s3 < awgHpMinPadding then
    .error "AWG_S3: must be >= 12 when AWG_HEADER_PROTECTION_KEY is set"
  else if pr.hpOn ∧ pr.s4 < awgHpMinPadding then
    .error "AWG_S4: must be >= 12 when AWG_HEADER_PROTECTION_KEY is set"
  else if hrangeOverlaps pr.h1 pr.h2 || hrangeOverlaps pr.h1 pr.h3 ||
      hrangeOverlaps pr.h1 pr.h4 || hrangeOverlaps pr.h2 pr.h3 ||
      hrangeOverlaps pr.h2 pr.h4 || hrangeOverlaps pr.h3 pr.h4 then
    .error "AWG_H1..AWG_H4: ranges must not overlap"
  else .ok ()

/-- `config_compute_profile`: the derived fields from the base fields. -/
def configComputeProfile (pr : AwgProfile) : AwgProfile :=
  let initTotal := pr.s1 + wgInitSize
  let respTotal := pr.s2 + wgRespSize
  let cookieTotal := pr.s3 + wgCookieSize
  let tmin := pr.s4 + wgTransportMin
  { pr with
    h4Fixed := pr.h4.min
    h4Noop := pr.h4.min = wgTransportData && pr.h4.max = wgTransportData && pr.s4 = 0 &&
      !pr.hpOn
    initTotal := initTotal
    respTotal := respTotal
    cookieTotal := cookieTotal
    transportSizeAmbiguous := initTotal ≥ tmin || respTotal ≥ tmin || cookieTotal ≥ tmin }

/-- The profiles `config_validate_profile` accepts. -/
structure AwgProfile.Valid (pr : AwgProfile) : Prop where
  s1_mem : 0 ≤ pr.s1 ∧ pr.s1 ≤ 1352
  s2_mem : 0 ≤ pr.s2 ∧ pr.s2 ≤ 1408
  s3_mem : 0 ≤ pr.s3 ∧ pr.s3 ≤ 1436
  s4_mem : 0 ≤ pr.s4 ∧ pr.s4 ≤ 256
  hp : pr.hpOn = true → 12 ≤ pr.s1 ∧ 12 ≤ pr.s2 ∧ 12 ≤ pr.s3 ∧ 12 ≤ pr.s4
  h12 : hrangeOverlaps pr.h1 pr.h2 = false
  h13 : hrangeOverlaps pr.h1 pr.h3 = false
  h14 : hrangeOverlaps pr.h1 pr.h4 = false
  h23 : hrangeOverlaps pr.h2 pr.h3 = false
  h24 : hrangeOverlaps pr.h2 pr.h4 = false
  h34 : hrangeOverlaps pr.h3 pr.h4 = false

/-- A check passes when its condition for failure does not hold and the rest passes. -/
theorem ite_error_eq_ok_iff {c : Prop} [Decidable c] {e : String} {x : Except String Unit} :
    (if c then Except.error e else x) = .ok () ↔ ¬ c ∧ x = .ok () := by
  by_cases h : c
  · simp [h]
  · simp [h]

/-- **What validation accepts.** -/
theorem configValidateProfile_eq_ok_iff (pr : AwgProfile) :
    configValidateProfile pr = .ok () ↔ pr.Valid := by
  simp only [configValidateProfile, ite_error_eq_ok_iff, awgPacketBufSize, wgInitSize,
    wgRespSize, wgCookieSize, awgPacketHeadroom, awgHpMinPadding, Bool.or_eq_true, not_or,
    Bool.not_eq_true, and_true]
  constructor
  · rintro ⟨h1, h2, h3, h4, hp1, hp2, hp3, hp4, ⟨⟨⟨⟨h12, h13⟩, h14⟩, h23⟩, h24⟩, h34⟩
    refine ⟨by omega, by omega, by omega, by omega, fun hp => ?_, h12, h13, h14, h23, h24,
      h34⟩
    simp only [hp, true_and] at hp1 hp2 hp3 hp4
    omega
  · rintro ⟨h1, h2, h3, h4, hp, h12, h13, h14, h23, h24, h34⟩
    have hp' : ∀ s : ℤ, (pr.hpOn = true → 12 ≤ s) → ¬ (pr.hpOn = true ∧ s < (12 : ℕ)) := by
      rintro s hs ⟨hon, hlt⟩
      have := hs hon
      omega
    exact ⟨by omega, by omega, by omega, by omega, hp' _ fun h => (hp h).1,
      hp' _ fun h => (hp h).2.1, hp' _ fun h => (hp h).2.2.1, hp' _ fun h => (hp h).2.2.2,
      ⟨⟨⟨⟨h12, h13⟩, h14⟩, h23⟩, h24⟩, h34⟩

/-- The derived fields do not enter the validation. -/
theorem AwgProfile.Valid.configComputeProfile {pr : AwgProfile} (h : pr.Valid) :
    (configComputeProfile pr).Valid :=
  ⟨h.s1_mem, h.s2_mem, h.s3_mem, h.s4_mem, h.hp, h.h12, h.h13, h.h14, h.h23, h.h24, h.h34⟩

/-- A profile that `config_validate_profile` accepts, with the derived fields of
`config_compute_profile`. -/
structure AcceptedProfile extends AwgProfile where
  /-- The profile was accepted. -/
  accepted : configValidateProfile toAwgProfile = .ok ()
  /-- The derived fields are those of the base fields. -/
  derived : configComputeProfile toAwgProfile = toAwgProfile

/-- Validate, then compute: how every profile of the proxy comes about. -/
def AcceptedProfile.ofValidated (pr : AwgProfile) (h : configValidateProfile pr = .ok ()) :
    AcceptedProfile where
  toAwgProfile := configComputeProfile pr
  accepted := (configValidateProfile_eq_ok_iff _).mpr
    ((configValidateProfile_eq_ok_iff pr).mp h).configComputeProfile
  derived := rfl

/-- A profile that changes nothing. -/
def plainProfile : AcceptedProfile :=
  AcceptedProfile.ofValidated
    { s1 := 0, s2 := 0, s3 := 0, s4 := 0
      h1 := .single 1, h2 := .single 2, h3 := .single 3, h4 := .single 4
      cps := fun _ => none, hpOn := false, rt := false, h4Fixed := 0, h4Noop := false
      initTotal := 0, respTotal := 0, cookieTotal := 0, transportSizeAmbiguous := false }
    (by decide)

namespace AcceptedProfile

variable (pr : AcceptedProfile)

theorem valid : pr.toAwgProfile.Valid :=
  (configValidateProfile_eq_ok_iff _).mp pr.accepted

theorem initTotal_eq : pr.initTotal = pr.s1 + 148 := by
  conv_lhs => rw [← pr.derived]
  rfl

theorem respTotal_eq : pr.respTotal = pr.s2 + 92 := by
  conv_lhs => rw [← pr.derived]
  rfl

theorem cookieTotal_eq : pr.cookieTotal = pr.s3 + 64 := by
  conv_lhs => rw [← pr.derived]
  rfl

theorem h4Fixed_eq : pr.h4Fixed = pr.h4.min := by
  conv_lhs => rw [← pr.derived]
  rfl

/-- Transport data passes unchanged exactly without padding, protection or a header of
its own. -/
theorem h4Noop_iff : pr.h4Noop = true ↔
    pr.h4.min = wgTransportData ∧ pr.h4.max = wgTransportData ∧ pr.s4 = 0 ∧
      pr.hpOn = false := by
  rw [← pr.derived]
  simp [configComputeProfile, and_assoc]

/-- The ambiguity flag compares the padded handshake sizes with the smallest padded
transport datagram. -/
theorem transportSizeAmbiguous_iff : pr.transportSizeAmbiguous = true ↔
    pr.s4 + 32 ≤ pr.s1 + 148 ∨ pr.s4 + 32 ≤ pr.s2 + 92 ∨ pr.s4 + 32 ≤ pr.s3 + 64 := by
  rw [← pr.derived]
  simp [configComputeProfile, or_assoc]

end AcceptedProfile

/-! ### The configuration -/

/-- The mode of the proxy. -/
inductive AwgMode
  /-- `AWG_MODE_NORMAL`: a WireGuard client behind the proxy. -/
  | normal
  /-- `AWG_MODE_REVERSE`: a WireGuard server with one client. -/
  | reverse
  /-- `AWG_MODE_SERVER`: a WireGuard server with many clients. -/
  | server
  deriving DecidableEq

/-- `awg_config_t`, as far as the modelled functions read it. The flat fields, which
mirror the active profile, are the inherited ones; a peer list is as long as
`server_peer_count`; a key pointer that may be `NULL` is an option. -/
structure AwgConfig extends AwgProfile where
  /-- The mode. -/
  mode : AwgMode
  /-- The number of junk packets ahead of an init. -/
  jc : ℤ
  /-- The smallest junk packet. -/
  jmin : ℤ
  /-- The bound of the junk packets. -/
  jmax : ℤ
  /-- The MAC1 keys of the configured peers. -/
  serverPeerMac1keys : List Bytes
  /-- The header protection key. -/
  hpKey : Bytes
  /-- Some profile of the chain sends trailers. -/
  rtAny : Bool
  /-- Cookie replies are never forwarded outbound. -/
  disableCookies : Bool
  /-- The largest datagram seen on the connection. -/
  udpWindow : UInt32
  /-- The MAC1 key of outbound handshakes. -/
  mac1keyOut : Option Bytes
  /-- The MAC1 key of inbound handshakes. -/
  mac1keyIn : Option Bytes
  /-- The profile chain. -/
  profiles : Fin awgMaxProfiles → AwgProfile
  /-- The number of profiles of the chain. -/
  profileCount : ℕ
  /-- The profile mirrored into the flat fields. -/
  activeProfile : Fin awgMaxProfiles
  /-- The largest `s4` of the chain. -/
  maxS4 : ℕ

/-- `config_validate`, on the flat fields. -/
def configValidate (cfg : AwgConfig) : Except String Unit :=
  if cfg.jc > 0 ∧ cfg.jmin > cfg.jmax then
    .error "AWG_JMIN: must not be greater than AWG_JMAX"
  else configValidateProfile cfg.toAwgProfile

/-- `config_validate` accepts junk sizes in order and a valid profile. -/
theorem configValidate_eq_ok_iff (cfg : AwgConfig) :
    configValidate cfg = .ok () ↔
      (0 < cfg.jc → cfg.jmin ≤ cfg.jmax) ∧ cfg.toAwgProfile.Valid := by
  rw [configValidate, ite_error_eq_ok_iff, configValidateProfile_eq_ok_iff, not_and, not_lt]

/-- `config_snapshot_profile`: the flat fields as a profile. -/
def configSnapshotProfile (cfg : AwgConfig) : AwgProfile :=
  cfg.toAwgProfile

/-- `config_apply_profile`: profile `idx` mirrored into the flat fields. -/
def configApplyProfile (cfg : AwgConfig) (idx : Fin awgMaxProfiles) : AwgConfig :=
  { cfg with toAwgProfile := cfg.profiles idx, activeProfile := idx }

/-- `config_active_profile`. -/
def configActiveProfile (cfg : AwgConfig) : AwgProfile :=
  cfg.profiles cfg.activeProfile

/-- `config_compute_max_s4`: the largest `s4` of the chain, and whether one of its profiles
sends trailers. -/
def configComputeMaxS4 (cfg : AwgConfig) : AwgConfig :=
  let n := if cfg.profileCount > 0 then cfg.profileCount else 1
  let prs := ((List.finRange awgMaxProfiles).take n).map cfg.profiles
  { cfg with
    maxS4 := prs.foldl (fun (m : ℕ) (pr : AwgProfile) => if pr.s4 > m then pr.s4.toNat else m) 0
    rtAny := prs.any AwgProfile.rt }

/-- The flat fields mirror the active profile. -/
def AwgConfig.Mirrored (cfg : AwgConfig) : Prop :=
  configSnapshotProfile cfg = configActiveProfile cfg

/-- Applying a profile mirrors it. -/
theorem mirrored_configApplyProfile (cfg : AwgConfig) (idx : Fin awgMaxProfiles) :
    (configApplyProfile cfg idx).Mirrored :=
  rfl

/-- The largest `s4` of a chain of accepted profiles fits in the headroom of a packet. -/
theorem maxS4_configComputeMaxS4_le {cfg : AwgConfig} (hpos : 0 < cfg.profileCount)
    (hv : ∀ i : Fin awgMaxProfiles, (i : ℕ) < cfg.profileCount → (cfg.profiles i).Valid) :
    (configComputeMaxS4 cfg).maxS4 ≤ 256 := by
  have hloop : ∀ (l : List AwgProfile), (∀ pr ∈ l, pr.Valid) → ∀ m ≤ 256,
      l.foldl (fun (m : ℕ) (pr : AwgProfile) => if pr.s4 > m then pr.s4.toNat else m) m ≤ 256 := by
    intro l
    induction l with
    | nil => exact fun _ m hm => hm
    | cons pr l ih =>
        intro hl m hm
        refine ih (fun pr' hpr' => hl pr' (List.mem_cons_of_mem _ hpr')) _ ?_
        have := (hl pr List.mem_cons_self).s4_mem
        dsimp only
        split
        · omega
        · exact hm
  refine hloop _ (fun pr hpr => ?_) 0 (by omega)
  rw [if_pos hpos] at hpr
  obtain ⟨i, hi, rfl⟩ := List.mem_map.mp hpr
  obtain ⟨j, hj, hij⟩ := List.mem_take_iff_getElem.mp hi
  refine hv i ?_
  have hji : (i : ℕ) = j := by
    rw [← hij, List.getElem_finRange]
    rfl
  omega

/-- No profile of the chain has a larger `s4` than the largest. -/
theorem s4_le_maxS4_configComputeMaxS4 {cfg : AwgConfig} {i : Fin awgMaxProfiles}
    (hi : (i : ℕ) < cfg.profileCount) :
    (cfg.profiles i).s4 ≤ (configComputeMaxS4 cfg).maxS4 := by
  have hloop : ∀ (l : List AwgProfile) (m : ℕ),
      m ≤ l.foldl (fun (m : ℕ) (pr : AwgProfile) => if pr.s4 > m then pr.s4.toNat else m) m ∧
      ∀ pr ∈ l, pr.s4 ≤
        l.foldl (fun (m : ℕ) (pr : AwgProfile) => if pr.s4 > m then pr.s4.toNat else m) m := by
    intro l
    induction l with
    | nil => exact fun m => ⟨le_rfl, fun _ h => nomatch h⟩
    | cons pr l ih =>
        intro m
        obtain ⟨hle, hmem⟩ := ih (if pr.s4 > m then pr.s4.toNat else m)
        have hstep : m ≤ (if pr.s4 > m then pr.s4.toNat else m) ∧
            pr.s4 ≤ (if pr.s4 > m then pr.s4.toNat else m : ℕ) := by
          split <;> omega
        rw [List.foldl_cons]
        refine ⟨hstep.1.trans hle, fun pr' hpr' => ?_⟩
        rcases List.mem_cons.mp hpr' with rfl | hpr'
        · exact hstep.2.trans (Int.ofNat_le.mpr hle)
        · exact hmem pr' hpr'
  refine (hloop _ 0).2 _ (List.mem_map_of_mem (List.mem_take_iff_getElem.mpr ?_))
  have hlen : (i : ℕ) < (List.finRange awgMaxProfiles).length := by
    rw [List.length_finRange]
    exact i.isLt
  have hn : (i : ℕ) < (if cfg.profileCount > 0 then cfg.profileCount else 1) := by
    rw [if_pos (by omega)]
    exact hi
  exact ⟨i, lt_min hn hlen, by simp⟩

/-- `awg_window_note`: a datagram size noted against the trailer window. -/
def awgWindowNote (cfg : AwgConfig) (size : ℕ) : AwgConfig :=
  if cfg.rtAny && cfg.udpWindow < UInt32.ofNat size then
    { cfg with udpWindow := UInt32.ofNat size }
  else cfg

/-- Noting a datagram size changes the window alone. -/
theorem awgWindowNote_eq (cfg : AwgConfig) (n : ℕ) :
    ∃ w, awgWindowNote cfg n = { cfg with udpWindow := w } := by
  unfold awgWindowNote
  split
  · exact ⟨_, rfl⟩
  · exact ⟨cfg.udpWindow, rfl⟩

end AwgProxy
