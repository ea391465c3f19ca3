import AwgProxy.Cps
import AwgProxy.Endpoint

/-!
# The Check of a `.conf`

`validate` of the configurator: it fills in what the file leaves out, puts the address and
the name servers in order and returns the list of what is wrong, in the order of the page
and in its words. A key that is missing has the empty value, as an empty one counts as
missing.

* `fillDefaults_fillDefaults` — filling in is idempotent.
* `checked_of_validate` — what a file without an error has, for the values the proxy reads
  (`Checked`).
-/

namespace AwgProxy

namespace Configurator

open Ecma
open Text hiding trim trim_trim exists_eq_trim

/-! ### The file -/

/-- The keys of `[Interface]` that are checked. -/
inductive IfaceKey
  | privateKey | address | dns
  | jc | jmin | jmax
  | s1 | s2 | s3 | s4
  | h1 | h2 | h3 | h4
  | i1 | i2 | i3 | i4 | i5
  | headerProtectionKey | contentPaddingAddition | rekeyAfterTime | rekeyTimeout
  | rejectAfterTime | keepaliveTimeout | maxHandshakeAttempts
  | randomTrailers | disableCookies
  deriving DecidableEq

/-- A key, as the file has it. -/
def IfaceKey.text : IfaceKey → String
  | privateKey => "PrivateKey"
  | address => "Address"
  | dns => "DNS"
  | jc => "Jc"
  | jmin => "Jmin"
  | jmax => "Jmax"
  | s1 => "S1"
  | s2 => "S2"
  | s3 => "S3"
  | s4 => "S4"
  | h1 => "H1"
  | h2 => "H2"
  | h3 => "H3"
  | h4 => "H4"
  | i1 => "I1"
  | i2 => "I2"
  | i3 => "I3"
  | i4 => "I4"
  | i5 => "I5"
  | headerProtectionKey => "HeaderProtectionKey"
  | contentPaddingAddition => "ContentPaddingAddition"
  | rekeyAfterTime => "RekeyAfterTime"
  | rekeyTimeout => "RekeyTimeout"
  | rejectAfterTime => "RejectAfterTime"
  | keepaliveTimeout => "KeepaliveTimeout"
  | maxHandshakeAttempts => "MaxHandshakeAttempts"
  | randomTrailers => "RandomTrailers"
  | disableCookies => "DisableCookies"

/-- The keys of `[Peer]` that are checked. -/
inductive PeerKey
  | publicKey | endpoint | allowedIPs | presharedKey | persistentKeepalive
  deriving DecidableEq

/-- A key, as the file has it. -/
def PeerKey.text : PeerKey → String
  | publicKey => "PublicKey"
  | endpoint => "Endpoint"
  | allowedIPs => "AllowedIPs"
  | presharedKey => "PresharedKey"
  | persistentKeepalive => "PersistentKeepalive"

/-- The parsed file. -/
structure Parsed where
  /-- The values of `[Interface]`. -/
  iface : IfaceKey → List Char
  /-- The values of `[Peer]`. -/
  peer : PeerKey → List Char
  /-- The keys that were filled in. -/
  defaulted : List IfaceKey

/-- The file with a value of `[Interface]` replaced. -/
def Parsed.setIface (p : Parsed) (k : IfaceKey) (v : List Char) : Parsed :=
  { p with iface := Function.update p.iface k v }

/-- `IFACE_REQUIRED`. -/
def ifaceRequired : List IfaceKey := [.privateKey, .address]

/-- `PEER_REQUIRED`. -/
def peerRequired : List PeerKey := [.publicKey, .endpoint, .allowedIPs]

/-- `AWG_DEFAULT_KEYS`. -/
def awgDefaultKeys : List IfaceKey := [.jc, .jmin, .jmax, .s1, .s2, .h1, .h2, .h3, .h4]

/-- `AWG_DEFAULTS`, empty for the other keys. -/
def awgDefaults : IfaceKey → List Char
  | .jc | .jmin | .jmax | .s1 | .s2 => ['0']
  | .h1 => ['1']
  | .h2 => ['2']
  | .h3 => ['3']
  | .h4 => ['4']
  | _ => []

/-- The headers, `hk`. -/
def hKeys : List IfaceKey := [.h1, .h2, .h3, .h4]

/-- The paddings. -/
def sKeys : List IfaceKey := [.s1, .s2, .s3, .s4]

/-- The templates. -/
def iKeys : List IfaceKey := [.i1, .i2, .i3, .i4, .i5]

/-! ### The checks of a value -/

/-- The value of a base64 character. -/
def sextet? (c : Char) : Option ℕ :=
  if 'A' ≤ c ∧ c ≤ 'Z' then some (c.toNat - 'A'.toNat)
  else if 'a' ≤ c ∧ c ≤ 'z' then some (c.toNat - 'a'.toNat + 26)
  else if c.isDigit then some (c.toNat - '0'.toNat + 52)
  else if c = '+' then some 62
  else if c = '/' then some 63
  else none

/-- Sextets, four at a time; the bits of an incomplete byte are dropped. -/
def joinSextets : List ℕ → Bytes
  | a :: b :: c :: d :: s =>
      UInt8.ofNat (a * 4 + b / 16) :: UInt8.ofNat (b * 16 + c / 4) :: UInt8.ofNat (c * 64 + d) ::
        joinSextets s
  | [a, b, c] => [UInt8.ofNat (a * 4 + b / 16), UInt8.ofNat (b * 16 + c / 4)]
  | [a, b] => [UInt8.ofNat (a * 4 + b / 16)]
  | _ => []

/-- Up to two `=` at the end. -/
def stripPadding (s : List Char) : List Char :=
  if s.getLast? = some '=' then
    if s.dropLast.getLast? = some '=' then s.dropLast.dropLast else s.dropLast
  else s

/-- `atob`: white space is ignored, and `none` is the exception. -/
def atob? (s : List Char) : Option Bytes :=
  let s := s.filter fun c => c ≠ '\t' ∧ c ≠ '\n' ∧ c ≠ '\x0c' ∧ c ≠ '\r' ∧ c ≠ ' '
  let s := if s.length % 4 = 0 then stripPadding s else s
  if s.length % 4 = 1 then none else (s.mapM sextet?).map joinSextets

/-- `isValidBase64Key`. -/
def isValidBase64Key (s : List Char) : Bool :=
  if s.length ≠ 44 then false
  else (atob? s).elim false fun d => d.length = 32

example : isValidBase64Key ("AAECAwQFBgcICQoLDA0ODxAREhMUFRYXGBkaGxwdHh8=".toList) = true := by
  decide

/-- `isNonNegativeInt`. -/
def isNonNegativeInt (s : List Char) : Bool :=
  s = ['0'] || isPositiveInt s

/-- `isUint32`. -/
def isUint32 (s : List Char) : Bool :=
  isNonNegativeInt s && (Number.finite 0).le (number s) && (number s).le (.finite 4294967295)

/-- `isHValue`. -/
def isHValue (s : List Char) : Bool :=
  isUint32 s ||
    match s.splitOn '-' with
    | [a, b] => isUint32 a && isUint32 b && (number a).le (number b)
    | _ => false

/-- `isValidIPCIDR`. -/
def isValidIPCIDR (s : List Char) : Bool :=
  match splitFirst? '/' s with
  | some (a, n) => isValidIP a && isDigits 1 2 n && (number n).le (.finite 32)
  | none => false

/-- `1[0-2][0-9]|[0-9]{1,2}`. -/
def isMaskLength : List Char → Bool
  | ['1', b, c] => ('0' ≤ b && b ≤ '2') && c.isDigit
  | n => isDigits 1 2 n

/-- A colon at the start or the end, with no second one beside it: `/^:[^:]/`, read in
either direction. -/
def hasLoneColon : List Char → Bool
  | ':' :: c :: _ => c ≠ ':'
  | _ => false

/-- `isValidIPv6CIDR`. -/
def isValidIPv6CIDR (s : List Char) : Bool :=
  match splitFirst? '/' s with
  | some (addr, n) =>
      if addr = [] ∨ ¬(addr.all fun c => isHexChar c || c = ':') ∨ ¬isMaskLength n then false
      else if (Number.finite 128).lt (number n) then false
      else if hasLoneColon addr ∨ hasLoneColon addr.reverse then false
      else if ':' ∉ addr then false
      else countDoubleColon addr ≤ 1
  | none => false

/-- The pieces of a list with commas, trimmed. Where the page cuts at `/\s*,\s*/` it trims
the pieces all the same. -/
def splitComma (s : List Char) : List (List Char) :=
  (s.splitOn ',').map trim

/-- `splitAllowedIPs`. -/
def splitAllowedIPs (s : List Char) : List (List Char) :=
  (splitComma s).filter (· ≠ [])

/-- `firstInvalidAllowedIP`, `none` for `null`. -/
def firstInvalidAllowedIP (s : List Char) : Option (List Char) :=
  match splitAllowedIPs s with
  | [] => some []
  | parts => parts.find? fun t => !isValidIPCIDR t && !isValidIPv6CIDR t

/-- `isValidDNS`. -/
def isValidDNS (s : List Char) : Bool :=
  (splitComma s).all isValidIP

/-- `/^(on|off|0|1|true|false)$/i`. -/
def isSwitch (s : List Char) : Bool :=
  s.map Char.toLower ∈ ["on", "off", "0", "1", "true", "false"].map String.toList

/-- The bounds of a header, `rng`. -/
def hBounds (s : List Char) : Number × Number :=
  let a := s.splitOn '-'
  (number (a.headD []), number (a.getLastD []))

/-- Two headers overlap. -/
def hOverlap (s t : List Char) : Bool :=
  (hBounds s).1.le (hBounds t).2 && (hBounds t).1.le (hBounds s).2

/-! ### `validate` -/

/-- `if (...) errors.push(...)`. -/
def pushIf (b : Bool) (e : String) : List String :=
  if b then [e] else []

@[simp] theorem pushIf_eq_nil {b : Bool} {e : String} : pushIf b e = [] ↔ b = false := by
  cases b <;> simp [pushIf]

/-- An error about a key of `[Interface]`. -/
def ifaceError (k : IfaceKey) (text : String) : String :=
  "[Interface] " ++ k.text ++ " -- " ++ text

/-- An error about a key of `[Peer]`. -/
def peerError (k : PeerKey) (text : String) : String :=
  "[Peer] " ++ k.text ++ " -- " ++ text

/-- What is wrong with a key. -/
def invalidKey : String := "invalid base64 key (expected 44 chars, 32 bytes)"

/-- A default is filled in. -/
def fillDefault (p : Parsed) (k : IfaceKey) : Parsed :=
  if p.iface k = [] then
    { p.setIface k (awgDefaults k) with defaulted := p.defaulted ++ [k] }
  else p

/-- What the file leaves out is filled in. -/
def fillDefaults (p : Parsed) : Parsed :=
  awgDefaultKeys.foldl fillDefault p

/-- The required keys that are missing. -/
def missingErrors (p : Parsed) : List String :=
  (ifaceRequired.flatMap fun k => pushIf (p.iface k = []) (ifaceError k "missing")) ++
    peerRequired.flatMap fun k => pushIf (p.peer k = []) (peerError k "missing")

/-- The first IPv4 address, with its mask. -/
def normalizeAddress (s : List Char) : List Char :=
  match (splitComma s).find? fun t => t ≠ [] ∧ ':' ∉ t with
  | none => []
  | some t => if '/' ∈ t then t else t ++ "/32".toList

/-- The IPv4 name servers. -/
def normalizeDNS (s : List Char) : List Char :=
  [',', ' '].intercalate ((splitComma s).filter fun t => t ≠ [] ∧ ':' ∉ t)

/-- Address and name servers are normalized. -/
def normalize (p : Parsed) : Parsed :=
  let p := p.setIface .address (normalizeAddress (p.iface .address))
  if p.iface .dns = [] then p else p.setIface .dns (normalizeDNS (p.iface .dns))

/-- The keys and addresses of `[Interface]`. -/
def addressErrors (v : IfaceKey → List Char) : List String :=
  pushIf (!isValidBase64Key (v .privateKey)) (ifaceError .privateKey invalidKey) ++
    pushIf (!isValidIPCIDR (v .address))
      (ifaceError .address "invalid format (expected X.X.X.X/N)") ++
    pushIf (v .dns ≠ [] && !isValidDNS (v .dns))
      (ifaceError .dns "invalid format (expected comma-separated IPs)")

/-- A key that has a number. -/
def intError (v : IfaceKey → List Char) (k : IfaceKey) : List String :=
  pushIf (!isNonNegativeInt (v k)) (ifaceError k "must be a non-negative integer")

/-- A key that may have a number. -/
def optionalIntError (v : IfaceKey → List Char) (k : IfaceKey) : List String :=
  if v k = [] then [] else intError v k

/-- Junk packets and paddings. -/
def sizeErrors (v : IfaceKey → List Char) : List String :=
  [.jc, .jmin, .jmax].flatMap (intError v) ++
    pushIf (isNonNegativeInt (v .jmin) && isNonNegativeInt (v .jmax) &&
      (number (v .jmax)).lt (number (v .jmin))) "[Interface] Jmin must be <= Jmax" ++
    [.s1, .s2].flatMap (intError v) ++ [.s3, .s4].flatMap (optionalIntError v)

/-- A key that has a header. -/
def hValueError (v : IfaceKey → List Char) (k : IfaceKey) : List String :=
  pushIf (!isHValue (v k)) (ifaceError k "must be uint32 or range MIN-MAX")

/-- The pairs of the two loops over the headers. -/
def hPairs : List (IfaceKey × IfaceKey) :=
  [(.h1, .h2), (.h1, .h3), (.h1, .h4), (.h2, .h3), (.h2, .h4), (.h3, .h4)]

/-- Two headers overlap; a default that takes part is named. -/
def overlapError (p : Parsed) (x : IfaceKey × IfaceKey) : List String :=
  let note := [x.1, x.2].filter (· ∈ p.defaulted)
  pushIf (hOverlap (p.iface x.1) (p.iface x.2)) ("[Interface] " ++ x.1.text ++ " and " ++
    x.2.text ++ " -- overlap, the proxy cannot tell the packets apart" ++
    if note = [] then ""
    else " (" ++ ", ".intercalate (note.map IfaceKey.text) ++
      " not in the config, taken as the default - set it explicitly)")

/-- The headers. -/
def headerErrors (p : Parsed) : List String :=
  hKeys.flatMap (hValueError p.iface) ++
    if hKeys.all fun k => isHValue (p.iface k) then hPairs.flatMap (overlapError p) else []

/-- An entry of `AllowedIPs`, cut where it is long. -/
def shownEntry (s : List Char) : List Char :=
  if 40 < s.length then s.take 40 ++ ['…'] else s

/-- The keys of `[Peer]`. -/
def peerErrors (v : PeerKey → List Char) : List String :=
  pushIf (!isValidBase64Key (v .publicKey)) (peerError .publicKey invalidKey) ++
    pushIf (!isValidEndpoint (v .endpoint))
      (peerError .endpoint "invalid format (expected host:port)") ++
    (firstInvalidAllowedIP (v .allowedIPs)).elim [] (fun t =>
      [peerError .allowedIPs <| if t = [] then "no valid CIDR entries found"
        else "invalid entry \"" ++ String.ofList (shownEntry t) ++
          "\" (expected X.X.X.X/N or IPv6/N)"]) ++
    pushIf (v .presharedKey ≠ [] && !isValidBase64Key (v .presharedKey))
      (peerError .presharedKey invalidKey) ++
    pushIf (v .persistentKeepalive ≠ [] && !isHValue (v .persistentKeepalive))
      (peerError .persistentKeepalive "must be a positive integer or range MIN-MAX")

/-- A padding beside header protection. -/
def paddingError (v : IfaceKey → List Char) (k : IfaceKey) : List String :=
  pushIf (v k = [] || !isNonNegativeInt (v k) || (number (v k)).lt (.finite 12))
    (ifaceError k "must be >= 12 when HeaderProtectionKey is set (ChaCha20 nonce)")

/-- Header protection. -/
def protectionErrors (v : IfaceKey → List Char) : List String :=
  if v .headerProtectionKey = [] then []
  else
    pushIf (!isValidBase64Key (v .headerProtectionKey))
      (ifaceError .headerProtectionKey invalidKey) ++ sKeys.flatMap (paddingError v)

/-- A key of version 3.0 that may have a range. -/
def rangeError (v : IfaceKey → List Char) (k : IfaceKey) : List String :=
  pushIf (v k ≠ [] && !isHValue (v k)) (ifaceError k "must be an integer or range MIN-MAX")

/-- A key of version 3.1 that may have a switch. -/
def switchError (v : IfaceKey → List Char) (k : IfaceKey) : List String :=
  pushIf (v k ≠ [] && !isSwitch (trim (v k))) (ifaceError k "must be on/off (or 0/1)")

/-- A template. -/
def templateError (v : IfaceKey → List Char) (k : IfaceKey) : List String :=
  pushIf (v k ≠ [] && !isValidCPSTemplate (v k)) (ifaceError k ("invalid CPS template (valid " ++
    "tags: <b 0xHEX>, <r N>, <rc N>, <rd N>, <t>, <c>, <d>, <ds>, <dz N>)"))

/-- The checks of a file that has every required key. -/
def formatErrors (p : Parsed) : List String :=
  addressErrors p.iface ++ sizeErrors p.iface ++ headerErrors p ++ peerErrors p.peer ++
    protectionErrors p.iface ++
    [.contentPaddingAddition, .rekeyAfterTime, .rekeyTimeout, .rejectAfterTime,
      .keepaliveTimeout, .maxHandshakeAttempts].flatMap (rangeError p.iface) ++
    [.randomTrailers, .disableCookies].flatMap (switchError p.iface) ++
    iKeys.flatMap (templateError p.iface)

/-- `validate`: the file, filled in and normalized, and what is wrong with it. -/
def validate (p : Parsed) : Parsed × List String :=
  let p := fillDefaults p
  let missing := missingErrors p
  if missing ≠ [] then (p, missing)
  else (normalize p, formatErrors (normalize p))

/-! ### Filling in -/

theorem fillDefault_eq_self {p : Parsed} {k : IfaceKey} (h : p.iface k ≠ []) :
    fillDefault p k = p :=
  if_neg h

theorem foldl_fillDefault_eq_self {ks : List IfaceKey} {p : Parsed}
    (h : ∀ k ∈ ks, p.iface k ≠ []) : ks.foldl fillDefault p = p := by
  induction ks with
  | nil => rfl
  | cons k ks ih =>
      rw [List.foldl_cons, fillDefault_eq_self (h k (by simp))]
      exact ih fun k' hk' => h k' (by simp [hk'])

/-- Every key that is filled in has a default. -/
theorem awgDefaults_ne_nil : ∀ k ∈ awgDefaultKeys, awgDefaults k ≠ [] := by
  decide

/-- Filling in one key leaves the other ones alone, and no value becomes empty. -/
theorem iface_fillDefault_ne_nil {p : Parsed} {k k' : IfaceKey} (hk : k ∈ awgDefaultKeys)
    (h : k' = k ∨ p.iface k' ≠ []) : (fillDefault p k).iface k' ≠ [] := by
  unfold fillDefault
  split_ifs with hempty
  · by_cases heq : k' = k
    · rw [heq]
      simpa [Parsed.setIface] using awgDefaults_ne_nil k hk
    · simpa [Parsed.setIface, heq] using h
  · rcases h with rfl | h
    · exact hempty
    · exact h

theorem iface_foldl_fillDefault_ne_nil {ks : List IfaceKey} {p : Parsed} {k : IfaceKey}
    (hks : ∀ k ∈ ks, k ∈ awgDefaultKeys) (h : k ∈ ks ∨ p.iface k ≠ []) :
    (ks.foldl fillDefault p).iface k ≠ [] := by
  induction ks generalizing p with
  | nil => simpa using h
  | cons d ks ih =>
      rw [List.foldl_cons]
      refine ih (fun k hk => hks k (by simp [hk])) ?_
      have hd : d ∈ awgDefaultKeys := hks d (by simp)
      rw [List.mem_cons, or_assoc] at h
      rcases h with rfl | h | h
      · exact Or.inr (iface_fillDefault_ne_nil hd (Or.inl rfl))
      · exact Or.inl h
      · exact Or.inr (iface_fillDefault_ne_nil hd (Or.inr h))

/-- A second call finds the keys present and keeps the list of the first. -/
theorem fillDefaults_fillDefaults (p : Parsed) :
    fillDefaults (fillDefaults p) = fillDefaults p := by
  refine foldl_fillDefault_eq_self fun k hk => ?_
  exact iface_foldl_fillDefault_ne_nil (fun _ h => h) (Or.inl hk)

/-! ### What is checked -/

/-- What the values that reach the proxy are like in a file without an error. -/
structure Checked (v : IfaceKey → List Char) : Prop where
  /-- Numbers. -/
  ints : ∀ k ∈ [IfaceKey.jc, .jmin, .jmax, .s1, .s2], isNonNegativeInt (v k) = true
  /-- Numbers that may be missing. -/
  optionalInts : ∀ k ∈ [IfaceKey.s3, .s4], v k ≠ [] → isNonNegativeInt (v k) = true
  /-- Junk sizes in order. -/
  junk : (number (v .jmax)).lt (number (v .jmin)) = false
  /-- Headers. -/
  headers : ∀ k ∈ hKeys, isHValue (v k) = true
  /-- Headers that do not overlap. -/
  disjoint : ∀ x ∈ hPairs, hOverlap (v x.1) (v x.2) = false
  /-- Paddings that have room for the nonce. -/
  paddings : v .headerProtectionKey ≠ [] → ∀ k ∈ sKeys,
    isNonNegativeInt (v k) = true ∧ (number (v k)).lt (.finite 12) = false
  /-- Templates. -/
  templates : ∀ k ∈ iKeys, v k ≠ [] → isValidCPSTemplate (v k) = true

theorem intError_eq_nil {v : IfaceKey → List Char} {k : IfaceKey} :
    intError v k = [] ↔ isNonNegativeInt (v k) = true := by
  simp [intError]

theorem optionalIntError_eq_nil {v : IfaceKey → List Char} {k : IfaceKey} :
    optionalIntError v k = [] ↔ (v k ≠ [] → isNonNegativeInt (v k) = true) := by
  rw [optionalIntError, ← intError_eq_nil]
  by_cases h : v k = []
  · simp [h]
  · simp [h]

theorem hValueError_eq_nil {v : IfaceKey → List Char} {k : IfaceKey} :
    hValueError v k = [] ↔ isHValue (v k) = true := by
  simp [hValueError]

theorem overlapError_eq_nil {p : Parsed} {x : IfaceKey × IfaceKey} :
    overlapError p x = [] ↔ hOverlap (p.iface x.1) (p.iface x.2) = false := by
  simp [overlapError]

theorem paddingError_eq_nil {v : IfaceKey → List Char} {k : IfaceKey} :
    paddingError v k = [] ↔
      v k ≠ [] ∧ isNonNegativeInt (v k) = true ∧ (number (v k)).lt (.finite 12) = false := by
  simp [paddingError, and_assoc]

theorem templateError_eq_nil {v : IfaceKey → List Char} {k : IfaceKey} :
    templateError v k = [] ↔ (v k ≠ [] → isValidCPSTemplate (v k) = true) := by
  simp [templateError]

/-- No error, no wrong value. -/
theorem checked_of_formatErrors {p : Parsed} (h : formatErrors p = []) : Checked p.iface := by
  simp only [formatErrors, List.append_eq_nil_iff] at h
  obtain ⟨⟨⟨⟨⟨⟨⟨-, hsizes⟩, hheaders⟩, -⟩, hprotection⟩, -⟩, -⟩, htemplates⟩ := h
  simp only [sizeErrors, List.append_eq_nil_iff, List.flatMap_eq_nil_iff, intError_eq_nil,
    optionalIntError_eq_nil, pushIf_eq_nil] at hsizes
  obtain ⟨⟨⟨hjs, hjunk⟩, hss⟩, hopt⟩ := hsizes
  simp only [headerErrors, List.append_eq_nil_iff, List.flatMap_eq_nil_iff,
    hValueError_eq_nil] at hheaders
  obtain ⟨hhs, hdisjoint⟩ := hheaders
  rw [if_pos (List.all_eq_true.mpr hhs)] at hdisjoint
  simp only [List.flatMap_eq_nil_iff, overlapError_eq_nil] at hdisjoint
  simp only [List.flatMap_eq_nil_iff, templateError_eq_nil] at htemplates
  refine ⟨fun k hk => ?_, hopt, ?_, hhs, hdisjoint, fun hkey k hk => ?_, htemplates⟩
  · have hmem : k ∈ [IfaceKey.jc, .jmin, .jmax] ++ [.s1, .s2] := hk
    exact (List.mem_append.mp hmem).elim (hjs k) (hss k)
  · rw [hjs .jmin (by simp), hjs .jmax (by simp)] at hjunk
    simpa using hjunk
  · rw [protectionErrors, if_neg hkey] at hprotection
    simp only [List.append_eq_nil_iff, List.flatMap_eq_nil_iff, paddingError_eq_nil]
      at hprotection
    exact (hprotection.2 k hk).2

/-- **A file without an error.** -/
theorem checked_of_validate {p : Parsed} (h : (validate p).2 = []) :
    Checked (validate p).1.iface := by
  unfold validate at h ⊢
  by_cases hmissing : missingErrors (fillDefaults p) ≠ []
  · simp only [if_pos hmissing] at h
    exact absurd h hmissing
  · simp only [if_neg hmissing] at h ⊢
    exact checked_of_formatErrors h

end Configurator

end AwgProxy
