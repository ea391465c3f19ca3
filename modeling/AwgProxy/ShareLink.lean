import AwgProxy.Base64
import AwgProxy.Lib.Fields

/-!
# The Share Link of a Hub

The configurator packs what it knows of a hub into a link, from which clients are added
later: a header of fixed layout and a list of length-prefixed fields, in base64
(`buildShareableURL`), and the page reads it back (`parseURLParams`). A link of an older page
has fewer fields, one of a newer page more, and both are to be read.

* `readShare_shareHeader` — what is read of a header and a list of fields.
-/

namespace AwgProxy

namespace Configurator

open Ecma Fields
open Text hiding trim trim_trim exists_eq_trim

/-! ### What a link carries -/

/-- The levels of `PROTO_LEVELS`. -/
inductive ProtoLevel
  | v3 | v2 | v15 | v1
  deriving DecidableEq

/-- `PROTO_LEVELS`. -/
def protoLevels : List ProtoLevel := [.v3, .v2, .v15, .v1]

/-- How the networks behind the hub and a client are joined. -/
inductive NetMode
  | none | l3 | l2 | awg
  deriving DecidableEq

/-- The arguments of `buildShareableURL`, and what `parseURLParams` returns. The headers `h1`
to `h4` are a list. -/
structure HubParams where
  jc : ℕ
  jmin : ℕ
  jmax : ℕ
  s1 : ℕ
  s2 : ℕ
  s3 : ℕ
  s4 : ℕ
  h : List (List Char)
  level : ProtoLevel
  hpKey : List Char
  serverWgPubKey : List Char
  endpoint : List Char
  awgPort : ℕ
  wgPort : ℕ
  tunnelSubnet : List Char
  prefixName : List Char
  nextClient : ℕ
  netMode : NetMode
  serverLAN : List Char
  awgBand : List Char
  deriving DecidableEq

/-! ### The checks of the form -/

/-- The four octets of `^(\d{1,3})\.(\d{1,3})\.(\d{1,3})\.(\d{1,3})$`. -/
def quad? (s : List Char) : Option (List (List Char)) :=
  let parts := s.splitOn '.'
  if parts.length = 4 ∧ parts.all (isDigits 1 3) then some parts else none

/-- A text without the `/24` at its end, if it is there. -/
def dropSlash24 (s : List Char) : List Char :=
  if ['/', '2', '4'].isSuffixOf s then s.take (s.length - 3) else s

/-- `parseSlash24`: the octets. -/
def parseSlash24 (cidr : List Char) : Option (List ℕ) :=
  if ['/', '2', '4'].isSuffixOf cidr then
    (quad? (dropSlash24 cidr)).bind fun parts =>
      let octets := parts.map digitsVal
      if octets.all (· ≤ 255) ∧ octets.getLast? = some 0 then some octets else none
  else none

/-- `isValidHubBand`. -/
def isValidHubBand (band : List Char) : Bool :=
  isValidPortSpec band && (band.splitOn ',').length ≤ 8

/-- A network of the form: `^\d{1,3}(\.\d{1,3}){3}\/\d{1,2}$`. -/
def isLanSubnet (s : List Char) : Bool :=
  match splitFirst? '/' s with
  | none => false
  | some (a, m) => (quad? a).isSome && isDigits 1 2 m

/-- The values `generateServer` checks, trimmed. -/
structure ServerForm where
  endpoint : List Char
  awgPort : List Char
  awgBand : List Char
  tunnelSubnet : List Char
  serverLAN : List Char
  clientLAN : List Char
  netMode : NetMode
  dnsServer : List Char

/-- The errors of `generateServer`, in the order of the page. -/
def generateServerErrs (f : ServerForm) : List String :=
  let serverLAN := if f.netMode = .awg then [] else f.serverLAN
  let clientLAN := if f.netMode = .awg then [] else f.clientLAN
  let awgPort := number f.awgPort
  let isHostname := f.endpoint ≠ [] ∧ quad? f.endpoint = none
  (if f.endpoint = [] then ["errSrvEndpoint"] else []) ++
  (if parseSlash24 f.tunnelSubnet = none then ["errSrvTunnelSubnet"] else []) ++
  (if awgPort.lt (.finite 1024) ∨ (Number.finite 65535).lt awgPort then ["errAwgPort"] else []) ++
  (if f.awgBand ≠ [] ∧ isValidHubBand f.awgBand = false then ["errSrvBand"] else []) ++
  (if f.netMode = .l3 ∧ (serverLAN = [] ∨ clientLAN = []) then ["errSrvLanRequired"] else []) ++
  (if serverLAN ≠ [] ∧ isLanSubnet serverLAN = false then ["errLanSubnet"] else []) ++
  (if clientLAN ≠ [] ∧ isLanSubnet clientLAN = false then ["errLanSubnet"] else []) ++
  (if f.netMode ≠ .awg ∧ isHostname ∧ f.dnsServer = [] then ["errDnsRequired"] else [])

/-! ### Building a link -/

/-- `SHARE_VERSION`. -/
abbrev shareVersion : ℕ := 4

/-- `SHARE_HEADER_LEN`. -/
abbrev shareHeaderLen : ℕ := 87

/-- `strToBytes`. -/
def strToBytes (s : List Char) : Bytes :=
  (codeUnits s).map UInt8.ofNat

/-- `hToPair`. -/
def hToPair (h : List Char) : ℕ × ℕ :=
  let parts := h.splitOn '-'
  let lo := toUint32 (number (parts.headD []))
  (lo, parts[1]?.elim lo fun p => toUint32 (number p))

/-- `pairToH`. -/
def pairToH (lo hi : ℕ) : List Char :=
  if lo = hi then decimal lo else decimal lo ++ '-' :: decimal hi

/-- `u16` of `buildShareableURL`. -/
def putU16 (v : ℕ) : Bytes :=
  [UInt8.ofNat (v / 256), UInt8.ofNat v]

/-- `u32` of `buildShareableURL`. -/
def putU32 (v : ℕ) : Bytes :=
  [UInt8.ofNat (v / 16777216), UInt8.ofNat (v / 65536), UInt8.ofNat (v / 256), UInt8.ofNat v]

/-- `Number(tun[i]) & 0xFF`. -/
def tunOctet (tun : List (List Char)) (i : ℕ) : UInt8 :=
  UInt8.ofNat (tun[i]?.elim 0 fun o => toUint32 (number o))

/-- The header of a link, with the bytes of the key. -/
def shareHeader (x : HubParams) (hpRaw : Bytes) : Bytes :=
  let tun := (dropSlash24 x.tunnelSubnet).splitOn '.'
  [UInt8.ofNat shareVersion, UInt8.ofNat x.jc] ++ putU16 x.jmin ++ putU16 x.jmax ++
    putU16 x.s1 ++ putU16 x.s2 ++ putU16 x.s3 ++ putU16 x.s4 ++
    (x.h.flatMap fun h => putU32 (hToPair h).1 ++ putU32 (hToPair h).2) ++
    putU16 x.awgPort ++ putU16 x.wgPort ++ [UInt8.ofNat x.nextClient] ++
    [tunOctet tun 0, tunOctet tun 1, tunOctet tun 2] ++
    [UInt8.ofNat (protoLevels.idxOf x.level)] ++ (List.range 32).map fun b => hpRaw.getD b 0

/-- `netModeB`. -/
def netModeB : NetMode → UInt8
  | .l3 => 1
  | .l2 => 2
  | _ => 0

/-- The fields of a link, with the bytes of the server key. -/
def shareFields (x : HubParams) (keyRaw : Bytes) : List Bytes :=
  [keyRaw.take 32, strToBytes x.endpoint, strToBytes x.prefixName, [netModeB x.netMode],
    strToBytes x.serverLAN, strToBytes x.awgBand]

/-- The parameter `c` of a link: a header and fields, counted by `n`. -/
def shareText (header : Bytes) (n : UInt8) (fields : List Bytes) : List Char :=
  toUrlSafe (btoa (header ++ n :: encodeFields fields))

/-- The header and the fields of a link, `none` where `atob` throws. -/
def shareParts (x : HubParams) : Option (Bytes × List Bytes) :=
  (atob? x.serverWgPubKey).bind fun keyRaw =>
    (if x.hpKey = [] then some [] else atob? x.hpKey).map fun hpRaw =>
      (shareHeader x hpRaw, shareFields x keyRaw)

/-- `buildShareableURL`: the parameter `c`. -/
def buildShareableURL (x : HubParams) : Option (List Char) :=
  (shareParts x).map fun p => shareText p.1 (UInt8.ofNat p.2.length) p.2

/-! ### Reading a link -/

/-- `String.fromCharCode` on every byte. -/
def fromCharCodes (b : Bytes) : List Char :=
  b.map fun x => Char.ofNat x.toNat

/-- The next byte, `0` behind the last. -/
def getU8 : Bytes → ℕ × Bytes
  | [] => (0, [])
  | b :: r => (b.toNat, r)

/-- `u16` of `parseURLParams`. -/
def getU16 (r : Bytes) : ℕ × Bytes :=
  let a := getU8 r
  let b := getU8 a.2
  (a.1 * 256 + b.1, b.2)

/-- `u32` of `parseURLParams`. -/
def getU32 (r : Bytes) : ℕ × Bytes :=
  let a := getU16 r
  let b := getU16 a.2
  (a.1 * 65536 + b.1, b.2)

/-- The loop over the headers. -/
def getHs : ℕ → Bytes → List (List Char) × Bytes
  | 0, r => ([], r)
  | n + 1, r =>
      let lo := getU32 r
      let hi := getU32 lo.2
      let rest := getHs n hi.2
      (pairToH lo.1 hi.1 :: rest.1, rest.2)

/-- The network of the first three octets. -/
def subnetText (a b c : ℕ) : List Char :=
  decimal a ++ '.' :: (decimal b ++ '.' :: (decimal c ++ ".0/24".toList))

/-- A hub as a link spells it: a range of a single value is written as the value, and the
network without a zero in front of an octet. -/
def HubParams.plain (x : HubParams) : HubParams :=
  let tun := (dropSlash24 x.tunnelSubnet).splitOn '.'
  { x with
    h := x.h.map fun t => pairToH (hToPair t).1 (hToPair t).2
    tunnelSubnet :=
      subnetText (tunOctet tun 0).toNat (tunOctet tun 1).toNat (tunOctet tun 2).toNat }

/-- What `parseURLParams` makes of a list of fields, with the header read. -/
def withFields (x : HubParams) (fields : List Bytes) : HubParams :=
  let field := fun i => fields.getD i []
  let prefixName := fromCharCodes (field 2)
  let awgBand := fromCharCodes (field 5)
  { x with
    serverWgPubKey := if (field 0).length = 32 then btoa (field 0) else []
    endpoint := fromCharCodes (field 1)
    prefixName := if prefixName = [] then "awg-server-1".toList else prefixName
    netMode :=
      match (field 3).head? with
      | some 1 => .l3
      | some 2 => .l2
      | _ => .none
    serverLAN := fromCharCodes (field 4)
    awgBand := if isValidHubBand awgBand then awgBand else [] }

/-- `parseURLParams` on the decoded bytes. -/
def readShare (buf : Bytes) : Option HubParams :=
  if buf.length < shareHeaderLen + 1 then none
  else
    let (ver, r) := getU8 buf
    if ver ≠ shareVersion then none
    else
      let (jc, r) := getU8 r
      let (jmin, r) := getU16 r
      let (jmax, r) := getU16 r
      let (s1, r) := getU16 r
      let (s2, r) := getU16 r
      let (s3, r) := getU16 r
      let (s4, r) := getU16 r
      let (hs, r) := getHs 4 r
      let (awgPort, r) := getU16 r
      let (wgPort, r) := getU16 r
      let (nextClient, r) := getU8 r
      let (a, r) := getU8 r
      let (b, r) := getU8 r
      let (c, r) := getU8 r
      let (level, r) := getU8 r
      let hpRaw := r.take 32
      let (fieldCount, r) := getU8 (r.drop 32)
      some (withFields
        { jc := jc, jmin := jmin, jmax := jmax, s1 := s1, s2 := s2, s3 := s3, s4 := s4
          h := hs
          level := protoLevels.getD level .v3
          hpKey := if hpRaw.any (· ≠ 0) then btoa hpRaw else []
          serverWgPubKey := [], endpoint := []
          awgPort := awgPort, wgPort := wgPort
          tunnelSubnet := subnetText a b c
          prefixName := []
          nextClient := if nextClient = 0 then 2 else nextClient
          netMode := .none, serverLAN := [], awgBand := [] }
        (readFields fieldCount r))

/-- `parseURLParams` on the parameter `c`. -/
def parseURLParams (c : List Char) : Option HubParams :=
  if c = [] then none else (atob? (fromUrlSafe c)).bind readShare

/-! ### The header -/

@[simp] theorem getU8_cons (b : UInt8) (r : Bytes) : getU8 (b :: r) = (b.toNat, r) := rfl

theorem getU16_putU16 {v : ℕ} (hv : v < 65536) (r : Bytes) : getU16 (putU16 v ++ r) = (v, r) := by
  rw [putU16, List.cons_append, List.cons_append, List.nil_append, getU16]
  simp only [getU8_cons, UInt8.toNat_ofNat']
  rw [show v / 256 % 2 ^ 8 * 256 + v % 2 ^ 8 = v by omega]

theorem getU32_putU32 {v : ℕ} (hv : v < 4294967296) (r : Bytes) :
    getU32 (putU32 v ++ r) = (v, r) := by
  simp only [putU32, List.cons_append, List.nil_append, getU32, getU16, getU8_cons,
    UInt8.toNat_ofNat']
  rw [show (v / 16777216 % 2 ^ 8 * 256 + v / 65536 % 2 ^ 8) * 65536 +
    (v / 256 % 2 ^ 8 * 256 + v % 2 ^ 8) = v by omega]

/-- What `ToUint32` gives is a word. -/
theorem hToPair_lt (t : List Char) : (hToPair t).1 < 4294967296 ∧ (hToPair t).2 < 4294967296 := by
  have hword : ∀ s, toUint32 (number s) < 4294967296 := fun s => toUint32_lt (number s)
  refine ⟨hword _, ?_⟩
  rw [hToPair]
  dsimp only
  cases (t.splitOn '-')[1]? with
  | none => exact hword _
  | some p => exact hword p

/-- The bounds of the headers are read as they were written. -/
theorem getHs_flatMap (hs : List (List Char)) (r : Bytes) :
    getHs hs.length ((hs.flatMap fun t => putU32 (hToPair t).1 ++ putU32 (hToPair t).2) ++ r) =
      (hs.map fun t => pairToH (hToPair t).1 (hToPair t).2, r) := by
  induction hs with
  | nil => rfl
  | cons t hs ih =>
      obtain ⟨hlo, hhi⟩ := hToPair_lt t
      rw [List.length_cons, List.flatMap_cons, List.append_assoc, List.append_assoc, getHs]
      simp only [getU32_putU32 hlo, getU32_putU32 hhi, ih, List.map_cons]

/-- The key of the header, filled up with zeros. -/
def keyBytes (hpRaw : Bytes) : Bytes :=
  (List.range 32).map fun b => hpRaw.getD b 0

/-- The values of a hub fit the header. -/
structure HeaderFits (x : HubParams) (hpRaw : Bytes) : Prop where
  jc : x.jc < 256
  words : ∀ v ∈ [x.jmin, x.jmax, x.s1, x.s2, x.s3, x.s4, x.awgPort, x.wgPort], v < 65536
  length : x.h.length = 4
  nextClient : 0 < x.nextClient ∧ x.nextClient < 256
  hpKey : x.hpKey = if (keyBytes hpRaw).any (· ≠ 0) then btoa (keyBytes hpRaw) else []

/-- The length of the header is `SHARE_HEADER_LEN`. -/
theorem length_shareHeader {x : HubParams} (hpRaw : Bytes) (h : x.h.length = 4) :
    (shareHeader x hpRaw).length = shareHeaderLen := by
  have hhs : ∀ hs : List (List Char),
      (hs.flatMap fun t => putU32 (hToPair t).1 ++ putU32 (hToPair t).2).length =
        8 * hs.length := by
    intro hs
    induction hs with
    | nil => rfl
    | cons t hs ih =>
        rw [List.flatMap_cons, List.length_append, ih, List.length_cons, Nat.mul_succ, Nat.add_comm]
        rfl
  simp only [shareHeader, List.length_append, hhs, h, List.length_map, List.length_range]
  rfl

/-- **The header is read as it was written**, in front of any list of fields. -/
theorem readShare_shareHeader {x : HubParams} {hpRaw : Bytes} (hx : HeaderFits x hpRaw) (n : UInt8)
    (r : Bytes) :
    readShare (shareHeader x hpRaw ++ n :: r) =
      some (withFields x.plain (readFields n.toNat r)) := by
  have hlen : ¬ (shareHeader x hpRaw ++ n :: r).length < shareHeaderLen + 1 := by
    rw [List.length_append, length_shareHeader hpRaw hx.length, List.length_cons]
    omega
  have hkey : (keyBytes hpRaw).length = 32 := by
    rw [keyBytes, List.length_map, List.length_range]
  obtain ⟨hjmin, hjmax, hs1, hs2, hs3, hs4, hawg, hwg⟩ :
      x.jmin < 65536 ∧ x.jmax < 65536 ∧ x.s1 < 65536 ∧ x.s2 < 65536 ∧ x.s3 < 65536 ∧
        x.s4 < 65536 ∧ x.awgPort < 65536 ∧ x.wgPort < 65536 := by
    simpa using hx.words
  have hhs := getHs_flatMap x.h
  rw [hx.length] at hhs
  have hlevel : protoLevels.getD (UInt8.ofNat (protoLevels.idxOf x.level)).toNat .v3 = x.level := by
    cases x.level <;> rfl
  have hjc : (UInt8.ofNat x.jc).toNat = x.jc := UInt8.toNat_ofNat_of_lt' hx.jc
  have hnext : (UInt8.ofNat x.nextClient).toNat = x.nextClient :=
    UInt8.toNat_ofNat_of_lt' hx.nextClient.2
  have hver : (UInt8.ofNat shareVersion).toNat = shareVersion := rfl
  rw [readShare, if_neg hlen]
  have hbuf : shareHeader x hpRaw ++ n :: r =
      UInt8.ofNat shareVersion :: UInt8.ofNat x.jc :: (putU16 x.jmin ++ (putU16 x.jmax ++
        (putU16 x.s1 ++ (putU16 x.s2 ++ (putU16 x.s3 ++ (putU16 x.s4 ++
        ((x.h.flatMap fun h => putU32 (hToPair h).1 ++ putU32 (hToPair h).2) ++ (putU16 x.awgPort ++
        (putU16 x.wgPort ++ (UInt8.ofNat x.nextClient ::
        tunOctet ((dropSlash24 x.tunnelSubnet).splitOn '.') 0 ::
        tunOctet ((dropSlash24 x.tunnelSubnet).splitOn '.') 1 ::
        tunOctet ((dropSlash24 x.tunnelSubnet).splitOn '.') 2 ::
        UInt8.ofNat (protoLevels.idxOf x.level) :: (keyBytes hpRaw ++ n :: r))))))))))) := by
    simp only [shareHeader, keyBytes, List.append_assoc, List.cons_append, List.nil_append]
  rw [hbuf]
  simp only [getU8_cons, getU16_putU16 hjmin, getU16_putU16 hjmax, getU16_putU16 hs1,
    getU16_putU16 hs2, getU16_putU16 hs3, getU16_putU16 hs4, hhs, getU16_putU16 hawg,
    getU16_putU16 hwg, hver, hjc, hnext, hlevel, List.take_left' hkey, List.drop_left' hkey,
    ← hx.hpKey, if_neg hx.nextClient.1.ne']
  rfl

end Configurator

end AwgProxy
