import AwgProxy.Lib.Memory
import AwgProxy.Config
import AwgProxy.FastRand
import AwgProxy.ChaCha20
import AwgProxy.Blake2s

/-!
# The Transforms

The two transforms of `transform.c` on a memory of packet buffers: the encoder
`transform_outbound_profile`, which rewrites the type word, recomputes MAC1, puts a
padding in front and encrypts the header, in place or in the static `hs_buf`, and the
decoder `transform_inbound_profile`, which finds a message by its size and header range
and undoes all of it. Both return pointers into the buffers they work in, and so do the
models: whatever queues the result and touches the buffers again can be followed.

The elementary writes, a type word and a sum, act on the message in a range as the
functions `retype` and `putMac1` act on byte strings. The three handshake branches of each
transform differ in constants only: these are the functions of a `HandshakeKind`, so that
each fact about the branches is proved once.
-/

namespace AwgProxy

/-- The buffers packets live in. -/
inductive PktBuf
  /-- A receive buffer of a batch. -/
  | recv (i : ℕ)
  /-- The buffer of a coalesced read. -/
  | gro
  /-- `hs_buf`: the static buffer of a thread for handshakes without headroom. -/
  | hsBuf
  deriving DecidableEq

/-- `read32_le`. -/
def read32Le (m : Mem PktBuf) (p : Ptr PktBuf) : UInt32 :=
  UInt32.ofNat (Bytes.leNat (m.read p 4))

/-- `write32_le`. -/
def write32Le (m : Mem PktBuf) (p : Ptr PktBuf) (v : UInt32) : Mem PktBuf :=
  m.write p (Bytes.leBytes 4 v.toNat)

/-- The keyed sum of the `off` bytes of a message, written behind them. -/
def recomputeMac1At (off : ℕ) (m : Mem PktBuf) (buf : Ptr PktBuf) (key : Bytes) :
    Mem PktBuf :=
  m.write (buf.add off) (blake2s128mac key (m.read buf off))

/-- `recompute_mac1`: MAC1 of a handshake init. -/
def recomputeMac1 (m : Mem PktBuf) (buf : Ptr PktBuf) (key : Bytes) : Mem PktBuf :=
  recomputeMac1At 116 m buf key

/-- `recompute_mac1_response`: MAC1 of a handshake response. -/
def recomputeMac1Response (m : Mem PktBuf) (buf : Ptr PktBuf) (key : Bytes) : Mem PktBuf :=
  recomputeMac1At 60 m buf key

/-! ### The encoder -/

/-- `trailer_len`: the length of the random trailer, none without `rt`. -/
def trailerLen (cfg : AwgConfig) (pr : AwgProfile) (size : ℕ) (seed : UInt64) : ℕ :=
  if !pr.rt then 0
  else
    let win := min cfg.udpWindow.toNat awgPacketBufSize
    if win ≤ size then 0
    else (mix64 (seed ^^^ 0x7A11E45)).toNat % (win - size)

/-- `append_trailer`: the memory with the trailer behind the packet, and the new length. -/
def appendTrailer (m : Mem PktBuf) (cfg : AwgConfig) (pr : AwgProfile) (pkt : Ptr PktBuf)
    (size : ℕ) (seed : UInt64) : Mem PktBuf × ℕ :=
  let tl := trailerLen cfg pr size seed
  (if tl > 0 then m.write (pkt.add size) (fillPadding tl (seed ^^^ 0xFEED1)) else m, size + tl)

/-- Where a handshake with padding `s` is built: in front of the data when there is room,
otherwise in `hs_buf`, with the message copied behind the padding. -/
def handshakeOut (m : Mem PktBuf) (data : Ptr PktBuf) (dataoff n : ℕ) (s : ℕ) :
    Mem PktBuf × Ptr PktBuf :=
  if s ≤ dataoff then (m, data.sub s)
  else (m.write ⟨.hsBuf, s⟩ (m.read data n), ⟨.hsBuf, 0⟩)

/-- The common end of the three handshake branches: padding `s`, header protection over
the whole message and trailer. Returns the memory, the start and the length. -/
def padHandshake (m : Mem PktBuf) (data : Ptr PktBuf) (dataoff n : ℕ) (cfg : AwgConfig)
    (pr : AwgProfile) (s : ℤ) (seed : UInt64) : Mem PktBuf × Ptr PktBuf × ℕ :=
  if s > 0 then
    let s := s.toNat
    let (m, out) := handshakeOut m data dataoff n s
    let m := m.write out (fillPadding s seed)
    let m := if pr.hpOn then
        m.write (out.add s) (chacha20Xor cfg.hpKey (m.read out 12) (m.read (out.add s) n))
      else m
    let (m, len) := appendTrailer m cfg pr out (s + n) seed
    (m, out, len)
  else
    let (m, len) := appendTrailer m cfg pr data n seed
    (m, data, len)

/-- What `transform_outbound_profile` leaves behind. -/
structure OutboundResult where
  /-- The memory. -/
  mem : Mem PktBuf
  /-- The packet to send, `none` for the `NULL` of a dropped one. -/
  out : Option (Ptr PktBuf)
  /-- Its length. -/
  outLen : ℕ
  /-- Junk goes out first. -/
  sendJunk : Bool

/-- `transform_outbound_profile`. The message of `n` bytes starts `dataoff` bytes behind
`buf`; `mac1keyOut` overrides the key of the configuration. -/
def transformOutboundProfile (m : Mem PktBuf) (buf : Ptr PktBuf) (dataoff n : ℕ)
    (cfg : AwgConfig) (pr : AwgProfile) (mac1keyOut : Option Bytes) (randVal : UInt64) :
    OutboundResult :=
  let outKey := mac1keyOut <|> cfg.mac1keyOut
  let data := buf.add dataoff
  if n < 4 then ⟨m, some data, n, false⟩
  else
    let msgType := read32Le m data
    if msgType = wgHandshakeInit ∧ n = wgInitSize then
      let m := write32Le m data (hrangePick pr.h1 randVal)
      let m := outKey.elim m fun key => recomputeMac1 m data key
      let sendJunk := cfg.jc > 0 || (pr.cps 0).isSome || (pr.cps 1).isSome ||
        (pr.cps 2).isSome || (pr.cps 3).isSome || (pr.cps 4).isSome
      let (m, out, len) := padHandshake m data dataoff n cfg pr pr.s1 randVal
      ⟨m, some out, len, sendJunk⟩
    else if msgType = wgHandshakeResponse ∧ n = wgRespSize then
      let m := write32Le m data (hrangePick pr.h2 randVal)
      let m := outKey.elim m fun key => recomputeMac1Response m data key
      let (m, out, len) := padHandshake m data dataoff n cfg pr pr.s2 (randVal ^^^ 0x12345)
      ⟨m, some out, len, false⟩
    else if msgType = wgCookieReply ∧ n = wgCookieSize then
      if cfg.disableCookies then ⟨m, none, 0, false⟩
      else
        let m := write32Le m data (hrangePick pr.h3 randVal)
        let (m, out, len) := padHandshake m data dataoff n cfg pr pr.s3 (randVal ^^^ 0x67890)
        ⟨m, some out, len, false⟩
    else if msgType = wgTransportData ∧ n ≥ wgTransportMin then
      if pr.h4Noop then ⟨m, some data, n, false⟩
      else
        let m := write32Le m data
          (if pr.h4.min = pr.h4.max then pr.h4Fixed else hrangePick pr.h4 randVal)
        if pr.s4 > 0 ∧ (dataoff : ℤ) ≥ pr.s4 then
          let out := data.sub pr.s4.toNat
          let m := m.write out (fillPadding pr.s4.toNat (randVal ^^^ 0xABCDE))
          let m := if pr.hpOn then
              m.write data (chacha20Xor cfg.hpKey (m.read out 12) (m.read data awgHpTransportHdr))
            else m
          ⟨m, some out, pr.s4.toNat + n, false⟩
        else ⟨m, some data, n, false⟩
    -- unknown messages pass through
    else ⟨m, some data, n, false⟩

/-- The peer whose key verifies the sum behind the first `off` bytes of a message, `-1`
when there is none. -/
def resolvePeerAt (off : ℕ) (cfg : AwgConfig) (d : Bytes) : ℤ :=
  match cfg.serverPeerMac1keys.findIdx? fun key =>
      blake2s128mac key (d.take off) = d.slice off 16 with
  | some i => i
  | none => -1

/-- `config_server_resolve_peer_for_response`: the peer a response is for. -/
def configServerResolvePeerForResponse (cfg : AwgConfig) (wgResp : Bytes) : ℤ :=
  if wgResp.length ≠ wgRespSize ∨ load32Le wgResp 0 ≠ wgHandshakeResponse then -1
  else resolvePeerAt 60 cfg wgResp

/-- `config_server_resolve_peer_for_init`: the peer an init is for. -/
def configServerResolvePeerForInit (cfg : AwgConfig) (wgInit : Bytes) : ℤ :=
  if wgInit.length ≠ wgInitSize ∨ load32Le wgInit 0 ≠ wgHandshakeInit then -1
  else resolvePeerAt 116 cfg wgInit

/-! ### The decoder -/

/-- `hp_recv_ks`: the keystream block of a received packet, computed unless cached. -/
def hpRecvKs (cfg : AwgConfig) (m : Mem PktBuf) (pkt : Ptr PktBuf) (ks : Option Bytes) :
    Bytes :=
  ks.getD (chacha20Block cfg.hpKey (m.read pkt 12) 0)

/-- A length qualifies for a message of `total` bytes: exactly, or from it on with random
trailers. -/
def sizeMatches (pr : AwgProfile) (n : ℕ) (total : ℤ) : Bool :=
  n = total || (pr.rt && n > total)

/-- A handshake found at padding `s`: decrypted, with its WireGuard type. -/
def openHandshake (m : Mem PktBuf) (buf : Ptr PktBuf) (cfg : AwgConfig)
    (kstream : Option Bytes) (s size : ℕ) (type : UInt32) : Mem PktBuf :=
  let p := buf.add s
  let m := if kstream.isSome then
      m.write p (chacha20Xor cfg.hpKey (m.read buf 12) (m.read p size))
    else m
  write32Le m p type

/-- The dispatch of `transform_inbound_profile`: handshakes by size first, transport data
last. -/
def inboundDispatch (m : Mem PktBuf) (buf : Ptr PktBuf) (n : ℕ) (cfg : AwgConfig)
    (pr : AwgProfile) (kstream : Option Bytes) : Mem PktBuf × Option (Ptr PktBuf × ℕ) :=
  let typeMask := kstream.elim 0 fun k => load32Le k 0
  let header := fun s : ℤ => read32Le m (buf.add s.toNat) ^^^ typeMask
  if sizeMatches pr n pr.initTotal && hrangeContains pr.h1 (header pr.s1) then
    let p := buf.add pr.s1.toNat
    let m := openHandshake m buf cfg kstream pr.s1.toNat wgInitSize wgHandshakeInit
    let m := cfg.mac1keyIn.elim m fun key => recomputeMac1 m p key
    (m, some (p, wgInitSize))
  else if sizeMatches pr n pr.respTotal && hrangeContains pr.h2 (header pr.s2) then
    let p := buf.add pr.s2.toNat
    let m := openHandshake m buf cfg kstream pr.s2.toNat wgRespSize wgHandshakeResponse
    let m := cfg.mac1keyIn.elim m fun key => recomputeMac1Response m p key
    (m, some (p, wgRespSize))
  else if sizeMatches pr n pr.cookieTotal && hrangeContains pr.h3 (header pr.s3) then
    let p := buf.add pr.s3.toNat
    let m := openHandshake m buf cfg kstream pr.s3.toNat wgCookieSize wgCookieReply
    (m, some (p, wgCookieSize))
  else if (n : ℤ) ≥ pr.s4 + wgTransportMin && hrangeContains pr.h4 (header pr.s4) then
    let p := buf.add pr.s4.toNat
    let m := kstream.elim m fun k => m.write p (chacha20XorKs (m.read p awgHpTransportHdr) k)
    (write32Le m p wgTransportData, some (p, n - pr.s4.toNat))
  else (m, none)

/-- What `transform_inbound_profile` leaves behind. -/
structure InboundResult where
  /-- The memory. -/
  mem : Mem PktBuf
  /-- The message, start and length; `none` for the `NULL` of a dropped datagram. -/
  out : Option (Ptr PktBuf × ℕ)
  /-- The keystream block, once computed. -/
  ks : Option Bytes

/-- `transform_inbound_profile` on the datagram of `n` bytes at `buf`; `ks` is the cached
keystream block, `none` where the source passes `NULL` or an invalid cache. -/
def transformInboundProfile (m : Mem PktBuf) (buf : Ptr PktBuf) (n : ℕ) (cfg : AwgConfig)
    (pr : AwgProfile) (ks : Option Bytes) : InboundResult :=
  if n < 4 then ⟨m, none, ks⟩
  else if pr.h4Noop ∧ read32Le m buf = wgTransportData ∧ n ≥ wgTransportMin then
    ⟨m, some (buf, n), ks⟩
  else if pr.hpOn then
    if n < awgHpMinPadding then ⟨m, none, ks⟩
    else
      let kstream := hpRecvKs cfg m buf ks
      let (m, out) := inboundDispatch m buf n cfg pr (some kstream)
      ⟨m, out, some kstream⟩
  else
    let (m, out) := inboundDispatch m buf n cfg pr none
    ⟨m, out, ks⟩

/-! ### Words and messages in memory -/

/-- A message with the type word `type`. -/
def retype (type : UInt32) (d : Bytes) : Bytes :=
  d.patch 0 (Bytes.leBytes 4 type.toNat)

/-- A message whose sum over the first `off` bytes is the one under `key`, if any. -/
def putMac1 (off : ℕ) (key : Option Bytes) (d : Bytes) : Bytes :=
  key.elim d fun key => d.patch off (blake2s128mac key (d.take off))

theorem length_retype {type : UInt32} {d : Bytes} (h : 4 ≤ d.length) :
    (retype type d).length = d.length :=
  Bytes.length_patch (by simpa using h)

theorem length_putMac1 {off : ℕ} {key : Option Bytes} {d : Bytes} (h : off + 16 ≤ d.length) :
    (putMac1 off key d).length = d.length := by
  cases key with
  | none => rfl
  | some key => exact Bytes.length_patch (by simpa using h)

/-- The type word of a message given one. -/
theorem load32Le_retype {type : UInt32} {d : Bytes} (h : 4 ≤ d.length) :
    load32Le (retype type d) 0 = type := by
  have hslice : (d.patch 0 (Bytes.leBytes 4 type.toNat)).slice 0
      (Bytes.leBytes 4 type.toNat).length = Bytes.leBytes 4 type.toNat :=
    Bytes.slice_patch_self (by omega)
  rw [Bytes.length_leBytes] at hslice
  have hlt : type.toNat < 256 ^ 4 := type.toNat_lt
  rw [load32Le, retype, hslice, Bytes.leNat_leBytes, Nat.mod_eq_of_lt hlt,
    UInt32.ofNat_toNat]

theorem retype_retype {t t' : UInt32} {d : Bytes} :
    retype t (retype t' d) = retype t d :=
  Bytes.patch_patch_self (Nat.zero_le _) (by simp)

/-- The type word of a message is its first four bytes. -/
theorem take_four_eq {d : Bytes} (h : 4 ≤ d.length) :
    d.take 4 = Bytes.leBytes 4 (load32Le d 0).toNat := by
  have hlen : (d.take 4).length = 4 := by
    rw [List.length_take]
    omega
  have hlt : Bytes.leNat (d.take 4) < 2 ^ 32 := by
    have := Bytes.leNat_lt (d.take 4)
    rwa [hlen] at this
  have hle := Bytes.leBytes_leNat (d.take 4)
  rw [hlen] at hle
  rw [load32Le, Bytes.slice, List.drop_zero, UInt32.toNat_ofNat_of_lt' hlt, hle]

/-- Rewriting the type word a message has changes nothing. -/
theorem retype_of_load32Le {t : UInt32} {d : Bytes} (h : 4 ≤ d.length)
    (ht : load32Le d 0 = t) : retype t d = d := by
  have hslice : d.patch 0 (d.slice 0 4) = d := Bytes.patch_slice_self (by omega)
  rw [Bytes.slice, List.drop_zero, take_four_eq h, ht] at hslice
  exact hslice

/-- The first word of a string depends on its first four bytes. -/
theorem load32Le_congr {a b : Bytes} (h : a.take 4 = b.take 4) :
    load32Le a 0 = load32Le b 0 := by
  simp only [load32Le, Bytes.slice, List.drop_zero, h]

/-- The sum does not touch the type word. -/
theorem load32Le_putMac1 {off : ℕ} {key : Option Bytes} {d : Bytes} (hoff : 4 ≤ off)
    (h : off + 16 ≤ d.length) : load32Le (putMac1 off key d) 0 = load32Le d 0 := by
  cases key with
  | none => rfl
  | some key =>
      rw [load32Le, putMac1, Option.elim_some,
        Bytes.slice_patch_of_disjoint (by omega) (Or.inl (by omega)), load32Le]

/-- The type word of the message in a range. -/
theorem read32Le_eq (m : Mem PktBuf) (p : Ptr PktBuf) {n : ℕ} (h : 4 ≤ n) :
    read32Le m p = load32Le (m.read p n) 0 := by
  have hread := m.read_add_eq_slice p (i := 0) (n := 4) (k := n) (by omega)
  rw [Ptr.add_zero] at hread
  rw [read32Le, load32Le, hread]

/-- Rewriting the type word of the message in a range. -/
theorem read_write32Le {m : Mem PktBuf} {p : Ptr PktBuf} {n : ℕ} (v : UInt32)
    (hf : m.Fits p n) (h : 4 ≤ n) : (write32Le m p v).read p n = retype v (m.read p n) :=
  Mem.read_write_of_subset (i := 0) hf (by simpa using h)

/-- Recomputing the sum of the message in a range. -/
theorem read_recomputeMac1At {m : Mem PktBuf} {p : Ptr PktBuf} {n off : ℕ} (key : Bytes)
    (hf : m.Fits p n) (h : off + 16 ≤ n) :
    (recomputeMac1At off m p key).read p n = putMac1 off (some key) (m.read p n) := by
  have htake : m.read p off = (m.read p n).take off := by
    have hread := m.read_add_eq_slice p (i := 0) (n := off) (k := n) (by omega)
    rwa [Ptr.add_zero, Bytes.slice, List.drop_zero] at hread
  rw [recomputeMac1At, Mem.read_write_of_subset hf (by simpa using h), htake]
  rfl

theorem changesIn_write32Le {m : Mem PktBuf} {p : Ptr PktBuf} {n : ℕ} (v : UInt32)
    (hf : m.Fits p n) (h : 4 ≤ n) : m.ChangesIn (write32Le m p v) p n :=
  Mem.ChangesIn.write (i := 0) hf (by simpa using h)

theorem changesIn_recomputeMac1At {m : Mem PktBuf} {p : Ptr PktBuf} {n off : ℕ} (key : Bytes)
    (hf : m.Fits p n) (h : off + 16 ≤ n) : m.ChangesIn (recomputeMac1At off m p key) p n :=
  Mem.ChangesIn.write hf (by simpa using h)

/-! ### Kinds of handshake messages -/

/-- The messages that are padded as a whole. -/
inductive HandshakeKind
  | init | response | cookie
  deriving DecidableEq

namespace HandshakeKind

/-- The type word. -/
def type : HandshakeKind → UInt32
  | init => wgHandshakeInit
  | response => wgHandshakeResponse
  | cookie => wgCookieReply

/-- The size. -/
def size : HandshakeKind → ℕ
  | init => wgInitSize
  | response => wgRespSize
  | cookie => wgCookieSize

/-- Where the sum stands, if the message has one. -/
def macOff : HandshakeKind → Option ℕ
  | init => some 116
  | response => some 60
  | cookie => none

/-- The padding in front. -/
def pad (pr : AwgProfile) : HandshakeKind → ℤ
  | init => pr.s1
  | response => pr.s2
  | cookie => pr.s3

/-- The headers. -/
def header (pr : AwgProfile) : HandshakeKind → HRange
  | init => pr.h1
  | response => pr.h2
  | cookie => pr.h3

/-- The size of the padded message. -/
def total (pr : AwgProfile) : HandshakeKind → ℤ
  | init => pr.initTotal
  | response => pr.respTotal
  | cookie => pr.cookieTotal

/-- The seed of the padding and the trailer. -/
def seed (randVal : UInt64) : HandshakeKind → UInt64
  | init => randVal
  | response => randVal ^^^ 0x12345
  | cookie => randVal ^^^ 0x67890

theorem four_le_size (k : HandshakeKind) : 4 ≤ k.size := by
  cases k <;> decide

theorem size_le (k : HandshakeKind) : k.size ≤ 148 := by
  cases k <;> decide

/-- A handshake message is no transport data. -/
theorem type_ne_transport (k : HandshakeKind) : k.type ≠ wgTransportData := by
  obtain ⟨h14, h24, h34⟩ := wgTransportData_ne
  cases k with
  | init => exact h14.symm
  | response => exact h24.symm
  | cookie => exact h34.symm

/-- The sum of a message under a key, where the message has one. -/
def putMac (k : HandshakeKind) (key : Option Bytes) (d : Bytes) : Bytes :=
  k.macOff.elim d fun off => putMac1 off key d

theorem length_putMac {k : HandshakeKind} {key : Option Bytes} {d : Bytes}
    (h : d.length = k.size) : (k.putMac key d).length = d.length := by
  cases k with
  | init => exact length_putMac1 (by rw [h]; decide)
  | response => exact length_putMac1 (by rw [h]; decide)
  | cookie => rfl

theorem load32Le_putMac {k : HandshakeKind} {key : Option Bytes} {d : Bytes}
    (h : d.length = k.size) : load32Le (k.putMac key d) 0 = load32Le d 0 := by
  cases k with
  | init => exact load32Le_putMac1 (by decide) (by rw [h]; decide)
  | response => exact load32Le_putMac1 (by decide) (by rw [h]; decide)
  | cookie => rfl

/-- A profile that passed validation leaves room for the padded message. -/
theorem pad_mem {pr : AwgProfile} (h : pr.Valid) (k : HandshakeKind) :
    0 ≤ k.pad pr ∧ (k.pad pr).toNat + k.size ≤ 1500 := by
  have := h.s1_mem
  have := h.s2_mem
  have := h.s3_mem
  cases k <;> simp only [pad, size, wgInitSize, wgRespSize, wgCookieSize] <;> omega

theorem twelve_le_pad {pr : AwgProfile} (h : pr.Valid) (k : HandshakeKind)
    (hon : pr.hpOn = true) : 12 ≤ k.pad pr := by
  obtain ⟨h1, h2, h3, -⟩ := h.hp hon
  cases k with
  | init => exact h1
  | response => exact h2
  | cookie => exact h3

/-- The size of the padded message, from the derived fields. -/
theorem total_eq (pr : AcceptedProfile) (k : HandshakeKind) :
    k.total pr.toAwgProfile = k.pad pr.toAwgProfile + k.size := by
  cases k with
  | init => exact pr.initTotal_eq
  | response => exact pr.respTotal_eq
  | cookie => exact pr.cookieTotal_eq

/-- The headers of the handshakes are none of transport data. -/
theorem not_hrangeContains_h4 {pr : AwgProfile} (h : pr.Valid) (k : HandshakeKind) {v : UInt32}
    (hv : hrangeContains (k.header pr) v = true) : hrangeContains pr.h4 v = false := by
  cases k with
  | init => exact not_hrangeContains_of_not_hrangeOverlaps h.h14 hv
  | response => exact not_hrangeContains_of_not_hrangeOverlaps h.h24 hv
  | cookie => exact not_hrangeContains_of_not_hrangeOverlaps h.h34 hv

/-- Different handshakes share no header. -/
theorem not_hrangeContains_header {pr : AwgProfile} (h : pr.Valid) {j k : HandshakeKind}
    (hjk : j ≠ k) {v : UInt32} (hv : hrangeContains (k.header pr) v = true) :
    hrangeContains (j.header pr) v = false := by
  refine not_hrangeContains_of_not_hrangeOverlaps ?_ hv
  cases j <;> cases k
  case init.init => exact absurd rfl hjk
  case response.response => exact absurd rfl hjk
  case cookie.cookie => exact absurd rfl hjk
  case response.init => exact h.h12
  case cookie.init => exact h.h13
  case cookie.response => exact h.h23
  case init.response => exact (hrangeOverlaps_comm _ _).trans h.h12
  case init.cookie => exact (hrangeOverlaps_comm _ _).trans h.h13
  case response.cookie => exact (hrangeOverlaps_comm _ _).trans h.h23

end HandshakeKind

/-- The kind of a message, by type word and size. -/
def handshakeKind? (d : Bytes) : Option HandshakeKind :=
  if load32Le d 0 = wgHandshakeInit ∧ d.length = wgInitSize then some .init
  else if load32Le d 0 = wgHandshakeResponse ∧ d.length = wgRespSize then some .response
  else if load32Le d 0 = wgCookieReply ∧ d.length = wgCookieSize then some .cookie
  else none

theorem handshakeKind?_eq_some_iff {d : Bytes} {k : HandshakeKind} :
    handshakeKind? d = some k ↔ load32Le d 0 = k.type ∧ d.length = k.size := by
  have h12 := wgHandshakeResponse_ne
  obtain ⟨h13, h23⟩ := wgCookieReply_ne
  constructor
  · intro h
    simp only [handshakeKind?] at h
    split_ifs at h with h1 h2 h3
    all_goals
      obtain rfl := Option.some.inj h
      assumption
  · rintro ⟨ht, hl⟩
    cases k with
    | init => exact if_pos ⟨ht, hl⟩
    | response =>
        rw [handshakeKind?, if_neg fun h => h12 (ht.symm.trans h.1)]
        exact if_pos ⟨ht, hl⟩
    | cookie =>
        rw [handshakeKind?, if_neg fun h => h13 (ht.symm.trans h.1),
          if_neg fun h => h23 (ht.symm.trans h.1)]
        exact if_pos ⟨ht, hl⟩

end AwgProxy
