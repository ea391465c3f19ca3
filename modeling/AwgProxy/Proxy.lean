import AwgProxy.Transform
import AwgProxy.Session

/-!
# Packets from the Remote

The state of the s2c thread of `proxy.c` and its two packet functions. In normal mode a
datagram is decoded for the one client (`processS2cPktNormal`); in reverse and server mode
a packet of the local WireGuard is routed, encoded and queued (`processS2cPktReverse`).
What is queued is a reference into a buffer, as in the source: the bytes are read when the
batch is sent.
-/

namespace AwgProxy

/-- An entry of the send queue: the region to send and its destination. -/
structure SendEntry where
  /-- `iov_base`. -/
  base : Ptr PktBuf
  /-- `iov_len`. -/
  len : ℕ
  /-- The destination. -/
  addr : CliAddr
  deriving DecidableEq

/-- What the thread sends at once, past the queue. -/
inductive Sent
  /-- The junk and the I-packets ahead of an init. -/
  | junkAndCps (addr : CliAddr)
  /-- A packet. -/
  | packet (d : Bytes) (addr : CliAddr)
  deriving DecidableEq

/-- `BATCH_SIZE`. -/
abbrev batchSize : ℕ := 32

/-- `H4_RING_SIZE`. -/
abbrev h4RingSize : ℕ := 4096

/-- `proxy_t`, as far as the s2c thread reads and writes it for a packet. -/
structure Proxy where
  /-- The configuration. -/
  cfg : AwgConfig
  /-- The session table. -/
  table : SessionTable
  /-- The buffers of the thread. -/
  mem : Mem PktBuf
  /-- The client of normal and reverse mode. -/
  clientAddr : CliAddr
  /-- That client is known. -/
  hasClient : Bool
  /-- The generator of the cold paths. -/
  rng : UInt64
  /-- The generator of the thread. -/
  rngS2c : UInt64
  /-- Drawn transport headers, for each profile. -/
  h4Ring : Fin awgMaxProfiles → List UInt32
  /-- The position in each ring. -/
  h4Idx : Fin awgMaxProfiles → ℕ
  /-- The send queue of the batch. -/
  queue : List SendEntry
  /-- What was sent past the queue, oldest first. -/
  sent : List Sent

/-- A `proxy_t` of zeros, under a configuration and with its receive buffers. -/
def Proxy.zeroed (cfg : AwgConfig) (mem : Mem PktBuf) : Proxy where
  cfg := cfg
  table := .empty
  mem := mem
  clientAddr := .v4 0 0
  hasClient := false
  rng := 0
  rngS2c := 0
  h4Ring := fun _ => []
  h4Idx := fun _ => 0
  queue := []
  sent := []

/-- A region queued for sending. -/
def Proxy.queueSend (p : Proxy) (base : Ptr PktBuf) (len : ℕ) (addr : CliAddr) : Proxy :=
  { p with queue := p.queue ++ [⟨base, len, addr⟩] }

/-- The draws of `fill_h4_ring`: `n` headers of the range, and the generator after them. -/
def drawH4 (h4 : HRange) : ℕ → UInt64 → List UInt32 × UInt64
  | 0, s => ([], s)
  | n + 1, s =>
      let v := fastrandU64 s
      let rest := drawH4 h4 n v
      (hrangePick h4 v :: rest.1, rest.2)

/-- The ring of a range, and the generator after it: a range of one header is not drawn
from. -/
def h4RingOf (h4 : HRange) (rng : UInt64) : List UInt32 × UInt64 :=
  if h4.min = h4.max then (List.replicate h4RingSize h4.min, rng) else drawH4 h4 h4RingSize rng

/-- `fill_h4_ring`. -/
def fillH4Ring (p : Proxy) (prof : Fin awgMaxProfiles) : Proxy :=
  let drawn := h4RingOf (p.cfg.profiles prof).h4 p.rng
  { p with h4Ring := Function.update p.h4Ring prof drawn.1, rng := drawn.2 }

/-- `pick_h4_prof`: the next header of the ring, which is refilled when it has been used
up. -/
def pickH4Prof (p : Proxy) (prof : Fin awgMaxProfiles) : Proxy × UInt32 :=
  let v := (p.h4Ring prof).getD (p.h4Idx prof) 0
  let idx := (p.h4Idx prof + 1) % h4RingSize
  let p := { p with h4Idx := Function.update p.h4Idx prof idx }
  (if idx = 0 then fillH4Ring p prof else p, v)

/-- Drawing a header changes the rings and the generator alone. -/
theorem pickH4Prof_eq (p : Proxy) (prof : Fin awgMaxProfiles) :
    ∃ ring idx rng, (pickH4Prof p prof).1 =
      { p with h4Ring := ring, h4Idx := idx, rng := rng } := by
  rw [pickH4Prof]
  dsimp only
  split
  · exact ⟨_, _, _, rfl⟩
  · exact ⟨p.h4Ring, _, p.rng, rfl⟩

/-! ### Normal mode -/

/-- The fast path looks at a datagram that is long enough for transport data and cannot be
a handshake by its size. -/
def normalChecksTransport (cfg : AwgConfig) (n : ℕ) : Bool :=
  (n : ℤ) ≥ cfg.s4 + wgTransportMin &&
    (!cfg.transportSizeAmbiguous ||
      ((n : ℤ) ≠ cfg.initTotal && (n : ℤ) ≠ cfg.respTotal && (n : ℤ) ≠ cfg.cookieTotal))

/-- `process_s2c_pkt_normal` on the datagram of `n` bytes at `pkt`: transport data by the
fast path, everything else by the decoder, with the keystream block if the fast path has
computed it. -/
def processS2cPktNormal (p : Proxy) (pkt : Ptr PktBuf) (n : ℕ) : Proxy :=
  let cfg := p.cfg
  let checks := normalChecksTransport cfg n
  let ks := if checks && cfg.hpOn then some (hpRecvKs cfg p.mem pkt none) else none
  let data := pkt.add cfg.s4.toNat
  let h := read32Le p.mem data ^^^ ks.elim 0 fun k => load32Le k 0
  if checks && hrangeContains cfg.h4 h then
    let m := ks.elim p.mem fun k =>
      p.mem.write data (chacha20XorKs (p.mem.read data awgHpTransportHdr) k)
    let p := { p with mem := write32Le m data wgTransportData, cfg := awgWindowNote cfg n }
    p.queueSend data (n - cfg.s4.toNat) p.clientAddr
  else
    let r := transformInboundProfile p.mem pkt n cfg (configActiveProfile cfg) ks
    let p := { p with mem := r.mem }
    match r.out with
    | none => p
    | some (out, outLen) => p.queueSend out outLen p.clientAddr

/-! ### Reverse and server mode -/

/-- The destination of a packet in server mode: the table, the entry found and the peer an
init was resolved to, `-1` for none. -/
structure S2cRoute where
  /-- The table; a response leaves our index in it. -/
  table : SessionTable
  /-- `dest_entry`. -/
  entry : Option Slot
  /-- `init_peer`. -/
  initPeer : ℤ

/-- The look-up of `process_s2c_pkt_reverse` for the packet `d`. -/
def s2cRoute (cfg : AwgConfig) (t : SessionTable) (d : Bytes) : S2cRoute :=
  let msgType := load32Le d 0
  if msgType = wgTransportData ∧ d.length ≥ wgTransportMin then
    ⟨t, sessionGetEntry t (load32Le d 4), -1⟩
  else if msgType = wgHandshakeResponse ∧ d.length = wgRespSize then
    let entry := sessionGetEntry t (load32Le d 8)
    ⟨sessionSetServerIndex t entry (load32Le d 4), entry, -1⟩
  else if msgType = wgCookieReply ∧ d.length = wgCookieSize then
    ⟨t, sessionGetEntry t (load32Le d 4), -1⟩
  else if msgType = wgHandshakeInit ∧ d.length = wgInitSize then
    let initPeer := configServerResolvePeerForInit cfg d
    let entry := if initPeer ≥ 0 then sessionFindByPeer t initPeer else none
    match entry with
    | some s => ⟨t, some s, initPeer⟩
    | none => ⟨t, sessionFindSoleEntry t, initPeer⟩
  else ⟨t, none, -1⟩

/-- The key of a peer slot, where the slot is one of the list. -/
def peerMac1key (cfg : AwgConfig) (peerSlot : ℤ) : Option Bytes :=
  if peerSlot ≥ 0 then cfg.serverPeerMac1keys[peerSlot.toNat]? else none

/-- The handshake step of server mode: the peer behind the packet `d` for `entry` is
written into the entry, its entries elsewhere are retired. Returns the table and the MAC1
key of the peer. -/
def s2cIdentify (cfg : AwgConfig) (t : SessionTable) (s : Slot) (initPeer : ℤ) (d : Bytes) :
    SessionTable × Option Bytes :=
  let dest := (t.sessions s).addr
  let t := if initPeer ≥ 0 then sessionSetPeerSlot t (some s) initPeer else t
  let peerSlot := sessionGetPeerSlot t (some s)
  let outMac1key := peerMac1key cfg peerSlot
  let resolved :=
    if load32Le d 0 = wgHandshakeResponse ∧ d.length = wgRespSize ∧ outMac1key = none then
      configServerResolvePeerForResponse cfg d
    else -1
  let (t, peerSlot, outMac1key) :=
    if resolved ≥ 0 then
      (sessionSetPeerSlot t (some s) resolved, resolved, peerMac1key cfg resolved)
    else (t, peerSlot, outMac1key)
  (if peerSlot ≥ 0 then sessionDropMovedPeer t peerSlot dest else t, outMac1key)

/-- The type word of transport data at `pkt`, replaced by a header of profile `prof`. -/
def s2cPutHeader (p : Proxy) (pkt : Ptr PktBuf) (prof : Fin awgMaxProfiles) : Proxy :=
  if (p.cfg.profiles prof).h4Noop then p
  else
    let drawn := pickH4Prof p prof
    { drawn.1 with mem := write32Le drawn.1.mem pkt drawn.2 }

/-- The transport branch of `process_s2c_pkt_reverse`: the packet of `n` bytes at `pkt`
under profile `prof`, padded in place. -/
def s2cTransport (p : Proxy) (pkt : Ptr PktBuf) (n headroom : ℕ) (prof : Fin awgMaxProfiles)
    (dest : CliAddr) : Proxy :=
  let cfg := p.cfg
  let pr := cfg.profiles prof
  let p := s2cPutHeader p pkt prof
  if pr.s4 > 0 ∧ (headroom : ℤ) ≥ pr.s4 then
    let out := pkt.sub pr.s4.toNat
    let pad := fastrandFill p.rngS2c pr.s4.toNat
    let m := p.mem.write out pad.1
    let m := if pr.hpOn then
        m.write pkt (chacha20Xor cfg.hpKey (m.read out 12) (m.read pkt awgHpTransportHdr))
      else m
    let total := pr.s4.toNat + n
    ({ p with mem := m, rngS2c := pad.2, cfg := awgWindowNote cfg total }).queueSend out total
      dest
  else ({ p with cfg := awgWindowNote cfg n }).queueSend pkt n dest

/-- The last part of `process_s2c_pkt_reverse`: the packet goes through the encoder; an
init that needs junk is sent at once, everything else is queued. -/
def s2cTransform (p : Proxy) (base : Ptr PktBuf) (n headroom : ℕ) (prof : Fin awgMaxProfiles)
    (outMac1key : Option Bytes) (dest : CliAddr) : Proxy :=
  let randVal := fastrandU64 p.rngS2c
  let r := transformOutboundProfile p.mem base headroom n p.cfg (p.cfg.profiles prof) outMac1key
    randVal
  let p := { p with mem := r.mem, rngS2c := randVal }
  match r.out with
  | none => p
  | some out =>
      if r.sendJunk then
        { p with sent := p.sent ++ [.junkAndCps dest, .packet (p.mem.read out r.outLen) dest] }
      else p.queueSend out r.outLen dest

/-- `process_s2c_pkt_reverse` on the packet of `n` bytes, `headroom` bytes behind `base`. -/
def processS2cPktReverse (p : Proxy) (base : Ptr PktBuf) (n headroom : ℕ) : Proxy :=
  let cfg := p.cfg
  let pkt := base.add headroom
  let d := p.mem.read pkt n
  let isTransport := n ≥ wgTransportMin ∧ load32Le d 0 = wgTransportData
  if cfg.mode = .server then
    if n < 4 then p
    else
      let route := s2cRoute cfg p.table d
      let p := { p with table := route.table }
      match route.entry with
      | none => p
      | some s =>
          let e := p.table.sessions s
          let prof := if cfg.profileCount > 1 then e.prof else cfg.activeProfile
          if isTransport then s2cTransport p pkt n headroom prof e.addr
          else
            let (t, outMac1key) := s2cIdentify cfg p.table s route.initPeer d
            s2cTransform { p with table := t } base n headroom prof outMac1key e.addr
  else if !p.hasClient then p
  else if isTransport then s2cTransport p pkt n headroom cfg.activeProfile p.clientAddr
  else s2cTransform p base n headroom cfg.activeProfile none p.clientAddr

/-! ### The peer behind a packet -/

/-- The peer a handshake `d` is taken to be for: the one its init was resolved to, the one
the entry knows, or the one a response resolves to when neither has a key. -/
def s2cPeer (cfg : AwgConfig) (known initPeer : ℤ) (d : Bytes) : ℤ :=
  let k := if initPeer ≥ 0 then initPeer else known
  let resolved :=
    if load32Le d 0 = wgHandshakeResponse ∧ d.length = wgRespSize ∧ peerMac1key cfg k = none then
      configServerResolvePeerForResponse cfg d
    else -1
  if resolved ≥ 0 then resolved else k

theorem set_peerSlot_self (t : SessionTable) (s : Slot) :
    t.set s { t.sessions s with peerSlot := (t.sessions s).peerSlot } = t := by
  rw [SessionTable.set, Function.update_eq_self]

/-- **The handshake step** writes the peer into the entry, retires its entries elsewhere
and takes its key. -/
theorem s2cIdentify_eq (cfg : AwgConfig) (t : SessionTable) (s : Slot) (initPeer : ℤ)
    (d : Bytes) :
    s2cIdentify cfg t s initPeer d =
      let k := s2cPeer cfg (t.sessions s).peerSlot initPeer d
      (sessionDropMovedPeer (sessionSetPeerSlot t (some s) k) k (t.sessions s).addr,
        peerMac1key cfg k) := by
  have hinit : (if initPeer ≥ 0 then sessionSetPeerSlot t (some s) initPeer else t) =
      sessionSetPeerSlot t (some s)
        (if initPeer ≥ 0 then initPeer else (t.sessions s).peerSlot) := by
    split
    · rfl
    · exact (set_peerSlot_self t s).symm
  have hget : ∀ k, sessionGetPeerSlot (sessionSetPeerSlot t (some s) k) (some s) = k := by
    intro k
    simp [sessionGetPeerSlot, sessionSetPeerSlot]
  have hset : ∀ k k', sessionSetPeerSlot (sessionSetPeerSlot t (some s) k) (some s) k' =
      sessionSetPeerSlot t (some s) k' := by
    intro k k'
    simp only [sessionSetPeerSlot, SessionTable.set, Function.update_self, Function.update_idem]
  have hdrop : ∀ (t' : SessionTable) (k : ℤ) cur,
      (if k ≥ 0 then sessionDropMovedPeer t' k cur else t') = sessionDropMovedPeer t' k cur := by
    intro t' k cur
    by_cases hk : k ≥ 0
    · rw [if_pos hk]
    · rw [if_neg hk, sessionDropMovedPeer, if_pos (by omega)]
  rw [s2cIdentify, s2cPeer]
  dsimp only
  rw [hinit, hget, hdrop]
  generalize (if initPeer ≥ 0 then initPeer else (t.sessions s).peerSlot) = k
  generalize (if load32Le d 0 = wgHandshakeResponse ∧ d.length = wgRespSize ∧
    peerMac1key cfg k = none then configServerResolvePeerForResponse cfg d else -1) = resolved
  by_cases hres : resolved ≥ 0
  · rw [if_pos hres, if_pos hres, hset]
  · rw [if_neg hres, if_neg hres]

end AwgProxy
