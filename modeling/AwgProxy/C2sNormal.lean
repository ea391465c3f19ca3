import AwgProxy.Encoder
import AwgProxy.Proxy

/-!
# A Batch of the Client in Normal Mode

The c2s thread of `proxy.c` in normal mode takes a batch of datagrams of the client, each in
a buffer of its own, and hands to the kernel what the encoder makes of them. Transport data
has a path of its own, with headers from the ring of the stage and paddings from the
generator of the thread (`c2sTransport`), and is queued. Every other datagram flushes the
queue and goes through the encoder (`c2sHandshake`): what needs junk is sent at once,
everything else is queued. The bytes of a queued region are read when the queue is flushed.

* `c2sNormalPkt_spec` — what one datagram adds to the bytes handed over and queued.
* `batch_encodes` — a batch hands over one encoding of every datagram that is not empty, in
  the order received, and no region is written to between its queueing and its sending.
-/

namespace AwgProxy

/-! ### The state of the thread -/

/-- What the thread hands to the kernel. -/
inductive C2sSent
  /-- The I-packets and the junk ahead of an init (`send_junk_and_cps`). -/
  | junkAndCps
  /-- A packet. -/
  | packet (d : Bytes)
  deriving DecidableEq

/-- `proxy_t`, as far as `c2s_thread_normal` reads and writes it for a batch. The rings and
their generator are the inherited ones; the buffers are those of this thread. -/
structure C2sNormal extends Proxy where
  /-- The generator of the thread. -/
  rngC2s : UInt64
  /-- The client has sent an init. -/
  clientInit : Bool
  /-- The queue of the batch. -/
  sendC2s : List (Ptr PktBuf × ℕ)
  /-- What was handed to the kernel, oldest first. -/
  handed : List C2sSent

/-- `pick_h4`. -/
def pickH4 (p : C2sNormal) : C2sNormal × UInt32 :=
  let drawn := pickH4Prof p.toProxy p.cfg.activeProfile
  ({ p with toProxy := drawn.1 }, drawn.2)

/-- `fill_h4_rings`. -/
def fillH4Rings (p : Proxy) : Proxy :=
  ((List.finRange awgMaxProfiles).take p.cfg.profileCount).foldl fillH4Ring p

/-- A region queued for the remote. -/
def C2sNormal.queueRemote (p : C2sNormal) (base : Ptr PktBuf) (len : ℕ) : C2sNormal :=
  { p with sendC2s := p.sendC2s ++ [(base, len)] }

/-- The queued packets, as they stand in the buffers. -/
def C2sNormal.queued (p : C2sNormal) : List C2sSent :=
  p.sendC2s.map fun e => .packet (p.mem.read e.1 e.2)

/-- `send_batch_remote` on the whole queue, if there is one: the kernel reads the packets
now. -/
def C2sNormal.flush (p : C2sNormal) : C2sNormal :=
  { p with sendC2s := [], handed := p.handed ++ p.queued }

/-! ### One datagram -/

/-- The header of the fast path: the next one of the ring, unless transport data passes
unchanged. -/
def c2sPutHeader (p : C2sNormal) (data : Ptr PktBuf) : C2sNormal :=
  if p.cfg.h4Noop then p
  else
    let drawn := pickH4 p
    { drawn.1 with mem := write32Le drawn.1.mem data drawn.2 }

/-- The padding of the fast path, written from `base` on. -/
def c2sPutPadding (p : C2sNormal) (base : Ptr PktBuf) : C2sNormal :=
  if p.cfg.s4 > 0 then
    let pad := fastrandFill p.rngC2s p.cfg.s4.toNat
    { p with mem := p.mem.write base pad.1, rngC2s := pad.2 }
  else p

/-- The fast path of `c2s_thread_normal`: the message of `n` bytes at `data` gets a header
of the ring, a padding of the generator in front and protection over its own header, and is
queued. -/
def c2sTransport (p : C2sNormal) (data : Ptr PktBuf) (n : ℕ) : C2sNormal :=
  let s4 := p.cfg.s4.toNat
  let base := if p.cfg.s4 > 0 then data.sub s4 else data
  let p := c2sPutPadding (c2sPutHeader p data) base
  let m :=
    if p.cfg.hpOn then
      p.mem.write data
        (chacha20Xor p.cfg.hpKey (p.mem.read base 12) (p.mem.read data awgHpTransportHdr))
    else p.mem
  ({ p with mem := m, cfg := awgWindowNote p.cfg (s4 + n) }).queueRemote base (s4 + n)

/-- The slow path of `c2s_thread_normal`: the queue is flushed, then the message of `n`
bytes, `headroom` bytes behind `buf`, goes through the encoder. -/
def c2sHandshake (p : C2sNormal) (buf : Ptr PktBuf) (headroom n : ℕ) : C2sNormal :=
  let p := p.flush
  let isInit := n ≥ 4 && read32Le p.mem (buf.add headroom) = wgHandshakeInit
  let p := { p with clientInit := p.clientInit || isInit }
  let randVal := fastrandU64 p.rngC2s
  let r := transformOutboundProfile p.mem buf headroom n p.cfg (configActiveProfile p.cfg) none
    randVal
  let p := { p with mem := r.mem, rngC2s := randVal }
  match r.out with
  | none => p
  | some out =>
      if r.sendJunk then
        { p with handed := p.handed ++ [.junkAndCps, .packet (p.mem.read out r.outLen)] }
      else p.queueRemote out r.outLen

/-- The loop body of `c2s_thread_normal`, on the `n` bytes received in buffer `i`. -/
def c2sNormalPkt (p : C2sNormal) (i n : ℕ) : C2sNormal :=
  let buf : Ptr PktBuf := ⟨.recv i, 0⟩
  let data := buf.add p.cfg.maxS4
  if n = 0 then p
  else if n ≥ wgTransportMin ∧ read32Le p.mem data = wgTransportData then c2sTransport p data n
  else c2sHandshake p buf p.cfg.maxS4 n

/-- The loop of `c2s_thread_normal` over the lengths received in the buffers from `i` on. -/
def c2sNormalLoop (p : C2sNormal) (i : ℕ) : List ℕ → C2sNormal
  | [] => p
  | n :: ns => c2sNormalLoop (c2sNormalPkt p i n) (i + 1) ns

/-- `c2s_thread_normal` on a batch: the loop, then the rest of the queue is flushed. -/
def c2sNormalBatch (p : C2sNormal) (ns : List ℕ) : C2sNormal :=
  (c2sNormalLoop p 0 ns).flush

/-! ### The ring of a stage -/

/-- The ring of a stage is full of headers of its range. -/
structure RingReady (p : Proxy) (prof : Fin awgMaxProfiles) : Prop where
  length : (p.h4Ring prof).length = h4RingSize
  mem : ∀ v ∈ p.h4Ring prof, hrangeContains (p.cfg.profiles prof).h4 v = true
  idx : p.h4Idx prof < h4RingSize

theorem length_drawH4 (h4 : HRange) (n : ℕ) (s : UInt64) : (drawH4 h4 n s).1.length = n := by
  induction n generalizing s with
  | zero => rfl
  | succ n ih => rw [drawH4, List.length_cons, ih]

theorem hrangeContains_of_mem_drawH4 {h4 : HRange} {n : ℕ} {s : UInt64} {v : UInt32}
    (h : v ∈ (drawH4 h4 n s).1) : hrangeContains h4 v = true := by
  induction n generalizing s with
  | zero => contradiction
  | succ n ih =>
      rcases List.mem_cons.mp h with rfl | h
      · exact hrangeContains_hrangePick _ _
      · exact ih h

theorem length_h4RingOf (h4 : HRange) (rng : UInt64) :
    (h4RingOf h4 rng).1.length = h4RingSize := by
  rw [h4RingOf]
  split
  · exact List.length_replicate
  · exact length_drawH4 ..

theorem hrangeContains_of_mem_h4RingOf {h4 : HRange} {rng : UInt64} {v : UInt32}
    (h : v ∈ (h4RingOf h4 rng).1) : hrangeContains h4 v = true := by
  rw [h4RingOf] at h
  split at h
  · obtain rfl := List.eq_of_mem_replicate h
    exact (hrangeContains_iff _ _).mpr ⟨UInt32.le_refl _, h4.le⟩
  · exact hrangeContains_of_mem_drawH4 h

theorem h4Ring_fillH4Ring (p : Proxy) (prof : Fin awgMaxProfiles) :
    (fillH4Ring p prof).h4Ring =
      Function.update p.h4Ring prof (h4RingOf (p.cfg.profiles prof).h4 p.rng).1 := rfl

/-- Filling the ring of a stage readies it. -/
theorem RingReady.fillH4Ring_self {p : Proxy} {prof : Fin awgMaxProfiles}
    (h : p.h4Idx prof < h4RingSize) : RingReady (fillH4Ring p prof) prof where
  length := by
    rw [h4Ring_fillH4Ring, Function.update_self]
    exact length_h4RingOf ..
  mem v hv := by
    rw [h4Ring_fillH4Ring, Function.update_self] at hv
    exact hrangeContains_of_mem_h4RingOf hv
  idx := h

/-- Filling a ring keeps every other one ready. -/
theorem RingReady.fillH4Ring {p : Proxy} {prof : Fin awgMaxProfiles} (h : RingReady p prof)
    (prof' : Fin awgMaxProfiles) : RingReady (fillH4Ring p prof') prof := by
  by_cases hp : prof = prof'
  · subst hp
    exact .fillH4Ring_self h.idx
  · have hring : (AwgProxy.fillH4Ring p prof').h4Ring prof = p.h4Ring prof := by
      rw [h4Ring_fillH4Ring, Function.update_of_ne hp]
    exact ⟨hring ▸ h.length, hring ▸ h.mem, h.idx⟩

/-- A header of a ready ring is one of the range, and the ring stays ready. -/
theorem RingReady.pickH4Prof {p : Proxy} {prof : Fin awgMaxProfiles} (h : RingReady p prof) :
    RingReady (pickH4Prof p prof).1 prof ∧
      hrangeContains (p.cfg.profiles prof).h4 (pickH4Prof p prof).2 = true := by
  have hidx : (p.h4Idx prof + 1) % h4RingSize < h4RingSize := Nat.mod_lt _ (by decide)
  have hnext : RingReady { p with
      h4Idx := Function.update p.h4Idx prof ((p.h4Idx prof + 1) % h4RingSize) } prof := by
    refine ⟨h.length, h.mem, ?_⟩
    exact lt_of_eq_of_lt (Function.update_self ..) hidx
  constructor
  · rw [AwgProxy.pickH4Prof]
    dsimp only
    split
    · exact .fillH4Ring_self hnext.idx
    · exact hnext
  · have hlt : p.h4Idx prof < (p.h4Ring prof).length := h.length ▸ h.idx
    refine h.mem _ ?_
    rw [AwgProxy.pickH4Prof, List.getD_eq_getElem?_getD, List.getElem?_eq_getElem hlt,
      Option.getD_some]
    exact List.getElem_mem hlt

/-- `fill_h4_rings` readies the ring of every stage of the chain. -/
theorem ringReady_fillH4Rings {p : Proxy} (h : ∀ prof, p.h4Idx prof < h4RingSize)
    {prof : Fin awgMaxProfiles} (hp : (prof : ℕ) < p.cfg.profileCount) :
    RingReady (fillH4Rings p) prof := by
  have hloop : ∀ (l : List (Fin awgMaxProfiles)) (q : Proxy),
      (∀ i, q.h4Idx i < h4RingSize) → RingReady q prof ∨ prof ∈ l →
      RingReady (l.foldl fillH4Ring q) prof := by
    intro l
    induction l with
    | nil => exact fun q _ hr => hr.resolve_right (fun hm => nomatch hm)
    | cons i l ih =>
        intro q hq hr
        rw [List.foldl_cons]
        refine ih (AwgProxy.fillH4Ring q i) hq ?_
        rcases hr with hr | hm
        · exact Or.inl (hr.fillH4Ring i)
        · rcases List.mem_cons.mp hm with rfl | hm
          · exact Or.inl (.fillH4Ring_self (hq prof))
          · exact Or.inr hm
  refine hloop _ p h (Or.inr (List.mem_take_iff_getElem.mpr ?_))
  have hlen : (prof : ℕ) < (List.finRange awgMaxProfiles).length := by
    rw [List.length_finRange]
    exact prof.isLt
  exact ⟨prof, lt_min hp hlen, by simp⟩

/-! ### The thread between batches -/

/-- The thread as it runs: a chain of accepted profiles with their largest `s4`, the flat
fields of the active one, its ring, and the buffers. -/
structure C2sReady (p : C2sNormal) : Prop where
  accepted : ∀ i : Fin awgMaxProfiles, (i : ℕ) < p.cfg.profileCount →
    ∃ pr : AcceptedProfile, p.cfg.profiles i = pr.toAwgProfile
  active : (p.cfg.activeProfile : ℕ) < p.cfg.profileCount
  mirrored : p.cfg.Mirrored
  maxS4 : p.cfg.maxS4 = (configComputeMaxS4 p.cfg).maxS4
  bufs : ∀ i, i < batchSize → (p.mem (.recv i)).length = awgPacketBufSize + awgPacketHeadroom
  hs : (p.mem .hsBuf).length = awgPacketBufSize
  ring : RingReady p.toProxy p.cfg.activeProfile

namespace C2sReady

variable {p : C2sNormal} {i n : ℕ}

theorem valid (h : C2sReady p) {j : Fin awgMaxProfiles} (hj : (j : ℕ) < p.cfg.profileCount) :
    (p.cfg.profiles j).Valid := by
  obtain ⟨pr, hpr⟩ := h.accepted j hj
  rw [hpr]
  exact pr.valid

theorem s4_le (h : C2sReady p) : (configActiveProfile p.cfg).s4 ≤ p.cfg.maxS4 := by
  rw [h.maxS4]
  exact s4_le_maxS4_configComputeMaxS4 h.active

/-- A received datagram stands behind the headroom of its buffer. -/
theorem pktLayout (h : C2sReady p) (hi : i < batchSize) (hn : n ≤ awgPacketBufSize) :
    PktLayout p.mem ((⟨.recv i, 0⟩ : Ptr PktBuf).add p.cfg.maxS4) p.cfg.maxS4 n := by
  have hlen := h.bufs i hi
  have hmax : p.cfg.maxS4 ≤ 256 := by
    rw [h.maxS4]
    exact maxS4_configComputeMaxS4_le (Nat.zero_lt_of_lt h.active) fun j hj => h.valid hj
  simp only [awgPacketBufSize, awgPacketHeadroom] at hlen hn
  exact .recv (by omega) (by omega) h.hs

end C2sReady

/-- `fill_h4_rings` on zeroed positions readies a thread whose chain and buffers are. -/
theorem c2sReady_fillH4Rings {p : C2sNormal}
    (hacc : ∀ i : Fin awgMaxProfiles, (i : ℕ) < p.cfg.profileCount →
      ∃ pr : AcceptedProfile, p.cfg.profiles i = pr.toAwgProfile)
    (hact : (p.cfg.activeProfile : ℕ) < p.cfg.profileCount) (hmir : p.cfg.Mirrored)
    (hmax : p.cfg.maxS4 = (configComputeMaxS4 p.cfg).maxS4)
    (hbufs : ∀ i, i < batchSize →
      (p.mem (.recv i)).length = awgPacketBufSize + awgPacketHeadroom)
    (hhs : (p.mem .hsBuf).length = awgPacketBufSize) (hidx : ∀ i, p.h4Idx i = 0) :
    C2sReady { p with toProxy := fillH4Rings p.toProxy } := by
  have hkeeps : ∀ (l : List (Fin awgMaxProfiles)) (q : Proxy),
      (l.foldl fillH4Ring q).cfg = q.cfg ∧ (l.foldl fillH4Ring q).mem = q.mem := by
    intro l
    induction l with
    | nil => exact fun q => ⟨rfl, rfl⟩
    | cons i l ih => exact fun q => ih (fillH4Ring q i)
  obtain ⟨hcfg, hmem⟩ : (fillH4Rings p.toProxy).cfg = p.cfg ∧
      (fillH4Rings p.toProxy).mem = p.mem := hkeeps _ _
  have hring := ringReady_fillH4Rings (p := p.toProxy) (fun i => hidx i ▸ by decide) hact
  constructor
  · rwa [hcfg]
  · rwa [hcfg]
  · rwa [hcfg]
  · rwa [hcfg]
  · rwa [hmem]
  · rwa [hmem]
  · rwa [hcfg]

/-! ### What the encoder makes of a datagram -/

/-- A message of transport data. -/
def IsTransport (d : Bytes) : Prop :=
  d.length ≥ wgTransportMin ∧ load32Le d 0 = wgTransportData

instance (d : Bytes) : Decidable (IsTransport d) :=
  inferInstanceAs (Decidable (_ ∧ _))

/-- An encoding of the transport data `d`: as it is when transport data passes unchanged,
otherwise under a header of the range, behind a padding of `s4` bytes and with its own
header encrypted under the first bytes of the padding. -/
def EncodesTransport (cfg : AwgConfig) (d w : Bytes) : Prop :=
  let pr := configActiveProfile cfg
  if pr.h4Noop then w = d
  else ∃ h pad, hrangeContains pr.h4 h = true ∧ pad.length = pr.s4.toNat ∧
    w = pad ++ protectHeader cfg pr pad (retype h d)

/-- What a result of the encoder is handed over as: nothing for a dropped message, the
packet otherwise, behind I-packets and junk where they are asked for. -/
def OutboundResult.handed (r : OutboundResult) : List C2sSent :=
  match r.out with
  | none => []
  | some out =>
      (if r.sendJunk then [.junkAndCps] else []) ++ [.packet (r.mem.read out r.outLen)]

/-- A thread's buffers with the message `d` behind `headroom` bytes. -/
def plainMem (headroom : ℕ) (d : Bytes) : Mem PktBuf
  | .recv _ => List.replicate headroom 0 ++ d ++ List.replicate awgPacketBufSize 0
  | .gro => []
  | .hsBuf => List.replicate awgPacketBufSize 0

/-- `transform_outbound` on the message `d` alone. -/
def plainEncode (cfg : AwgConfig) (randVal : UInt64) (d : Bytes) : List C2sSent :=
  (transformOutboundProfile (plainMem cfg.maxS4 d) ⟨.recv 0, 0⟩ cfg.maxS4 d.length cfg
    (configActiveProfile cfg) none randVal).handed

/-- What the encoder could hand over for the datagram `d`: an encoding of transport data, or
the output of `transform_outbound` under some random value and trailer window. -/
def EncodedAs (cfg : AwgConfig) (d : Bytes) (s : List C2sSent) : Prop :=
  if IsTransport d then ∃ w, EncodesTransport cfg d w ∧ s = [.packet w]
  else ∃ randVal window, s = plainEncode { cfg with udpWindow := window } randVal d

/-- The window of trailers is no part of what could be handed over. -/
theorem encodedAs_udpWindow {cfg cfg' : AwgConfig} {w : UInt32}
    (h : cfg' = { cfg with udpWindow := w }) {d : Bytes} {s : List C2sSent} :
    EncodedAs cfg' d s ↔ EncodedAs cfg d s := by
  subst h
  rfl

/-- A handshake that is not dropped is handed over as its padded encoding. -/
theorem handed_handshake {m : Mem PktBuf} {buf : Ptr PktBuf} {dataoff n : ℕ}
    {cfg : AwgConfig} {pr : AwgProfile} (key : Option Bytes) (randVal : UInt64)
    {k : HandshakeKind} (L : PktLayout m (buf.add dataoff) dataoff n) (hv : pr.Valid)
    (hk : handshakeKind? (m.read (buf.add dataoff) n) = some k)
    (hc : k = .cookie → cfg.disableCookies = false) :
    (transformOutboundProfile m buf dataoff n cfg pr key randVal).handed =
      (if k.junk cfg pr then [.junkAndCps] else []) ++
        [.packet (encodeHandshake cfg pr (k.pad pr).toNat (k.seed randVal)
          (k.rewrite pr (key <|> cfg.mac1keyOut) randVal (m.read (buf.add dataoff) n)))] := by
  obtain ⟨hty, hsz⟩ := handshakeKind?_eq_some_iff.mp hk
  rw [Mem.length_read L.fits] at hsz
  subst hsz
  rw [← read32Le_eq m _ k.four_le_size] at hty
  obtain ⟨out, hout, hread, -⟩ :=
    transformOutboundProfile_handshake key randVal L hv hty rfl hc rfl
  have hjunk : (transformOutboundProfile m buf dataoff k.size cfg pr key randVal).sendJunk =
      k.junk cfg pr := by
    rw [transformOutboundProfile_eq_padHandshake hty rfl hc]
  simp only [OutboundResult.handed, hout, hread, hjunk]

/-- What is handed over depends on the message alone, unless it is transport data. -/
theorem handed_congr {m m' : Mem PktBuf} {buf buf' : Ptr PktBuf} {dataoff n : ℕ}
    {cfg : AwgConfig} {pr : AwgProfile} (key : Option Bytes) (randVal : UInt64)
    (L : PktLayout m (buf.add dataoff) dataoff n)
    (L' : PktLayout m' (buf'.add dataoff) dataoff n) (hv : pr.Valid)
    (hd : m'.read (buf'.add dataoff) n = m.read (buf.add dataoff) n)
    (hnt : ¬ IsTransport (m.read (buf.add dataoff) n)) :
    (transformOutboundProfile m buf dataoff n cfg pr key randVal).handed =
      (transformOutboundProfile m' buf' dataoff n cfg pr key randVal).handed := by
  have hlen := Mem.length_read L.fits
  rcases hk : handshakeKind? (m.read (buf.add dataoff) n) with _ | k
  · have hno : ∀ {m'' : Mem PktBuf} {buf'' : Ptr PktBuf},
        m''.read (buf''.add dataoff) n = m.read (buf.add dataoff) n →
        ¬ (read32Le m'' (buf''.add dataoff) = wgTransportData ∧ 32 ≤ n) := by
      rintro m'' buf'' hd'' ⟨hty, h32⟩
      rw [read32Le_eq m'' _ (by omega : 4 ≤ n), hd''] at hty
      exact hnt ⟨by rw [hlen]; exact h32, hty⟩
    rw [transformOutboundProfile_unknown key randVal L.fits hk (hno rfl),
      transformOutboundProfile_unknown key randVal L'.fits (hd ▸ hk) (hno hd)]
    simp only [OutboundResult.handed, hd]
  · by_cases hc : k = .cookie → cfg.disableCookies = false
    · rw [handed_handshake key randVal L hv hk hc, handed_handshake key randVal L' hv (hd ▸ hk) hc,
        hd]
    · rw [Classical.not_imp, Bool.not_eq_false] at hc
      obtain ⟨rfl, hdis⟩ := hc
      have hdrop : ∀ {m'' : Mem PktBuf} {buf'' : Ptr PktBuf},
          m''.read (buf''.add dataoff) n = m.read (buf.add dataoff) n →
          (transformOutboundProfile m'' buf'' dataoff n cfg pr key randVal).handed = [] := by
        intro m'' buf'' hd''
        obtain ⟨hty, hsz⟩ := handshakeKind?_eq_some_iff.mp hk
        rw [hlen] at hsz
        subst hsz
        rw [← hd'', ← read32Le_eq m'' _ HandshakeKind.cookie.four_le_size] at hty
        exact congrArg OutboundResult.handed (transformOutboundProfile_cookie_disabled hty hdis)
      rw [hdrop rfl, hdrop hd]

/-! ### The frame of a datagram -/

/-- Between `p` and `p'` no queued region is written to before it is sent: all of them are
still queued with the bytes they had, or all of them were sent with these bytes. -/
def KeepsQueue (p p' : C2sNormal) : Prop :=
  (p'.handed = p.handed ∧ p.sendC2s <+: p'.sendC2s ∧
    ∀ e ∈ p.sendC2s, p'.mem.read e.1 e.2 = p.mem.read e.1 e.2) ∨
  p.handed ++ p.queued <+: p'.handed

/-- What processing the datagram in buffer `i` may change. -/
structure C2sFrame (p p' : C2sNormal) (i : ℕ) : Prop where
  shape : p.mem.SameShape p'.mem
  mem : ∀ j, j ≠ i → p'.mem (.recv j) = p.mem (.recv j)
  cfg : ∃ w, p'.cfg = { p.cfg with udpWindow := w }
  ring : RingReady p'.toProxy p.cfg.activeProfile
  bufs : ∀ e ∈ p'.sendC2s, e ∈ p.sendC2s ∨ e.1.buf = .recv i ∨ e.1.buf = .hsBuf
  keeps : KeepsQueue p p'

/-- A datagram leaves the thread as it runs. -/
theorem C2sReady.of_frame {p p' : C2sNormal} {i : ℕ} (h : C2sReady p) (hf : C2sFrame p p' i) :
    C2sReady p' := by
  obtain ⟨w, hw⟩ := hf.cfg
  refine ⟨?_, ?_, ?_, ?_, fun j hj => ?_, ?_, ?_⟩
  · rw [hw]
    exact h.accepted
  · rw [hw]
    exact h.active
  · rw [hw]
    exact h.mirrored
  · rw [hw]
    exact h.maxS4
  · rw [hf.shape]
    exact h.bufs j hj
  · rw [hf.shape]
    exact h.hs
  · rw [hw]
    exact hf.ring

/-- Behind the datagram in buffer `i` the queue refers to buffers up to it. -/
theorem C2sFrame.bufs_ne {p p' : C2sNormal} {i : ℕ} (hf : C2sFrame p p' i)
    (hq : ∀ e ∈ p.sendC2s, ∀ j, i ≤ j → e.1.buf ≠ .recv j) :
    ∀ e ∈ p'.sendC2s, ∀ j, i + 1 ≤ j → e.1.buf ≠ .recv j := by
  intro e he j hj hbuf
  rcases hf.bufs e he with he | he | he
  · exact hq e he j (by omega) hbuf
  · have := PktBuf.recv.inj (he.symm.trans hbuf)
    omega
  · exact absurd (he.symm.trans hbuf) nofun

/-- Doing nothing. -/
theorem C2sFrame.refl {p : C2sNormal} (h : C2sReady p) (i : ℕ) : C2sFrame p p i where
  shape := .refl _
  mem _ _ := rfl
  cfg := ⟨p.cfg.udpWindow, rfl⟩
  ring := h.ring
  bufs _ he := Or.inl he
  keeps := Or.inl ⟨rfl, List.prefix_rfl, fun _ _ => rfl⟩

/-! ### Transport data -/

/-- The header of the fast path: the message has a header of the range, or is unchanged
where it may. -/
theorem c2sPutHeader_spec {p : C2sNormal} {data : Ptr PktBuf} {n : ℕ} (h : C2sReady p)
    (hf : p.mem.Fits data n) (hn : 4 ≤ n) :
    ∃ m ring idx rng,
      c2sPutHeader p data = { p with mem := m, h4Ring := ring, h4Idx := idx, rng := rng } ∧
      p.mem.ChangesIn m data n ∧
      RingReady { p.toProxy with mem := m, h4Ring := ring, h4Idx := idx, rng := rng }
        p.cfg.activeProfile ∧
      if p.cfg.h4Noop then m.read data n = p.mem.read data n
      else ∃ v, hrangeContains (configActiveProfile p.cfg).h4 v = true ∧
        m.read data n = retype v (p.mem.read data n) := by
  obtain ⟨hready, hv⟩ := h.ring.pickH4Prof
  obtain ⟨ring, idx, rng, hpick⟩ := pickH4Prof_eq p.toProxy p.cfg.activeProfile
  by_cases hnoop : p.cfg.h4Noop = true
  · refine ⟨p.mem, p.h4Ring, p.h4Idx, p.rng, ?_, .refl _ _ _, h.ring, ?_⟩
    · rw [c2sPutHeader, if_pos hnoop]
    · rw [if_pos hnoop]
  · rw [hpick] at hready
    refine ⟨write32Le p.mem data (pickH4Prof p.toProxy p.cfg.activeProfile).2, ring, idx, rng,
      ?_, changesIn_write32Le _ hf hn, ⟨hready.length, hready.mem, hready.idx⟩, ?_⟩
    · rw [c2sPutHeader, if_neg hnoop, pickH4]
      dsimp only
      rw [hpick]
    · rw [if_neg hnoop]
      exact ⟨_, hv, read_write32Le _ hf hn⟩

/-- The padding of the fast path goes in front of the message. -/
theorem c2sPutPadding_spec {p : C2sNormal} {base : Ptr PktBuf} {n : ℕ} (hs0 : 0 ≤ p.cfg.s4)
    (hf : p.mem.Fits base (p.cfg.s4.toNat + n)) :
    ∃ m pad rng, c2sPutPadding p base = { p with mem := m, rngC2s := rng } ∧
      p.mem.ChangesIn m base (p.cfg.s4.toNat + n) ∧ pad.length = p.cfg.s4.toNat ∧
      m.read base p.cfg.s4.toNat = pad ∧
      m.read (base.add p.cfg.s4.toNat) n = p.mem.read (base.add p.cfg.s4.toNat) n := by
  by_cases hpos : p.cfg.s4 > 0
  · have hlen := length_fastrandFill p.rngC2s p.cfg.s4.toNat
    have hfp : p.mem.Fits base (fastrandFill p.rngC2s p.cfg.s4.toNat).1.length :=
      hf.mono (by omega)
    refine ⟨p.mem.write base (fastrandFill p.rngC2s p.cfg.s4.toNat).1,
      (fastrandFill p.rngC2s p.cfg.s4.toNat).1, (fastrandFill p.rngC2s p.cfg.s4.toNat).2, ?_, ?_,
      hlen, ?_, ?_⟩
    · rw [c2sPutPadding, if_pos hpos]
    · exact Mem.ChangesIn.write (i := 0) hf (by omega)
    · have hself := Mem.read_write_self hfp
      rwa [hlen] at hself
    · exact Mem.read_write_of_apart hfp (Or.inr (Or.inr (by rw [hlen]; exact le_rfl)))
  · have h0 : p.cfg.s4.toNat = 0 := by omega
    refine ⟨p.mem, [], p.rngC2s, ?_, .refl _ _ _, h0.symm, ?_, rfl⟩
    · rw [c2sPutPadding, if_neg hpos]
    · rw [h0]
      exact Bytes.slice_zero _ _

/-- **The fast path.** The message is queued in an encoding of it, built in its own buffer. -/
theorem c2sTransport_spec {p : C2sNormal} {i n : ℕ} (h : C2sReady p) (hi : i < batchSize)
    (hn : n ≤ awgPacketBufSize) (h32 : 32 ≤ n)
    (hq : ∀ e ∈ p.sendC2s, e.1.buf ≠ .recv i) :
    let data := (⟨.recv i, 0⟩ : Ptr PktBuf).add p.cfg.maxS4
    let p' := c2sTransport p data n
    (∃ w, EncodesTransport p.cfg (p.mem.read data n) w ∧
      p'.handed ++ p'.queued = p.handed ++ p.queued ++ [.packet w]) ∧ C2sFrame p p' i := by
  intro data p'
  have hv : (configActiveProfile p.cfg).Valid := h.valid h.active
  have hflat : p.cfg.toAwgProfile = configActiveProfile p.cfg := h.mirrored
  obtain ⟨hs0, -⟩ : 0 ≤ p.cfg.s4 ∧ p.cfg.s4 ≤ 256 := hflat ▸ hv.s4_mem
  have hle : p.cfg.s4 ≤ p.cfg.maxS4 := hflat ▸ h.s4_le
  have L : PktLayout p.mem data p.cfg.maxS4 n := h.pktLayout hi hn
  obtain ⟨m₁, ring, idx, rng, hput, hchg₁, hring, hmsg₁⟩ :=
    c2sPutHeader_spec h L.fits (by omega)
  -- the padding ends where the message starts
  have hback : (data.sub p.cfg.s4.toNat).add p.cfg.s4.toNat = data :=
    Ptr.sub_add_cancel (by simp only [data, Ptr.add_off]; omega)
  have hbase : (if p.cfg.s4 > 0 then data.sub p.cfg.s4.toNat else data) =
      data.sub p.cfg.s4.toNat := by
    split
    · rfl
    · rw [show p.cfg.s4.toNat = 0 by omega]
      rfl
  have hf₁ := hchg₁.shape.fits_iff.mpr L.fits
  have hroom : m₁.Fits (data.sub p.cfg.s4.toNat) (p.cfg.s4.toNat + n) := by
    simp only [Mem.Fits, data, Ptr.sub_buf, Ptr.sub_off, Ptr.add_buf, Ptr.add_off] at hf₁ ⊢
    omega
  obtain ⟨m₂, pad, rngC2s, hpadEq, hchg₂, hpadlen, hpad, hmsg₂⟩ := c2sPutPadding_spec
    (p := { p with mem := m₁, h4Ring := ring, h4Idx := idx, rng := rng }) hs0 hroom
  have h12 : p.cfg.toAwgProfile.hpOn = true → 12 ≤ p.cfg.s4.toNat := fun hon => by
    have := (hflat ▸ hv.hp (hflat ▸ hon)).2.2.2
    omega
  obtain ⟨henc, hchg₃⟩ := read_protectHeader p.cfg (hchg₂.shape.fits_iff.mpr hroom) h32 hpad h12 rfl
  dsimp only at hmsg₂ hpadEq hpadlen hchg₂
  rw [hback] at henc hchg₃ hmsg₂
  rw [hmsg₂] at henc
  obtain ⟨w', hw'⟩ := awgWindowNote_eq p.cfg (p.cfg.s4.toNat + n)
  have hp' : p' = ({ p with
      mem := if p.cfg.hpOn then m₂.write data (chacha20Xor p.cfg.hpKey
        (m₂.read (data.sub p.cfg.s4.toNat) 12) (m₂.read data awgHpTransportHdr)) else m₂
      h4Ring := ring, h4Idx := idx, rng := rng, rngC2s := rngC2s
      cfg := { p.cfg with udpWindow := w' } }).queueRemote (data.sub p.cfg.s4.toNat)
        (p.cfg.s4.toNat + n) := by
    simp only [p', c2sTransport, hbase, hput, hpadEq, hw']
  generalize (if p.cfg.hpOn then m₂.write data (chacha20Xor p.cfg.hpKey
    (m₂.read (data.sub p.cfg.s4.toNat) 12) (m₂.read data awgHpTransportHdr)) else m₂) = m₃
    at henc hchg₃ hp'
  have hother : ∀ b, b ≠ .recv i → m₃ b = p.mem b := fun b hb =>
    (hchg₃.buf_eq hb).trans ((hchg₂.buf_eq hb).trans (hchg₁.buf_eq hb))
  have hkept : ∀ e ∈ p.sendC2s, m₃.read e.1 e.2 = p.mem.read e.1 e.2 := fun e he =>
    Mem.read_congr (hother _ (hq e he)) _
  rw [hp']
  refine ⟨⟨m₃.read (data.sub p.cfg.s4.toNat) (p.cfg.s4.toNat + n), ?_, ?_⟩, ?_⟩
  · rw [EncodesTransport, ← hflat, henc]
    by_cases hnoop : p.cfg.h4Noop = true
    · obtain ⟨pr, hpr⟩ := h.accepted _ h.active
      have hpr' : p.cfg.toAwgProfile = pr.toAwgProfile := hflat.trans hpr
      obtain ⟨-, -, hs, hoff⟩ := pr.h4Noop_iff.mp (hpr' ▸ hnoop)
      rw [← hpr'] at hs hoff
      rw [if_pos hnoop] at hmsg₁
      have hnil : pad = [] := List.eq_nil_of_length_eq_zero (by rw [hpadlen, hs]; rfl)
      rw [if_pos hnoop, hnil, protectHeader, hoff]
      exact hmsg₁
    · rw [if_neg hnoop] at hmsg₁
      obtain ⟨v, hv', hmsg₁⟩ := hmsg₁
      rw [if_neg hnoop]
      exact ⟨v, pad, hflat ▸ hv', hpadlen, by rw [hmsg₁]⟩
  · simp only [C2sNormal.queueRemote, C2sNormal.queued, List.map_append, List.map_cons,
      List.map_nil, List.append_assoc]
    rw [List.map_congr_left fun e he => congrArg C2sSent.packet (hkept e he)]
  · refine ⟨(hchg₁.shape.trans hchg₂.shape).trans hchg₃.shape, fun j hj => hother _ ?_,
      ⟨w', rfl⟩, ⟨hring.length, hring.mem, hring.idx⟩, fun e he => ?_, Or.inl ⟨rfl, ?_, hkept⟩⟩
    · intro hbuf
      exact hj (PktBuf.recv.inj hbuf)
    · rcases List.mem_append.mp he with he | he
      · exact Or.inl he
      · obtain rfl := List.mem_singleton.mp he
        exact Or.inr (Or.inl rfl)
    · exact List.prefix_append _ _

/-! ### Everything else -/

theorem plainMem_layout (headroom : ℕ) (d : Bytes) :
    PktLayout (plainMem headroom d) ((⟨.recv 0, 0⟩ : Ptr PktBuf).add headroom) headroom
      d.length := by
  have hlen : (plainMem headroom d (.recv 0)).length = headroom + d.length + 1500 := by
    simp only [plainMem, List.length_append, List.length_replicate, awgPacketBufSize]
  exact .recv (by omega) (by omega) List.length_replicate

theorem read_plainMem (headroom : ℕ) (d : Bytes) :
    (plainMem headroom d).read ((⟨.recv 0, 0⟩ : Ptr PktBuf).add headroom) d.length = d := by
  simp only [Mem.read, plainMem, Ptr.add_buf, Ptr.add_off, Nat.zero_add]
  rw [List.append_assoc, Bytes.slice_append_right _ _ (by simp), List.length_replicate,
    Nat.sub_self, Bytes.slice_append_left _ (by simp), Bytes.slice_zero_length]

/-- **The slow path.** Everything queued is sent; what the encoder hands over for the
datagram is sent behind it or queued. -/
theorem c2sHandshake_spec {p : C2sNormal} {i n : ℕ} (h : C2sReady p) (hi : i < batchSize)
    (hn : n ≤ awgPacketBufSize) :
    let buf : Ptr PktBuf := ⟨.recv i, 0⟩
    let d := p.mem.read (buf.add p.cfg.maxS4) n
    let p' := c2sHandshake p buf p.cfg.maxS4 n
    ¬ IsTransport d →
    (∃ s, EncodedAs p.cfg d s ∧ p'.handed ++ p'.queued = p.handed ++ p.queued ++ s) ∧
      C2sFrame p p' i := by
  intro buf d p' hnt
  have L : PktLayout p.mem (buf.add p.cfg.maxS4) p.cfg.maxS4 n := h.pktLayout hi hn
  have hv : (configActiveProfile p.cfg).Valid := h.valid h.active
  have hlen : d.length = n := Mem.length_read L.fits
  -- the flush and the flag leave the buffers and the generator alone
  have hp' : ∃ ini, p' =
      let q := { p.flush with clientInit := ini }
      let randVal := fastrandU64 p.rngC2s
      let r := transformOutboundProfile p.mem buf p.cfg.maxS4 n p.cfg (configActiveProfile p.cfg)
        none randVal
      let q := { q with mem := r.mem, rngC2s := randVal }
      match r.out with
      | none => q
      | some out =>
          if r.sendJunk then
            { q with handed := q.handed ++ [.junkAndCps, .packet (q.mem.read out r.outLen)] }
          else q.queueRemote out r.outLen := ⟨_, rfl⟩
  obtain ⟨ini, hp'⟩ := hp'
  dsimp only at hp'
  obtain ⟨hshape, hmem, hout⟩ := transformOutboundProfile_frame none (fastrandU64 p.rngC2s) L hv rfl
  have hplain : plainEncode p.cfg (fastrandU64 p.rngC2s) d =
      (transformOutboundProfile p.mem buf p.cfg.maxS4 n p.cfg (configActiveProfile p.cfg) none
        (fastrandU64 p.rngC2s)).handed := by
    have L' := plainMem_layout p.cfg.maxS4 d
    have hread := read_plainMem p.cfg.maxS4 d
    rw [plainEncode]
    rw [hlen] at L' hread ⊢
    exact (handed_congr none _ L L' hv hread hnt).symm
  have henc : EncodedAs p.cfg d (transformOutboundProfile p.mem buf p.cfg.maxS4 n p.cfg
      (configActiveProfile p.cfg) none (fastrandU64 p.rngC2s)).handed := by
    rw [EncodedAs, if_neg hnt]
    exact ⟨_, p.cfg.udpWindow, hplain.symm⟩
  generalize transformOutboundProfile p.mem buf p.cfg.maxS4 n p.cfg (configActiveProfile p.cfg) none
    (fastrandU64 p.rngC2s) = r at hp' hshape hmem hout henc
  have hothers : ∀ j, j ≠ i → r.mem (.recv j) = p.mem (.recv j) := fun j hj =>
    hmem (.recv j) (fun hb => hj (PktBuf.recv.inj hb)) nofun
  have hring : RingReady { p.toProxy with mem := r.mem } p.cfg.activeProfile :=
    ⟨h.ring.length, h.ring.mem, h.ring.idx⟩
  rcases ho : r.out with _ | out
  · rw [ho] at hp'
    dsimp only at hp'
    rw [hp']
    refine ⟨⟨_, henc, ?_⟩, hshape, hothers, ⟨p.cfg.udpWindow, rfl⟩, hring, nofun, Or.inr ?_⟩
    · simp only [C2sNormal.flush, C2sNormal.queued, OutboundResult.handed, ho, List.map_nil]
    · exact List.prefix_rfl
  · rw [ho] at hp'
    dsimp only at hp'
    by_cases hjunk : r.sendJunk = true
    · rw [if_pos hjunk] at hp'
      rw [hp']
      refine ⟨⟨_, henc, ?_⟩, hshape, hothers, ⟨p.cfg.udpWindow, rfl⟩, hring, nofun, Or.inr ?_⟩
      · simp [C2sNormal.flush, C2sNormal.queued, OutboundResult.handed, ho, hjunk]
      · exact List.prefix_append _ _
    · rw [if_neg hjunk] at hp'
      rw [hp']
      refine ⟨⟨_, henc, ?_⟩, hshape, hothers, ⟨p.cfg.udpWindow, rfl⟩, hring, fun e he => ?_,
        Or.inr ?_⟩
      · simp [C2sNormal.flush, C2sNormal.queued, C2sNormal.queueRemote, OutboundResult.handed, ho,
          hjunk]
      · obtain rfl := List.mem_singleton.mp he
        have hbuf := hout out ho
        split at hbuf
        · exact Or.inr (Or.inr hbuf)
        · exact Or.inr (Or.inl hbuf)
      · exact List.prefix_rfl

/-! ### The batch -/

/-- The `n` bytes received in buffer `i`, for every `n` of the batch from buffer `i` on. -/
def c2sReceived (m : Mem PktBuf) (headroom : ℕ) : ℕ → List ℕ → List Bytes
  | _, [] => []
  | i, n :: ns =>
      m.read ((⟨.recv i, 0⟩ : Ptr PktBuf).add headroom) n :: c2sReceived m headroom (i + 1) ns

/-- What was received depends on the buffers it was received in. -/
theorem c2sReceived_congr {m m' : Mem PktBuf} {headroom i : ℕ} {ns : List ℕ}
    (h : ∀ j, i ≤ j → m' (.recv j) = m (.recv j)) :
    c2sReceived m' headroom i ns = c2sReceived m headroom i ns := by
  induction ns generalizing i with
  | nil => rfl
  | cons n ns ih =>
      have hread : m'.read ((⟨.recv i, 0⟩ : Ptr PktBuf).add headroom) n =
          m.read ((⟨.recv i, 0⟩ : Ptr PktBuf).add headroom) n := Mem.read_congr (h i le_rfl) n
      rw [c2sReceived, c2sReceived, hread, ih fun j hj => h j (by omega)]

/-- **One datagram.** An empty one changes nothing; of every other one an encoding is added
to what is sent and queued. -/
theorem c2sNormalPkt_spec {p : C2sNormal} {i n : ℕ} (h : C2sReady p) (hi : i < batchSize)
    (hn : n ≤ awgPacketBufSize) (hq : ∀ e ∈ p.sendC2s, e.1.buf ≠ .recv i) :
    let d := p.mem.read ((⟨.recv i, 0⟩ : Ptr PktBuf).add p.cfg.maxS4) n
    let p' := c2sNormalPkt p i n
    (∃ ss, List.Forall₂ (EncodedAs p.cfg) ([d].filter (· ≠ [])) ss ∧
      p'.handed ++ p'.queued = p.handed ++ p.queued ++ ss.flatten) ∧ C2sFrame p p' i := by
  intro d p'
  have hlen : d.length = n := Mem.length_read (h.pktLayout hi hn).fits
  by_cases h0 : n = 0
  · have hd : d = [] := List.eq_nil_of_length_eq_zero (hlen.trans h0)
    have hp' : p' = p := by
      simp only [p', c2sNormalPkt, if_pos h0]
    rw [hd, hp']
    exact ⟨⟨[], .nil, (List.append_nil _).symm⟩, .refl h i⟩
  · have hd : d ≠ [] := fun hnil => h0 (hlen.symm.trans (by rw [hnil]; rfl))
    have hone : ∀ {q : C2sNormal}, (∃ s, EncodedAs p.cfg d s ∧
        q.handed ++ q.queued = p.handed ++ p.queued ++ s) →
        ∃ ss, List.Forall₂ (EncodedAs p.cfg) ([d].filter (· ≠ [])) ss ∧
          q.handed ++ q.queued = p.handed ++ p.queued ++ ss.flatten := by
      rintro q ⟨s, hs, hsent⟩
      refine ⟨[s], ?_, ?_⟩
      · rw [List.filter_cons_of_pos (by simpa using hd)]
        exact .cons hs .nil
      · rw [List.flatten_singleton]
        exact hsent
    by_cases ht : n ≥ wgTransportMin ∧
        read32Le p.mem ((⟨.recv i, 0⟩ : Ptr PktBuf).add p.cfg.maxS4) = wgTransportData
    · have hp' : p' = c2sTransport p ((⟨.recv i, 0⟩ : Ptr PktBuf).add p.cfg.maxS4) n := by
        simp only [p', c2sNormalPkt, if_neg h0, if_pos ht]
      obtain ⟨⟨w, hw, hsent⟩, hframe⟩ := c2sTransport_spec h hi hn ht.1 hq
      rw [hp']
      refine ⟨hone ⟨_, ?_, hsent⟩, hframe⟩
      have hty := ht.2
      rw [read32Le_eq p.mem _ (show 4 ≤ n from le_trans (by decide) ht.1)] at hty
      rw [EncodedAs, if_pos ⟨hlen ▸ ht.1, hty⟩]
      exact ⟨w, hw, rfl⟩
    · have hp' : p' = c2sHandshake p ⟨.recv i, 0⟩ p.cfg.maxS4 n := by
        simp only [p', c2sNormalPkt, if_neg h0, if_neg ht]
      have hnt : ¬ IsTransport d := by
        rintro ⟨hmin, hty⟩
        rw [hlen] at hmin
        rw [← read32Le_eq p.mem _ (show 4 ≤ n from le_trans (by decide) hmin)] at hty
        exact ht ⟨hmin, hty⟩
      obtain ⟨hs, hframe⟩ := c2sHandshake_spec h hi hn hnt
      rw [hp']
      exact ⟨hone hs, hframe⟩

/-- A loop stopped behind its first datagram. -/
theorem c2sNormalLoop_take_succ (p : C2sNormal) (i n : ℕ) (ns : List ℕ) (k : ℕ) :
    c2sNormalLoop p i ((n :: ns).take (k + 1)) =
      c2sNormalLoop (c2sNormalPkt p i n) (i + 1) (ns.take k) :=
  rfl

/-- The loop from buffer `i` on, while the queue refers to earlier buffers and `hs_buf`. -/
theorem c2sNormalLoop_spec {p : C2sNormal} {i : ℕ} {ns : List ℕ} (h : C2sReady p)
    (hb : i + ns.length ≤ batchSize) (hn : ∀ n ∈ ns, n ≤ awgPacketBufSize)
    (hq : ∀ e ∈ p.sendC2s, ∀ j, i ≤ j → e.1.buf ≠ .recv j) :
    (∃ ss, List.Forall₂ (EncodedAs p.cfg)
        ((c2sReceived p.mem p.cfg.maxS4 i ns).filter (· ≠ [])) ss ∧
      (c2sNormalLoop p i ns).handed ++ (c2sNormalLoop p i ns).queued =
        p.handed ++ p.queued ++ ss.flatten) ∧
    ∀ k < ns.length, KeepsQueue (c2sNormalLoop p i (ns.take k))
      (c2sNormalLoop p i (ns.take (k + 1))) := by
  induction ns generalizing p i with
  | nil => exact ⟨⟨[], .nil, (List.append_nil _).symm⟩, nofun⟩
  | cons n ns ih =>
      rw [List.length_cons] at hb
      obtain ⟨⟨ss₁, hss₁, hsent₁⟩, hf⟩ := c2sNormalPkt_spec h (by omega)
        (hn n List.mem_cons_self) fun e he => hq e he i le_rfl
      obtain ⟨w, hw⟩ := hf.cfg
      obtain ⟨⟨ss₂, hss₂, hsent₂⟩, hkeep⟩ := ih (h.of_frame hf) (by omega)
        (fun n' hn' => hn n' (List.mem_cons_of_mem _ hn')) (hf.bufs_ne hq)
      constructor
      · refine ⟨ss₁ ++ ss₂, ?_, ?_⟩
        · have hrest : c2sReceived (c2sNormalPkt p i n).mem p.cfg.maxS4 (i + 1) ns =
              c2sReceived p.mem p.cfg.maxS4 (i + 1) ns :=
            c2sReceived_congr fun j hj => hf.mem j (by omega)
          have hmax : (c2sNormalPkt p i n).cfg.maxS4 = p.cfg.maxS4 := by rw [hw]
          rw [hmax, hrest] at hss₂
          have hss₂' := hss₂.imp fun d s => (encodedAs_udpWindow hw).mp
          rw [c2sReceived, ← List.singleton_append, List.filter_append]
          exact List.rel_append hss₁ hss₂'
        · rw [c2sNormalLoop, hsent₂, hsent₁, List.flatten_append, List.append_assoc]
      · intro k hk
        cases k with
        | zero => exact hf.keeps
        | succ k =>
            rw [c2sNormalLoop_take_succ, c2sNormalLoop_take_succ]
            exact hkeep k (by rw [List.length_cons] at hk; omega)

/-- **A batch is one encoding of every datagram that is not empty, in the order received**:
these are the bytes the kernel reads, behind what was handed over before. On the way no
queued region is written to before it is sent. -/
theorem batch_encodes {p : C2sNormal} (h : C2sReady p) (hq : p.sendC2s = []) {ns : List ℕ}
    (hb : ns.length ≤ batchSize) (hn : ∀ n ∈ ns, n ≤ awgPacketBufSize) :
    (∃ ss, List.Forall₂ (EncodedAs p.cfg)
        ((c2sReceived p.mem p.cfg.maxS4 0 ns).filter (· ≠ [])) ss ∧
      (c2sNormalBatch p ns).handed = p.handed ++ ss.flatten) ∧
    ∀ k < ns.length, KeepsQueue (c2sNormalLoop p 0 (ns.take k))
      (c2sNormalLoop p 0 (ns.take (k + 1))) := by
  have hnone : ∀ e ∈ p.sendC2s, ∀ j, 0 ≤ j → e.1.buf ≠ .recv j := by
    rw [hq]
    exact nofun
  obtain ⟨⟨ss, hss, hsent⟩, hkeep⟩ := c2sNormalLoop_spec h (by omega) hn hnone
  refine ⟨⟨ss, hss, ?_⟩, hkeep⟩
  have hqueued : p.queued = [] := by rw [C2sNormal.queued, hq, List.map_nil]
  rw [hqueued, List.append_nil] at hsent
  exact hsent

/-! ### A thread with a chain of one stage -/

/-- A profile that pads and protects every message. -/
def shieldedProfile : AcceptedProfile :=
  AcceptedProfile.ofValidated
    { s1 := 12, s2 := 12, s3 := 12, s4 := 12
      h1 := .single 5, h2 := .single 6, h3 := .single 7, h4 := .single 8
      cps := fun _ => none, hpOn := true, rt := false, h4Fixed := 0, h4Noop := false
      initTotal := 0, respTotal := 0, cookieTotal := 0, transportSizeAmbiguous := false }
    (by decide)

/-- A configuration of that profile in normal mode. -/
def shieldedConfig : AwgConfig where
  toAwgProfile := shieldedProfile.toAwgProfile
  mode := .normal
  jc := 3
  jmin := 40
  jmax := 80
  serverPeerMac1keys := []
  hpKey := List.replicate 32 7
  rtAny := false
  disableCookies := false
  udpWindow := 500
  mac1keyOut := none
  mac1keyIn := none
  profiles := fun _ => shieldedProfile.toAwgProfile
  profileCount := 1
  activeProfile := 0
  maxS4 := 12

/-- Receive buffers and `hs_buf`, all zeros. -/
def zeroBufs : Mem PktBuf
  | .recv _ => List.replicate 1756 0
  | .gro => []
  | .hsBuf => List.replicate 1500 0

/-- The thread of that configuration after `proxy_init`. -/
def shieldedThread : C2sNormal where
  toProxy := fillH4Rings (.zeroed shieldedConfig zeroBufs)
  rngC2s := 1
  clientInit := false
  sendC2s := []
  handed := []

theorem c2sReady_shieldedThread : C2sReady shieldedThread :=
  c2sReady_fillH4Rings (p := ⟨.zeroed shieldedConfig zeroBufs, 1, false, [], []⟩)
    (fun _ _ => ⟨shieldedProfile, rfl⟩) Nat.zero_lt_one rfl (by decide)
    (fun _ _ => List.length_replicate) List.length_replicate fun _ => rfl

/-- Buffers with transport data around an init, each behind the headroom. -/
def busyBufs : Mem PktBuf
  | .recv 1 => List.replicate 12 0 ++ Bytes.leBytes 4 1 ++ List.replicate 1740 0
  | .recv _ => List.replicate 12 0 ++ Bytes.leBytes 4 4 ++ List.replicate 1740 0
  | .gro => []
  | .hsBuf => List.replicate 1500 0

theorem length_busyBufs (i : ℕ) : (busyBufs (.recv i)).length = 1756 := by
  rcases i with _ | _ | i <;>
    simp only [busyBufs, List.length_append, Bytes.length_leBytes, List.length_replicate]

/-- The thread with these buffers. -/
def busyThread : C2sNormal where
  toProxy := fillH4Rings (.zeroed shieldedConfig busyBufs)
  rngC2s := 1
  clientInit := false
  sendC2s := []
  handed := []

theorem c2sReady_busyThread : C2sReady busyThread :=
  c2sReady_fillH4Rings (p := ⟨.zeroed shieldedConfig busyBufs, 1, false, [], []⟩)
    (fun _ _ => ⟨shieldedProfile, rfl⟩) Nat.zero_lt_one rfl (by decide)
    (fun _ _ => length_busyBufs _) List.length_replicate fun _ => rfl

/-- A batch of transport data, an init, an empty datagram and transport data on that thread. -/
theorem batch_encodes_busyThread :
    (c2sReceived busyThread.mem busyThread.cfg.maxS4 0 [32, 148, 0, 40]).map
        (fun d => (decide (IsTransport d), handshakeKind? d)) =
      [(true, none), (false, some .init), (false, none), (true, none)] ∧
    (∃ ss, List.Forall₂ (EncodedAs busyThread.cfg)
        ((c2sReceived busyThread.mem busyThread.cfg.maxS4 0 [32, 148, 0, 40]).filter (· ≠ []))
        ss ∧
      (c2sNormalBatch busyThread [32, 148, 0, 40]).handed = busyThread.handed ++ ss.flatten) ∧
    ∀ k < [32, 148, 0, 40].length, KeepsQueue (c2sNormalLoop busyThread 0 ([32, 148, 0, 40].take k))
      (c2sNormalLoop busyThread 0 ([32, 148, 0, 40].take (k + 1))) :=
  ⟨by decide +kernel, batch_encodes c2sReady_busyThread rfl (by decide) (by decide)⟩

/-- The encoder passes an empty message through. -/
theorem plainEncode_nil (cfg : AwgConfig) (randVal : UInt64) :
    plainEncode cfg randVal [] = [.packet []] := by
  rw [plainEncode, transformOutboundProfile, if_pos (by decide)]
  simp [OutboundResult.handed, Mem.read]

/-- An empty datagram is received, but nothing is handed over for it. -/
theorem not_batch_encodes_empty :
    C2sReady shieldedThread ∧ shieldedThread.sendC2s = [] ∧
    ¬ ∃ ss, List.Forall₂ (EncodedAs shieldedThread.cfg)
        (c2sReceived shieldedThread.mem shieldedThread.cfg.maxS4 0 [0]) ss ∧
      (c2sNormalBatch shieldedThread [0]).handed = shieldedThread.handed ++ ss.flatten := by
  refine ⟨c2sReady_shieldedThread, rfl, ?_⟩
  rintro ⟨ss, hss, hsent⟩
  have hrec : c2sReceived shieldedThread.mem shieldedThread.cfg.maxS4 0 [0] = [[]] := by
    rw [c2sReceived, c2sReceived, Mem.read, Bytes.slice_zero]
  rw [hrec] at hss
  obtain ⟨s, ss', hs, hnil, rfl⟩ := List.forall₂_cons_left_iff.mp hss
  obtain rfl := List.forall₂_nil_left_iff.mp hnil
  rw [EncodedAs, if_neg (by decide)] at hs
  obtain ⟨randVal, window, rfl⟩ := hs
  rw [plainEncode_nil] at hsent
  have hnone : (c2sNormalBatch shieldedThread [0]).handed = [] := rfl
  rw [hnone] at hsent
  contradiction

end AwgProxy
