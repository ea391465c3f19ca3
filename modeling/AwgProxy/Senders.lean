import AwgProxy.S2cBatch
import AwgProxy.Server
import AwgProxy.Wire

/-!
# What the Ends Send

A message handed in at either end of a tunnel goes out as one datagram that carries it under
the active stage, whatever path of the proxy it takes: the transport path with headers from a
ring, or the encoder. A cookie reply that is not forwarded goes out as nothing.

* `GoesOut` — what goes out for a message.
* `goesOut_takes` — the c2s thread of normal mode, at the client's end.
* `goesTo_gives` — the s2c thread of reverse mode, at the server's end.

Both keep the rings of every stage full (`RingsReady`), so that the stage may be switched
between any two messages.
-/

namespace AwgProxy

/-- What goes out for the message `d`: nothing for a cookie reply that is not forwarded, and
otherwise one datagram that carries it. -/
def GoesOut (cfg : AwgConfig) (pr : AwgProfile) (outKey : Option Bytes) (d : Bytes)
    (ws : List Bytes) : Prop :=
  if handshakeKind? d = some .cookie ∧ cfg.disableCookies = true then ws = []
  else ∃ w, ws = [w] ∧ Carries cfg pr outKey d w

/-- What the encoder makes of a handshake carries it. -/
theorem carries_encodeHandshake (cfg : AwgConfig) (pr : AwgProfile) (outKey : Option Bytes)
    {d : Bytes} {k : HandshakeKind} (hk : handshakeKind? d = some k) (randVal : UInt64) :
    Carries cfg pr outKey d (encodeHandshake cfg pr (k.pad pr).toNat (k.seed randVal)
      (k.rewrite pr outKey randVal d)) := by
  rw [Carries, hk]
  refine ⟨randVal, fillPadding (k.pad pr).toNat (k.seed randVal), _, length_fillPadding _ _, ?_,
    rfl⟩
  cases hrt : pr.rt with
  | true => exact Or.inl rfl
  | false =>
      refine Or.inr (List.eq_nil_of_length_eq_zero ?_)
      rw [length_trailer, trailerLen, hrt]
      rfl

/-! ### Rings -/

/-- The rings of all stages of the chain are full. -/
def RingsReady (p : Proxy) : Prop :=
  ∀ prof : Fin awgMaxProfiles, (prof : ℕ) < p.cfg.profileCount → RingReady p prof

/-- A ring is ready by its own contents. -/
theorem RingReady.congr {p p' : Proxy} {prof : Fin awgMaxProfiles} (h : RingReady p prof)
    (hring : p'.h4Ring = p.h4Ring) (hidx : p'.h4Idx = p.h4Idx)
    (hprof : p'.cfg.profiles = p.cfg.profiles) : RingReady p' prof :=
  ⟨by rw [hring]; exact h.length, by rw [hring, hprof]; exact h.mem, by rw [hidx]; exact h.idx⟩

theorem RingsReady.congr {p p' : Proxy} (h : RingsReady p) (hring : p'.h4Ring = p.h4Ring)
    (hidx : p'.h4Idx = p.h4Idx) (hsame : SameChain p.cfg p'.cfg) : RingsReady p' :=
  fun prof hp => (h prof (hsame.count ▸ hp)).congr hring hidx hsame.profiles

/-- Drawing a header of one stage keeps the rings of all. -/
theorem RingsReady.pickH4Prof {p : Proxy} (h : RingsReady p) {prof : Fin awgMaxProfiles}
    (hp : (prof : ℕ) < p.cfg.profileCount) : RingsReady (pickH4Prof p prof).1 := by
  obtain ⟨ring, idx, rng, heq⟩ := pickH4Prof_eq p prof
  intro prof' hp'
  by_cases hne : prof' = prof
  · subst hne
    exact (h prof' hp).pickH4Prof.1
  have hready : RingReady p prof' := h prof' (by rwa [heq] at hp')
  have hstep : RingReady { p with
      h4Idx := Function.update p.h4Idx prof ((p.h4Idx prof + 1) % h4RingSize) } prof' := by
    refine ⟨hready.length, hready.mem, ?_⟩
    dsimp only
    rw [Function.update_of_ne hne]
    exact hready.idx
  rw [AwgProxy.pickH4Prof]
  dsimp only
  split
  · exact hstep.fillH4Ring prof
  · exact hstep

/-- `fill_h4_rings` on zeroed positions fills the rings of all stages. -/
theorem ringsReady_fillH4Rings {p : Proxy} (h : ∀ prof, p.h4Idx prof < h4RingSize)
    (hcount : (fillH4Rings p).cfg = p.cfg) : RingsReady (fillH4Rings p) := by
  intro prof hp
  rw [hcount] at hp
  exact ringReady_fillH4Rings h hp

/-! ### The client's end -/

/-- A message taken in a batch of its own by the c2s thread of normal mode. -/
def C2sNormal.takes (p : C2sNormal) (d : Bytes) : C2sNormal :=
  c2sNormalBatch { p with mem := p.mem.write ⟨.recv 0, p.cfg.maxS4⟩ d } [d.length]

/-- The bytes of a packet handed over. -/
def C2sSent.packet? : C2sSent → Option Bytes
  | .junkAndCps => none
  | .packet d => some d

/-- The datagrams that go out for a message handed in, behind what was handed over before. -/
def C2sNormal.datagrams (p : C2sNormal) (d : Bytes) : List Bytes :=
  ((p.takes d).handed.drop p.handed.length).filterMap C2sSent.packet?

/-- The rings after a message. -/
theorem RingsReady.c2sNormalPkt {p : C2sNormal} (h : RingsReady p.toProxy)
    (hact : (p.cfg.activeProfile : ℕ) < p.cfg.profileCount) (i n : ℕ) :
    RingsReady (c2sNormalPkt p i n).toProxy := by
  have hput : ∀ data, RingsReady (c2sPutHeader p data).toProxy := by
    intro data
    rw [c2sPutHeader]
    split
    · exact h
    · exact (h.pickH4Prof hact).congr rfl rfl ⟨rfl, rfl, rfl⟩
  have hpad : ∀ (q : C2sNormal) base, RingsReady q.toProxy →
      RingsReady (c2sPutPadding q base).toProxy := by
    intro q base hq
    rw [c2sPutPadding]
    split
    · exact hq.congr rfl rfl ⟨rfl, rfl, rfl⟩
    · exact hq
  rw [AwgProxy.c2sNormalPkt]
  split
  · exact h
  split
  · rw [c2sTransport]
    obtain ⟨w, hw⟩ := awgWindowNote_eq (c2sPutPadding (c2sPutHeader p _) _).cfg
      (p.cfg.s4.toNat + n)
    rw [hw]
    exact (hpad _ _ (hput _)).congr rfl rfl ⟨rfl, rfl, rfl⟩
  · rw [c2sHandshake]
    dsimp only
    split
    · exact h.congr rfl rfl ⟨rfl, rfl, rfl⟩
    · split
      · exact h.congr rfl rfl ⟨rfl, rfl, rfl⟩
      · exact h.congr rfl rfl ⟨rfl, rfl, rfl⟩

/-- A cookie reply that is not forwarded goes out as nothing. -/
theorem plainEncode_cookie (cfg : AwgConfig) {d : Bytes} (randVal : UInt64)
    (hk : handshakeKind? d = some .cookie) (hdis : cfg.disableCookies = true) :
    plainEncode cfg randVal d = [] := by
  obtain ⟨hty, hsz⟩ := handshakeKind?_eq_some_iff.mp hk
  have hsz' : d.length = wgCookieSize := hsz
  have h4 : 4 ≤ d.length := by
    rw [hsz]
    exact HandshakeKind.four_le_size _
  rw [← read_plainMem cfg.maxS4 d, ← read32Le_eq _ _ h4] at hty
  rw [plainEncode, hsz', transformOutboundProfile_cookie_disabled hty hdis]
  rfl

/-- Every other handshake goes out as one packet, which carries it. -/
theorem plainEncode_handshake (cfg : AwgConfig) {pr : AcceptedProfile} {d : Bytes}
    (randVal : UInt64) (hact : configActiveProfile cfg = pr.toAwgProfile) {k : HandshakeKind}
    (hk : handshakeKind? d = some k) (hc : k = .cookie → cfg.disableCookies = false) :
    ∃ w, (plainEncode cfg randVal d).filterMap C2sSent.packet? = [w] ∧
      Carries cfg pr.toAwgProfile cfg.mac1keyOut d w := by
  have hread := read_plainMem cfg.maxS4 d
  have hhanded := handed_handshake none randVal (plainMem_layout cfg.maxS4 d) pr.valid
    (by rw [hread]; exact hk) hc
  rw [hread] at hhanded
  refine ⟨_, ?_, carries_encodeHandshake _ _ _ hk randVal⟩
  rw [plainEncode, hact, hhanded, List.filterMap_append]
  split
  · rfl
  · rfl

/-- What could be handed over for a message of the protocol is what goes out for it. -/
theorem goesOut_of_encodedAs {cfg : AwgConfig} {pr : AcceptedProfile}
    (hact : configActiveProfile cfg = pr.toAwgProfile) (hnoop : pr.h4Noop = false) {d : Bytes}
    {s : List C2sSent} (hd : IsWireGuard d) (hs : EncodedAs cfg d s) :
    GoesOut cfg pr.toAwgProfile cfg.mac1keyOut d (s.filterMap C2sSent.packet?) := by
  rw [EncodedAs] at hs
  split at hs
  · rename_i ht
    obtain ⟨w, hw, rfl⟩ := hs
    rw [EncodesTransport, hact, hnoop] at hw
    have hk := ht.handshakeKind?_eq_none
    rw [GoesOut, hk, if_neg (by rintro ⟨⟨⟩, -⟩)]
    refine ⟨w, rfl, ?_⟩
    rw [Carries, hk]
    exact hw
  · rename_i ht
    obtain ⟨randVal, window, rfl⟩ := hs
    obtain ⟨k, hk⟩ := Option.isSome_iff_exists.mp (hd.resolve_right ht)
    rw [GoesOut]
    split
    · rename_i hcookie
      rw [plainEncode_cookie { cfg with udpWindow := window } randVal hcookie.1 hcookie.2]
      rfl
    · rename_i hcookie
      have hc : k = .cookie → cfg.disableCookies = false := by
        rintro rfl
        rw [← Bool.not_eq_true]
        exact fun hdis => hcookie ⟨hk, hdis⟩
      exact plainEncode_handshake { cfg with udpWindow := window } randVal hact hk hc

/-- **A message at the client's end** goes out under the active stage, and the thread is as
ready as before. -/
theorem goesOut_takes {p : C2sNormal} {pr : AcceptedProfile} (h : C2sReady p)
    (hr : RingsReady p.toProxy) (hq : p.sendC2s = [])
    (hact : configActiveProfile p.cfg = pr.toAwgProfile) (hnoop : pr.h4Noop = false) {d : Bytes}
    (hd : IsWireGuard d) (hlen : d.length ≤ awgPacketBufSize) :
    GoesOut p.cfg pr.toAwgProfile p.cfg.mac1keyOut d (p.datagrams d) ∧
      C2sReady (p.takes d) ∧ RingsReady (p.takes d).toProxy ∧ (p.takes d).sendC2s = [] ∧
      ∃ w, (p.takes d).cfg = { p.cfg with udpWindow := w } := by
  have hne : d ≠ [] := by
    rintro rfl
    rcases hd with hk | ht
    · obtain ⟨k, hk⟩ := Option.isSome_iff_exists.mp hk
      have h4 := k.four_le_size
      rw [← (handshakeKind?_eq_some_iff.mp hk).2, List.length_nil] at h4
      contradiction
    · exact absurd ht.1 (by decide)
  -- the message is received behind the headroom of the first buffer
  have hf : p.mem.Fits (⟨.recv 0, p.cfg.maxS4⟩ : Ptr PktBuf) d.length := by
    have hL := (h.pktLayout (i := 0) (by decide) hlen).fits
    rwa [Ptr.add, Nat.zero_add] at hL
  obtain ⟨q, hqdef⟩ : ∃ q : C2sNormal,
      q = { p with mem := p.mem.write ⟨.recv 0, p.cfg.maxS4⟩ d } := ⟨_, rfl⟩
  have hshape : p.mem.SameShape q.mem := by
    rw [hqdef]
    exact Mem.sameShape_write hf
  have hqcfg : q.cfg = p.cfg := by rw [hqdef]
  have hqready : C2sReady q := by
    refine ⟨?_, ?_, ?_, ?_, fun i hi => (hshape _).trans (h.bufs i hi), (hshape _).trans h.hs, ?_⟩
    · rw [hqcfg]; exact h.accepted
    · rw [hqcfg]; exact h.active
    · rw [hqcfg]; exact h.mirrored
    · rw [hqcfg]; exact h.maxS4
    · rw [hqdef]
      exact h.ring.congr rfl rfl rfl
  have hqsend : q.sendC2s = [] := by rw [hqdef, ← hq]
  have hread : q.mem.read ((⟨.recv 0, 0⟩ : Ptr PktBuf).add q.cfg.maxS4) d.length = d := by
    rw [hqcfg, hqdef, Ptr.add, Nat.zero_add]
    exact Mem.read_write_self hf
  obtain ⟨⟨ss, hss, hsent⟩, hframe⟩ := c2sNormalPkt_spec (i := 0) hqready (by decide) hlen
    (by rw [hqsend]; exact fun e he => absurd he List.not_mem_nil)
  rw [hread, List.filter_cons_of_pos (by simpa using hne), List.filter_nil] at hss
  obtain ⟨s, hs, rfl⟩ : ∃ s, EncodedAs q.cfg d s ∧ ss = [s] := by
    cases hss with
    | cons hs hrest =>
        cases hrest
        exact ⟨_, hs, rfl⟩
  have htakes : p.takes d = (c2sNormalPkt q 0 d.length).flush := by
    rw [C2sNormal.takes, ← hqdef]
    rfl
  have hhanded : (p.takes d).handed = p.handed ++ s := by
    rw [htakes]
    change (c2sNormalPkt q 0 d.length).handed ++ (c2sNormalPkt q 0 d.length).queued = _
    rw [hsent, List.flatten_singleton, C2sNormal.queued, hqsend, hqdef, List.map_nil,
      List.append_nil]
  refine ⟨?_, ?_, ?_, ?_, ?_⟩
  · rw [C2sNormal.datagrams, hhanded, List.drop_left]
    exact goesOut_of_encodedAs hact hnoop hd (hqcfg ▸ hs)
  · obtain ⟨ha, hb, hc, hd, he, hf, hg⟩ := hqready.of_frame hframe
    rw [htakes]
    exact ⟨ha, hb, hc, hd, he, hf, hg.congr rfl rfl rfl⟩
  · rw [htakes]
    refine RingsReady.congr (RingsReady.c2sNormalPkt (p := q) ?_ ?_ 0 d.length) rfl rfl (.refl _)
    · rw [hqdef]
      exact hr.congr rfl rfl (.refl _)
    · exact hqready.active
  · rw [htakes]
    rfl
  · obtain ⟨w, hw⟩ := hframe.cfg
    refine ⟨w, ?_⟩
    rw [htakes, ← hqcfg, ← hw]
    rfl

/-! ### The server's end -/

/-- The bytes and the destination of a packet sent past the queue. -/
def Sent.packet? : Sent → Option (Bytes × CliAddr)
  | .junkAndCps _ => none
  | .packet d addr => some (d, addr)

/-- The datagrams that go out between two states: those sent past the queue, and the queue. -/
def Proxy.sentSince (p p' : Proxy) : List (Bytes × CliAddr) :=
  (p'.sent.drop p.sent.length).filterMap Sent.packet? ++
    (p'.queue.drop p.queue.length).map fun e => (p'.bytes e, e.addr)

/-- The datagrams that go out for a packet of the local WireGuard, taken in a batch of its own by
the s2c thread. -/
def Proxy.datagrams (p : Proxy) (d : Bytes) : List (Bytes × CliAddr) :=
  p.sentSince (p.packet 0 d)

/-- The thread after that batch: the queue has been sent. -/
def Proxy.gives (p : Proxy) (d : Bytes) : Proxy :=
  { p.packet 0 d with queue := [] }

section

variable {p : Proxy} {pkt : Ptr PktBuf} {n headroom : ℕ} {prof : Fin awgMaxProfiles}
  {dest : CliAddr}

/-- The header of the transport branch is one of the range. -/
theorem s2cPutHeader_spec (hring : RingReady p prof) (hnoop : (p.cfg.profiles prof).h4Noop = false)
    (hf : p.mem.Fits pkt n) (hn : 4 ≤ n) :
    ∃ m ring idx rng v,
      s2cPutHeader p pkt prof = { p with mem := m, h4Ring := ring, h4Idx := idx, rng := rng } ∧
      p.mem.ChangesIn m pkt n ∧ hrangeContains (p.cfg.profiles prof).h4 v = true ∧
      m.read pkt n = retype v (p.mem.read pkt n) := by
  obtain ⟨-, hv⟩ := hring.pickH4Prof
  obtain ⟨ring, idx, rng, hpick⟩ := pickH4Prof_eq p prof
  refine ⟨write32Le p.mem pkt (pickH4Prof p prof).2, ring, idx, rng, _, ?_,
    changesIn_write32Le _ hf hn, hv, read_write32Le _ hf hn⟩
  rw [s2cPutHeader, if_neg (by rw [hnoop]; exact Bool.false_ne_true)]
  dsimp only
  rw [hpick]

/-- What goes out for the message `d` goes to one destination. -/
def GoesTo (cfg : AwgConfig) (pr : AwgProfile) (outKey : Option Bytes) (d : Bytes)
    (dest : CliAddr) (ws : List (Bytes × CliAddr)) : Prop :=
  GoesOut cfg pr outKey d (ws.map Prod.fst) ∧ ∀ w ∈ ws, w.2 = dest

/-- A message that is not dropped goes out as one datagram. -/
theorem goesTo_singleton (dest : CliAddr) {cfg : AwgConfig} {pr : AwgProfile}
    {outKey : Option Bytes} {d w : Bytes}
    (hc : handshakeKind? d = some .cookie → cfg.disableCookies = false)
    (h : Carries cfg pr outKey d w) : GoesTo cfg pr outKey d dest [(w, dest)] := by
  refine ⟨?_, fun x hx => by rw [List.mem_singleton.mp hx]⟩
  rw [GoesOut, if_neg fun hd => by rw [hc hd.1] at hd; exact Bool.false_ne_true hd.2]
  exact ⟨w, rfl, h⟩

/-- The transport branch queues one region, which carries the packet. -/
theorem s2cTransport_spec (outKey : Option Bytes) (dest : CliAddr) {pr : AcceptedProfile}
    (hpr : p.cfg.profiles prof = pr.toAwgProfile) (hring : RingReady p prof)
    (hnoop : pr.h4Noop = false)
    (L : PktLayout p.mem pkt headroom n) (hs4 : pr.s4 ≤ headroom)
    (hd : IsTransport (p.mem.read pkt n)) :
    GoesTo p.cfg pr.toAwgProfile outKey (p.mem.read pkt n) dest
      (p.sentSince (s2cTransport p pkt n headroom prof dest)) := by
  have h32 : 32 ≤ n := by
    have := hd.1
    rwa [Mem.length_read L.fits] at this
  have hs0 := pr.valid.s4_mem.1
  have hh := L.headroom
  obtain ⟨m, ring, idx, rng, v, hput, hchg, hv, hmsg⟩ :=
    s2cPutHeader_spec hring (hpr ▸ hnoop) L.fits (by omega)
  rw [hpr] at hv
  have hfm := hchg.shape.fits_iff.mpr L.fits
  have hk := hd.handshakeKind?_eq_none
  have hone : ∀ w, Carries p.cfg pr.toAwgProfile outKey (p.mem.read pkt n) w →
      GoesTo p.cfg pr.toAwgProfile outKey (p.mem.read pkt n) dest [(w, dest)] := by
    intro w
    exact goesTo_singleton dest fun hc => absurd (hk.symm.trans hc) (by rintro ⟨⟩)
  rw [s2cTransport]
  dsimp only
  rw [hput, hpr]
  dsimp only
  by_cases hs : pr.s4 > 0 ∧ (headroom : ℤ) ≥ pr.s4
  · rw [if_pos hs]
    -- the padding stands between the start of the buffer and the packet
    have hback : (pkt.sub pr.s4.toNat).add pr.s4.toNat = pkt := Ptr.sub_add_cancel (by omega)
    have hroom : m.Fits (pkt.sub pr.s4.toNat) (pr.s4.toNat + n) := by
      simp only [Mem.Fits, Ptr.sub_buf, Ptr.sub_off] at hfm ⊢
      omega
    have hlen := length_fastrandFill p.rngS2c pr.s4.toNat
    have hfp : m.Fits (pkt.sub pr.s4.toNat) (fastrandFill p.rngS2c pr.s4.toNat).1.length := by
      rw [hlen]
      exact hroom.mono (by omega)
    have hpre : (m.write (pkt.sub pr.s4.toNat) (fastrandFill p.rngS2c pr.s4.toNat).1).read
        (pkt.sub pr.s4.toNat) pr.s4.toNat = (fastrandFill p.rngS2c pr.s4.toNat).1 := by
      have hself := Mem.read_write_self hfp
      rwa [hlen] at hself
    have hkeep : (m.write (pkt.sub pr.s4.toNat) (fastrandFill p.rngS2c pr.s4.toNat).1).read pkt n =
        m.read pkt n := by
      refine Mem.read_write_of_apart hfp (Or.inr (Or.inr ?_))
      rw [hlen]
      simp only [Ptr.sub_off]
      omega
    have h12 : pr.hpOn = true → 12 ≤ pr.s4.toNat := by
      intro hon
      have := (pr.valid.hp hon).2.2.2
      omega
    obtain ⟨henc, -⟩ := read_protectHeader p.cfg ((Mem.sameShape_write hfp).fits_iff.mpr hroom) h32
      hpre h12 rfl
    rw [hback, hkeep, hmsg] at henc
    dsimp only [Proxy.queueSend, Proxy.sentSince]
    rw [List.drop_left, List.drop_length]
    refine hone _ ?_
    rw [Carries, hk]
    exact ⟨v, _, hv, hlen, henc⟩
  · rw [if_neg hs]
    have h0 : pr.s4.toNat = 0 := by omega
    have hoff : pr.hpOn = false := by
      rw [← Bool.not_eq_true]
      intro hon
      have := (pr.valid.hp hon).2.2.2
      omega
    dsimp only [Proxy.queueSend, Proxy.sentSince]
    rw [List.drop_left, List.drop_length]
    refine hone _ ?_
    rw [Carries, hk]
    refine ⟨v, [], hv, h0.symm, ?_⟩
    rw [protectHeader, hoff, List.nil_append, if_neg Bool.false_ne_true, ← hmsg]
    rfl

/-- The encoder's branch sends one packet, at once or by the queue, which carries the handshake
under the key it is given, else the configured one; a cookie reply that is not forwarded is
dropped. -/
theorem s2cTransform_spec (key : Option Bytes) {pr : AcceptedProfile}
    (hpr : p.cfg.profiles prof = pr.toAwgProfile) {base : Ptr PktBuf} {k : HandshakeKind}
    {d : Bytes} (L : PktLayout p.mem (base.add headroom) headroom n)
    (hread : p.mem.read (base.add headroom) n = d) (hk : handshakeKind? d = some k) :
    GoesTo p.cfg pr.toAwgProfile (key <|> p.cfg.mac1keyOut) d dest
      (p.sentSince (s2cTransform p base n headroom prof key dest)) := by
  obtain ⟨hty, hsz⟩ := handshakeKind?_eq_some_iff.mp hk
  have hn : n = k.size := by
    rw [← hsz, ← hread, Mem.length_read L.fits]
  have hty' : read32Le p.mem (base.add headroom) = k.type := by
    rw [read32Le_eq p.mem _ (by rw [hn]; exact k.four_le_size : 4 ≤ n), hread, hty]
  rw [s2cTransform, hpr]
  by_cases hcookie : handshakeKind? d = some .cookie ∧ p.cfg.disableCookies = true
  · obtain rfl := Option.some.inj (hk.symm.trans hcookie.1)
    rw [show n = wgCookieSize from hn, transformOutboundProfile_cookie_disabled hty' hcookie.2]
    dsimp only [Proxy.sentSince]
    rw [List.drop_length, List.drop_length, GoesTo, GoesOut, if_pos hcookie]
    exact ⟨rfl, fun w hw => absurd hw List.not_mem_nil⟩
  · have hc : k = .cookie → p.cfg.disableCookies = false := by
      rintro rfl
      rw [← Bool.not_eq_true]
      exact fun hdis => hcookie ⟨hk, hdis⟩
    obtain ⟨out, hout, hbytes, -⟩ := transformOutboundProfile_handshake key
      (fastrandU64 p.rngS2c) L pr.valid hty' hn hc rfl
    rw [hread] at hbytes
    have hcar := goesTo_singleton dest (fun hd => hc (Option.some.inj (hk.symm.trans hd)))
      (carries_encodeHandshake p.cfg pr.toAwgProfile (key <|> p.cfg.mac1keyOut) hk
        (fastrandU64 p.rngS2c))
    rw [← hbytes] at hcar
    generalize transformOutboundProfile p.mem base headroom n p.cfg pr.toAwgProfile key
      (fastrandU64 p.rngS2c) = r at hout hcar ⊢
    rw [hout]
    dsimp only
    split
    · dsimp only [Proxy.sentSince]
      rw [List.drop_left, List.drop_length]
      exact hcar
    · dsimp only [Proxy.queueSend, Proxy.sentSince]
      rw [List.drop_left, List.drop_length]
      exact hcar

/-- The rings after the transport branch. -/
theorem RingsReady.s2cTransport (h : RingsReady p) (hprof : (prof : ℕ) < p.cfg.profileCount)
    (pkt : Ptr PktBuf) (n headroom : ℕ) (dest : CliAddr) :
    RingsReady (s2cTransport p pkt n headroom prof dest) := by
  obtain ⟨ring, idx, rng, hpick⟩ := pickH4Prof_eq p prof
  obtain ⟨hput, hcfg⟩ : RingsReady (s2cPutHeader p pkt prof) ∧
      (s2cPutHeader p pkt prof).cfg = p.cfg := by
    rw [s2cPutHeader]
    split
    · exact ⟨h, rfl⟩
    · refine ⟨(h.pickH4Prof hprof).congr rfl rfl (.refl _), ?_⟩
      dsimp only
      rw [hpick]
  have hnote : ∀ w, SameChain (s2cPutHeader p pkt prof).cfg (awgWindowNote p.cfg w) := by
    intro w
    rw [hcfg]
    exact (sameChain_awgWindowNote _ _).1
  rw [AwgProxy.s2cTransport]
  split
  · exact hput.congr rfl rfl (hnote _)
  · exact hput.congr rfl rfl (hnote _)

/-- The rings after the encoder's branch. -/
theorem RingsReady.s2cTransform (h : RingsReady p) (base : Ptr PktBuf) (n headroom : ℕ)
    (prof : Fin awgMaxProfiles) (key : Option Bytes) (dest : CliAddr) :
    RingsReady (s2cTransform p base n headroom prof key dest) := by
  rw [AwgProxy.s2cTransform]
  dsimp only
  split
  · exact h.congr rfl rfl (.refl _)
  · split
    · exact h.congr rfl rfl (.refl _)
    · exact h.congr rfl rfl (.refl _)

/-- The rings after a packet of reverse mode. -/
theorem RingsReady.processS2cPktReverse (h : RingsReady p) (hmode : p.cfg.mode = .reverse)
    (hact : (p.cfg.activeProfile : ℕ) < p.cfg.profileCount) (base : Ptr PktBuf) (n headroom : ℕ) :
    RingsReady (processS2cPktReverse p base n headroom) := by
  have hnot : ¬ p.cfg.mode = .server := by
    rw [hmode]
    decide
  rw [AwgProxy.processS2cPktReverse, if_neg hnot]
  split
  · exact h
  split
  · exact h.s2cTransport hact _ _ _ _
  · exact h.s2cTransform _ _ _ _ _ _

/-- The packet function of reverse mode leaves the client alone. -/
theorem client_processS2cPktReverse (hmode : p.cfg.mode = .reverse) (base : Ptr PktBuf)
    (n headroom : ℕ) :
    (processS2cPktReverse p base n headroom).hasClient = p.hasClient ∧
      (processS2cPktReverse p base n headroom).clientAddr = p.clientAddr := by
  have hnot : ¬ p.cfg.mode = .server := by
    rw [hmode]
    decide
  obtain ⟨ring, idx, rng, hpick⟩ := pickH4Prof_eq p p.cfg.activeProfile
  have hput : (s2cPutHeader p (base.add headroom) p.cfg.activeProfile).hasClient = p.hasClient ∧
      (s2cPutHeader p (base.add headroom) p.cfg.activeProfile).clientAddr = p.clientAddr := by
    rw [s2cPutHeader]
    split
    · exact ⟨rfl, rfl⟩
    · dsimp only
      rw [hpick]
      exact ⟨rfl, rfl⟩
  rw [processS2cPktReverse, if_neg hnot]
  split
  · exact ⟨rfl, rfl⟩
  split
  · rw [s2cTransport]
    dsimp only
    split
    · exact hput
    · exact hput
  · rw [s2cTransform]
    dsimp only
    split
    · exact ⟨rfl, rfl⟩
    · split
      · exact ⟨rfl, rfl⟩
      · exact ⟨rfl, rfl⟩

/-- Before there is a client nothing goes out. -/
theorem datagrams_of_noClient (hmode : p.cfg.mode = .reverse) (hclient : p.hasClient = false)
    (d : Bytes) : p.datagrams d = [] := by
  have hnot : ¬ (p.receive 0 d).cfg.mode = .server := by
    rw [show (p.receive 0 d).cfg.mode = .reverse from hmode]
    decide
  have hpkt : p.packet 0 d = p.receive 0 d := by
    rw [Proxy.packet, processS2cPktReverse, if_neg hnot, if_pos]
    rw [show (p.receive 0 d).hasClient = p.hasClient from rfl, hclient]
    rfl
  rw [Proxy.datagrams, Proxy.sentSince, hpkt, show (p.receive 0 d).sent = p.sent from rfl,
    show (p.receive 0 d).queue = p.queue from rfl, List.drop_length, List.drop_length]
  rfl

/-- The packet function of reverse mode, once there is a client. -/
theorem processS2cPktReverse_of_reverse (hmode : p.cfg.mode = .reverse)
    (hclient : p.hasClient = true) (base : Ptr PktBuf) (n headroom : ℕ) :
    processS2cPktReverse p base n headroom =
      if n ≥ wgTransportMin ∧ load32Le (p.mem.read (base.add headroom) n) 0 = wgTransportData then
        s2cTransport p (base.add headroom) n headroom p.cfg.activeProfile p.clientAddr
      else s2cTransform p base n headroom p.cfg.activeProfile none p.clientAddr := by
  have hnot : ¬ p.cfg.mode = .server := by
    rw [hmode]
    decide
  rw [processS2cPktReverse, if_neg hnot, if_neg (by rw [hclient]; exact Bool.false_ne_true)]

/-- A message has at least its type word. -/
theorem four_le_of_isWireGuard {d : Bytes} (hd : IsWireGuard d) : 4 ≤ d.length := by
  rcases hd with hk | ht
  · obtain ⟨k, hk⟩ := Option.isSome_iff_exists.mp hk
    rw [(handshakeKind?_eq_some_iff.mp hk).2]
    exact k.four_le_size
  · have h32 : 32 ≤ d.length := ht.1
    omega

/-- A message of the local WireGuard is received behind the headroom. -/
theorem S2cLayout.receivable (h : S2cLayout p) {d : Bytes} (hd : IsWireGuard d)
    (hlen : d.length ≤ awgPacketBufSize) : Receivable p 0 d where
  buffer := by decide
  length := by
    have h4 := four_le_of_isWireGuard hd
    omega
  fits := by
    have hmax := h.maxS4_le
    have hbuf := h.bufs 0 (by decide)
    simp only [Mem.Fits, hbuf, awgPacketBufSize, awgPacketHeadroom] at hlen ⊢
    omega

/-- A packet of the local WireGuard leaves the thread of reverse mode as it runs. -/
theorem gives_frame (h : S2cLayout p) (hr : RingsReady p) (hmode : p.cfg.mode = .reverse)
    {d : Bytes} (hrecv : Receivable p 0 d) :
    S2cLayout (p.gives d) ∧ RingsReady (p.gives d) ∧
      ((p.gives d).hasClient = p.hasClient ∧ (p.gives d).clientAddr = p.clientAddr) ∧
      ∃ w, (p.gives d).cfg = { p.cfg with udpWindow := w } := by
  have hl := h.receive hrecv
  have hframe := processS2cPktReverse_frame hl hrecv.buffer (hrecv.le h)
  have hready := RingsReady.processS2cPktReverse (p := p.receive 0 d)
    (hr.congr rfl rfl (.refl _)) hmode h.active ⟨.recv 0, 0⟩ d.length p.cfg.maxS4
  obtain ⟨ha, hc, hact, he, hm, hb, hs⟩ := hl.of_frame hframe
  exact ⟨⟨ha, hc, hact, he, hm, hb, hs⟩, hready.congr rfl rfl (.refl _),
    client_processS2cPktReverse (p := p.receive 0 d) hmode _ _ _, hframe.cfg⟩

/-- **A message at the server's end** goes out to the client under the active stage. -/
theorem goesTo_gives {pr : AcceptedProfile} (h : S2cLayout p) (hr : RingsReady p)
    (hmode : p.cfg.mode = .reverse) (hclient : p.hasClient = true)
    (hact : p.cfg.profiles p.cfg.activeProfile = pr.toAwgProfile) (hnoop : pr.h4Noop = false)
    (hs4 : pr.s4 ≤ p.cfg.maxS4) {d : Bytes} (hd : IsWireGuard d) (hrecv : Receivable p 0 d) :
    GoesTo p.cfg pr.toAwgProfile p.cfg.mac1keyOut d p.clientAddr (p.datagrams d) := by
  have hl := h.receive hrecv
  have L := hl.pktLayout (i := 0) hrecv.buffer (hrecv.le h)
  have hread : (p.receive 0 d).mem.read
      ((⟨.recv 0, 0⟩ : Ptr PktBuf).add (p.receive 0 d).cfg.maxS4) d.length = d := hrecv.read
  have hring : RingReady (p.receive 0 d) p.cfg.activeProfile :=
    (hr _ h.active).congr rfl rfl rfl
  rw [Proxy.datagrams, Proxy.packet, show p.cfg.maxS4 = (p.receive 0 d).cfg.maxS4 from rfl,
    processS2cPktReverse_of_reverse (p := p.receive 0 d) hmode hclient]
  rcases hk : handshakeKind? d with _ | k
  · have ht := isTransport_of_isWireGuard hd hk
    have hspec := s2cTransport_spec (p := p.receive 0 d) p.cfg.mac1keyOut p.clientAddr hact hring
      hnoop L hs4 (by rw [hread]; exact ht)
    rw [if_pos (by rw [hread]; exact ht)]
    rw [hread] at hspec
    exact hspec
  · have hnt : ¬ (d.length ≥ wgTransportMin ∧ load32Le d 0 = wgTransportData) := by
      intro ht
      exact absurd (hk.symm.trans (IsTransport.handshakeKind?_eq_none ht)) (by rintro ⟨⟩)
    rw [hread, if_neg hnt]
    exact s2cTransform_spec (p := p.receive 0 d) none hact L hread hk

end

end AwgProxy
