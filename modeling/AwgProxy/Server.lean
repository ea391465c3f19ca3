import AwgProxy.Lib.Machine
import AwgProxy.S2cBatch

/-!
# Server Mode

A proxy in server mode as a machine: the c2s thread records the handshakes of clients in
the session table and follows clients that move, and the s2c thread routes, identifies and
encodes the packets of the local WireGuard, in any order.

* `s2cRoute_init`, `s2cRoute_response` — where a handshake of the local WireGuard is sent.
* `processS2cPktReverse_handshake` — what becomes of it: the entry is identified and the
  message goes through the encoder under the key of the peer.
* `resolvePeerAt_of_verifiesOnly` — a sum that verifies under one key only names its peer.
-/

namespace AwgProxy

/-! ### The machine -/

/-- What happens to a proxy in server mode. A handshake of a client says which peer the
client is, which the proxy cannot tell. -/
inductive ServerEvent
  /-- The init of a client is recorded. -/
  | clientInit (peer : ℕ) (index : UInt32) (addr : CliAddr) (prof : Fin awgMaxProfiles)
  /-- The response of a client to a handshake our WireGuard started is recorded. -/
  | clientResponse (peer : ℕ) (index : UInt32) (addr : CliAddr) (prof : Fin awgMaxProfiles)
      (sidx : UInt32)
  /-- The transport data of a client is followed to its source. -/
  | follow (sidx : UInt32) (src : CliAddr) (ctr : UInt64)
  /-- A packet of the local WireGuard, received in buffer `i`, is processed. -/
  | packet (i : ℕ) (d : Bytes)
  /-- The batch is sent. -/
  | sendBatch

/-- The packet `d` in buffer `i`, behind the headroom. -/
def Proxy.receive (p : Proxy) (i : ℕ) (d : Bytes) : Proxy :=
  { p with mem := p.mem.write ⟨.recv i, p.cfg.maxS4⟩ d }

/-- A packet received in buffer `i` and processed. -/
def Proxy.packet (p : Proxy) (i : ℕ) (d : Bytes) : Proxy :=
  processS2cPktReverse (p.receive i d) ⟨.recv i, 0⟩ d.length p.cfg.maxS4

/-- The proxy in server mode. Profiles recorded are those of the chain, and a packet fits
into its buffer. -/
def serverMachine : Machine Proxy ServerEvent where
  step p
    | .clientInit _ index addr prof =>
        if (prof : ℕ) < p.cfg.profileCount then
          some { p with table := (sessionPutProf p.table index addr prof).1 }
        else none
    | .clientResponse _ index addr prof sidx =>
        if (prof : ℕ) < p.cfg.profileCount then
          let put := sessionPutProf p.table index addr prof
          some { p with table := sessionSetServerIndex put.1 (some put.2) sidx }
        else none
    | .follow sidx src ctr => some { p with table := (sessionFollowClient p.table sidx src ctr).1 }
    | .packet i d =>
        if i < batchSize ∧ 0 < d.length ∧ p.mem.Fits ⟨.recv i, p.cfg.maxS4⟩ d.length then
          some (p.packet i d)
        else none
    | .sendBatch => some { p with queue := [] }

/-- A packet that can be received. -/
structure Receivable (p : Proxy) (i : ℕ) (d : Bytes) : Prop where
  buffer : i < batchSize
  length : 0 < d.length
  fits : p.mem.Fits ⟨.recv i, p.cfg.maxS4⟩ d.length

theorem serverMachine_packet_eq_some {p p' : Proxy} {i : ℕ} {d : Bytes} :
    serverMachine.step p (.packet i d) = some p' ↔ Receivable p i d ∧ p' = p.packet i d := by
  simp only [serverMachine]
  constructor
  · intro h
    split at h
    · rename_i hr
      exact ⟨⟨hr.1, hr.2.1, hr.2.2⟩, (Option.some.inj h).symm⟩
    · contradiction
  · rintro ⟨hr, rfl⟩
    rw [if_pos ⟨hr.buffer, hr.length, hr.fits⟩]

/-- The received packet is read back. -/
theorem Receivable.read {p : Proxy} {i : ℕ} {d : Bytes} (h : Receivable p i d) :
    (p.receive i d).mem.read ((⟨.recv i, 0⟩ : Ptr PktBuf).add p.cfg.maxS4) d.length = d := by
  have hself := Mem.read_write_self h.fits
  rwa [Ptr.add, Nat.zero_add]

/-! ### The proxy as it runs -/

/-- A proxy in server mode as it runs. -/
structure ServerRuns (p : Proxy) : Prop where
  layout : S2cLayout p
  mode : p.cfg.mode = .server

/-- A received packet is no longer than what is read from the socket. -/
theorem Receivable.le {p : Proxy} {i : ℕ} {d : Bytes} (h : Receivable p i d)
    (hl : S2cLayout p) : d.length ≤ s2cBuflen p.cfg := by
  have hfit := h.fits
  rw [Mem.Fits, hl.bufs i h.buffer] at hfit
  rw [s2cBuflen]
  dsimp only at hfit
  omega

/-- Receiving a packet leaves the thread as it runs. -/
theorem S2cLayout.receive {p : Proxy} {i : ℕ} {d : Bytes} (hl : S2cLayout p)
    (h : Receivable p i d) : S2cLayout (p.receive i d) := by
  have hshape := Mem.sameShape_write h.fits
  exact ⟨hl.accepted, hl.count, hl.active, hl.entries, hl.maxS4,
    fun j hj => (hshape _).trans (hl.bufs j hj), (hshape _).trans hl.hs⟩

/-- A change of the table that records profiles of the chain. -/
theorem S2cLayout.of_table {p : Proxy} (h : S2cLayout p) {t : SessionTable}
    (ht : ∀ s, ((t.sessions s).prof : ℕ) < p.cfg.profileCount) :
    S2cLayout { p with table := t } :=
  ⟨h.accepted, h.count, h.active, ht, h.maxS4, h.bufs, h.hs⟩

/-- An insertion records its own profile. -/
theorem prof_sessionPutProf (t : SessionTable) (index : UInt32) (addr : CliAddr)
    (prof : Fin awgMaxProfiles) (s : Slot) :
    ((sessionPutProf t index addr prof).1.sessions s).prof =
      if s = putSlot t index then prof else (t.sessions s).prof := by
  rw [sessionPutProf_eq]
  dsimp only
  by_cases h : s = putSlot t index
  · subst h
    rw [if_pos rfl, sessions_set_self]
    unfold putEntry
    split <;> rfl
  · rw [if_neg h, sessions_set_of_ne t _ h]

/-- **A step** of the proxy leaves it as it runs, and of its configuration it changes the
window alone. -/
theorem ServerRuns.step {p p' : Proxy} {e : ServerEvent} (h : ServerRuns p)
    (hstep : serverMachine.step p e = some p') :
    ServerRuns p' ∧ ∃ w, p'.cfg = { p.cfg with udpWindow := w } := by
  have hsame : ∃ w, p.cfg = { p.cfg with udpWindow := w } := ⟨p.cfg.udpWindow, rfl⟩
  have hput : ∀ index addr (prof : Fin awgMaxProfiles), (prof : ℕ) < p.cfg.profileCount →
      ∀ s, (((sessionPutProf p.table index addr prof).1.sessions s).prof : ℕ) <
        p.cfg.profileCount := by
    intro index addr prof hprof s
    rw [prof_sessionPutProf]
    split
    · exact hprof
    · exact h.layout.entries s
  cases e with
  | clientInit peer index addr prof =>
      simp only [serverMachine, Option.ite_none_right_eq_some, Option.some.injEq] at hstep
      obtain ⟨hprof, rfl⟩ := hstep
      exact ⟨⟨h.layout.of_table (hput index addr prof hprof), h.mode⟩, hsame⟩
  | clientResponse peer index addr prof sidx =>
      simp only [serverMachine, Option.ite_none_right_eq_some, Option.some.injEq] at hstep
      obtain ⟨hprof, rfl⟩ := hstep
      refine ⟨⟨h.layout.of_table fun s => ?_, h.mode⟩, hsame⟩
      have := hput index addr prof hprof s
      rw [sessions_sessionSetServerIndex]
      split
      · exact this
      · exact this
  | follow sidx src ctr =>
      obtain rfl := Option.some.inj hstep
      refine ⟨⟨h.layout.of_table fun s => ?_, h.mode⟩, hsame⟩
      obtain ⟨a, c, n, hs⟩ := exists_sessions_sessionFollowClient p.table sidx src ctr s
      rw [hs]
      exact h.layout.entries s
  | packet i d =>
      obtain ⟨hr, rfl⟩ := serverMachine_packet_eq_some.mp hstep
      have hframe := processS2cPktReverse_frame (h.layout.receive hr) hr.buffer
        (hr.le h.layout)
      obtain ⟨w, hw⟩ := hframe.cfg
      have hcfg : (p.packet i d).cfg = { p.cfg with udpWindow := w } := hw
      refine ⟨⟨(h.layout.receive hr).of_frame hframe, ?_⟩, w, hcfg⟩
      rw [hcfg]
      exact h.mode
  | sendBatch =>
      obtain rfl := Option.some.inj hstep
      exact ⟨⟨⟨h.layout.accepted, h.layout.count, h.layout.active, h.layout.entries,
        h.layout.maxS4, h.layout.bufs, h.layout.hs⟩, h.mode⟩, hsame⟩

/-- Every run leaves the proxy as it runs. -/
theorem ServerRuns.run {p p' : Proxy} {es : List ServerEvent} (h : ServerRuns p)
    (hrun : serverMachine.run p es = some p') : ServerRuns p' :=
  Machine.run_induction (fun _ _ _ hp hstep => (hp.step hstep).1) h hrun

/-! ### The peer a sum names -/

/-- The sum behind the first `off` bytes of a message verifies under the key of peer `k` of
the list and under no other. -/
def VerifiesOnly (cfg : AwgConfig) (off : ℕ) (d : Bytes) (k : ℕ) : Prop :=
  k < cfg.serverPeerMac1keys.length ∧ ∀ j key, cfg.serverPeerMac1keys[j]? = some key →
    (blake2s128mac key (d.take off) = d.slice off 16 ↔ j = k)

/-- A sum that verifies under one key only names its peer. -/
theorem resolvePeerAt_of_verifiesOnly {cfg : AwgConfig} {off : ℕ} {d : Bytes} {k : ℕ}
    (h : VerifiesOnly cfg off d k) : resolvePeerAt off cfg d = k := by
  obtain ⟨hk, hall⟩ := h
  have hidx : cfg.serverPeerMac1keys.findIdx? (fun key =>
      blake2s128mac key (d.take off) = d.slice off 16) = some k := by
    rw [List.findIdx?_eq_some_iff_getElem]
    refine ⟨hk, ?_, fun j hj => ?_⟩
    · rw [decide_eq_true_eq]
      exact (hall k _ (List.getElem?_eq_getElem hk)).mpr rfl
    · rw [decide_eq_true_eq]
      intro hver
      have := (hall j _ (List.getElem?_eq_getElem (by omega))).mp hver
      omega
  rw [resolvePeerAt, hidx]

theorem configServerResolvePeerForInit_of_verifiesOnly {cfg : AwgConfig} {d : Bytes} {k : ℕ}
    (hd : handshakeKind? d = some .init) (h : VerifiesOnly cfg 116 d k) :
    configServerResolvePeerForInit cfg d = k := by
  obtain ⟨hty, hsz⟩ := handshakeKind?_eq_some_iff.mp hd
  rw [configServerResolvePeerForInit, if_neg, resolvePeerAt_of_verifiesOnly h]
  rintro (hne | hne)
  · exact hne hsz
  · exact hne hty

theorem configServerResolvePeerForResponse_of_verifiesOnly {cfg : AwgConfig} {d : Bytes} {k : ℕ}
    (hd : handshakeKind? d = some .response) (h : VerifiesOnly cfg 60 d k) :
    configServerResolvePeerForResponse cfg d = k := by
  obtain ⟨hty, hsz⟩ := handshakeKind?_eq_some_iff.mp hd
  rw [configServerResolvePeerForResponse, if_neg, resolvePeerAt_of_verifiesOnly h]
  rintro (hne | hne)
  · exact hne hsz
  · exact hne hty

/-! ### The way of a handshake -/

/-- The route of a server-initiated handshake: the peer's entry, else the sole client's. -/
theorem s2cRoute_init {cfg : AwgConfig} (t : SessionTable) {d : Bytes}
    (hd : handshakeKind? d = some .init) :
    s2cRoute cfg t d =
      let k := configServerResolvePeerForInit cfg d
      match (if k ≥ 0 then sessionFindByPeer t k else none) with
      | some s => ⟨t, some s, k⟩
      | none => ⟨t, sessionFindSoleEntry t, k⟩ := by
  obtain ⟨hty, hsz⟩ := handshakeKind?_eq_some_iff.mp hd
  have h4 := HandshakeKind.type_ne_transport .init
  have h2 := wgHandshakeResponse_ne
  have h3 := wgCookieReply_ne.1
  rw [s2cRoute]
  dsimp only
  refine (if_neg fun h => h4 (hty.symm.trans h.1)).trans ?_
  refine (if_neg fun h => h2 (h.1.symm.trans hty)).trans ?_
  exact (if_neg fun h => h3 (h.1.symm.trans hty)).trans (if_pos ⟨hty, hsz⟩)

/-- The route of a response: the entry of its receiver index, which learns our index. -/
theorem s2cRoute_response {cfg : AwgConfig} (t : SessionTable) {d : Bytes}
    (hd : handshakeKind? d = some .response) :
    s2cRoute cfg t d =
      ⟨sessionSetServerIndex t (sessionGetEntry t (load32Le d 8)) (load32Le d 4),
        sessionGetEntry t (load32Le d 8), -1⟩ := by
  obtain ⟨hty, hsz⟩ := handshakeKind?_eq_some_iff.mp hd
  have h4 := HandshakeKind.type_ne_transport .response
  rw [s2cRoute]
  dsimp only
  rw [if_neg fun h => h4 (hty.symm.trans h.1), if_pos ⟨hty, hsz⟩]

/-- The profile a client's packets go out in. -/
def serverProf (cfg : AwgConfig) (t : SessionTable) (s : Slot) : Fin awgMaxProfiles :=
  if cfg.profileCount > 1 then (t.sessions s).prof else cfg.activeProfile

/-- **A handshake of the local WireGuard.** Without a destination it is dropped; otherwise
its entry is identified and it goes through the encoder. -/
theorem processS2cPktReverse_handshake {p : Proxy} {base : Ptr PktBuf} {n headroom : ℕ}
    {d : Bytes} {k : HandshakeKind} (hmode : p.cfg.mode = .server)
    (hread : p.mem.read (base.add headroom) n = d) (hn : d.length = n)
    (hd : handshakeKind? d = some k) :
    processS2cPktReverse p base n headroom =
      let r := s2cRoute p.cfg p.table d
      match r.entry with
      | none => { p with table := r.table }
      | some s => s2cTransform { p with table := (s2cIdentify p.cfg r.table s r.initPeer d).1 }
          base n headroom (serverProf p.cfg r.table s)
          (s2cIdentify p.cfg r.table s r.initPeer d).2 (r.table.sessions s).addr := by
  obtain ⟨hty, hsz⟩ := handshakeKind?_eq_some_iff.mp hd
  have h4 := k.four_le_size
  have hnot : ¬ (n ≥ wgTransportMin ∧ load32Le d 0 = wgTransportData) := by
    rintro ⟨-, ht⟩
    exact k.type_ne_transport (hty.symm.trans ht)
  rw [processS2cPktReverse]
  dsimp only
  rw [hread, if_pos hmode, if_neg (by omega)]
  rcases (s2cRoute p.cfg p.table d).entry with _ | s
  · rfl
  · dsimp only
    rw [if_neg hnot]
    rfl

/-- A received handshake. -/
theorem Proxy.packet_handshake {p : Proxy} {i : ℕ} {d : Bytes} {k : HandshakeKind}
    (hmode : p.cfg.mode = .server) (h : Receivable p i d) (hd : handshakeKind? d = some k) :
    p.packet i d =
      let r := s2cRoute p.cfg p.table d
      match r.entry with
      | none => { p.receive i d with table := r.table }
      | some s =>
          s2cTransform { p.receive i d with table := (s2cIdentify p.cfg r.table s r.initPeer d).1 }
            ⟨.recv i, 0⟩ d.length p.cfg.maxS4 (serverProf p.cfg r.table s)
            (s2cIdentify p.cfg r.table s r.initPeer d).2 (r.table.sessions s).addr :=
  processS2cPktReverse_handshake hmode h.read rfl hd

/-! ### The table after a handshake -/

/-- The encoder does not touch the table. -/
theorem table_s2cTransform (q : Proxy) (base : Ptr PktBuf) (n headroom : ℕ)
    (prof : Fin awgMaxProfiles) (key : Option Bytes) (dest : CliAddr) :
    (s2cTransform q base n headroom prof key dest).table = q.table := by
  rw [s2cTransform]
  dsimp only
  split
  · rfl
  · split <;> rfl

/-- Nor does the transport branch. -/
theorem table_s2cTransport (q : Proxy) (pkt : Ptr PktBuf) (n headroom : ℕ)
    (prof : Fin awgMaxProfiles) (dest : CliAddr) :
    (s2cTransport q pkt n headroom prof dest).table = q.table := by
  have hput : (s2cPutHeader q pkt prof).table = q.table := by
    rw [s2cPutHeader]
    split
    · rfl
    · obtain ⟨ring, idx, rng, hpick⟩ := pickH4Prof_eq q prof
      dsimp only
      rw [hpick]
  rw [s2cTransport]
  dsimp only
  split
  · exact hput
  · exact hput

/-- **The handshake step, slot by slot.** The entry gets the peer, and the peer's entries at
other addresses become free. -/
theorem sessions_s2cIdentify (cfg : AwgConfig) (t : SessionTable) (s s' : Slot) (initPeer : ℤ)
    (d : Bytes) : (s2cIdentify cfg t s initPeer d).1.sessions s' =
      let k := s2cPeer cfg (t.sessions s).peerSlot initPeer d
      let e := if s = s' then { t.sessions s' with peerSlot := k } else t.sessions s'
      if 0 ≤ k ∧ e.valid ∧ e.peerSlot = k ∧ e.addr ≠ (t.sessions s).addr then
        { e with valid := false }
      else e := by
  rw [s2cIdentify_eq]
  dsimp only
  rw [sessions_sessionDropMovedPeer, sessions_sessionSetPeerSlot]
  simp only [Option.some.injEq]

/-- The handshake step writes the peer of one entry, the one of the packet. -/
theorem peerSlot_s2cIdentify (cfg : AwgConfig) (t : SessionTable) (s s' : Slot) (initPeer : ℤ)
    (d : Bytes) : ((s2cIdentify cfg t s initPeer d).1.sessions s').peerSlot =
      if s = s' then s2cPeer cfg (t.sessions s).peerSlot initPeer d
      else (t.sessions s').peerSlot := by
  rw [sessions_s2cIdentify]
  dsimp only
  split <;> split <;> rfl

/-- The handshake step frees entries and puts none into use. -/
theorem valid_of_valid_s2cIdentify {cfg : AwgConfig} {t : SessionTable} {s s' : Slot}
    {initPeer : ℤ} {d : Bytes}
    (h : ((s2cIdentify cfg t s initPeer d).1.sessions s').valid = true) :
    (t.sessions s').valid = true := by
  rw [sessions_s2cIdentify] at h
  by_cases hs : s = s'
  · simp only [if_pos hs] at h
    split at h
    · contradiction
    · exact h
  · simp only [if_neg hs] at h
    split at h
    · contradiction
    · exact h

/-- An init that was resolved to a peer is taken to be for that peer. -/
theorem s2cPeer_init {cfg : AwgConfig} (known : ℤ) {k : ℤ} {d : Bytes}
    (hd : handshakeKind? d = some .init) (hk : 0 ≤ k) : s2cPeer cfg known k d = k := by
  obtain ⟨hty, -⟩ := handshakeKind?_eq_some_iff.mp hd
  have h2 : load32Le d 0 ≠ wgHandshakeResponse := by
    rw [hty]
    decide
  rw [s2cPeer]
  simp only [ge_iff_le, if_pos hk, h2, false_and, if_false]
  exact if_neg (by omega)

/-- A response for an entry without a key is taken to be for the peer its sum names. -/
theorem s2cPeer_response {cfg : AwgConfig} {known : ℤ} {k : ℕ} {d : Bytes}
    (hd : handshakeKind? d = some .response) (hk : VerifiesOnly cfg 60 d k)
    (hno : peerMac1key cfg known = none) : s2cPeer cfg known (-1) d = k := by
  obtain ⟨hty, hsz⟩ := handshakeKind?_eq_some_iff.mp hd
  have hneg : ¬ (-1 : ℤ) ≥ 0 := by decide
  have hresp : load32Le d 0 = wgHandshakeResponse ∧ d.length = wgRespSize ∧
      peerMac1key cfg known = none := ⟨hty, hsz, hno⟩
  simp only [s2cPeer, if_neg hneg, if_pos hresp,
    configServerResolvePeerForResponse_of_verifiesOnly hd hk]
  exact if_pos (Int.natCast_nonneg k)

/-- A response for an entry with a key is taken to be for its peer. -/
theorem s2cPeer_response_of_known {cfg : AwgConfig} {known : ℤ} {d : Bytes}
    (hknown : peerMac1key cfg known ≠ none) : s2cPeer cfg known (-1) d = known := by
  have hneg : ¬ (-1 : ℤ) ≥ 0 := by decide
  have hresp : ¬ (load32Le d 0 = wgHandshakeResponse ∧ d.length = wgRespSize ∧
      peerMac1key cfg known = none) := fun h => hknown h.2.2
  simp only [s2cPeer, if_neg hneg, if_neg hresp]

/-- The peer before the first is none. -/
theorem peerMac1key_of_neg {cfg : AwgConfig} {known : ℤ} (h : known < 0) :
    peerMac1key cfg known = none := by
  rw [peerMac1key, if_neg (by omega)]

/-- Where the peer comes from that a packet is taken to be for: its init, its entry, or its
own sum. -/
theorem s2cPeer_cases (cfg : AwgConfig) (known initPeer : ℤ) (d : Bytes) :
    s2cPeer cfg known initPeer d = initPeer ∧ 0 ≤ initPeer ∨
      s2cPeer cfg known initPeer d = known ∨
      s2cPeer cfg known initPeer d = configServerResolvePeerForResponse cfg d ∧
        handshakeKind? d = some .response := by
  simp only [s2cPeer]
  by_cases hresp : load32Le d 0 = wgHandshakeResponse ∧ d.length = wgRespSize ∧
      peerMac1key cfg (if initPeer ≥ 0 then initPeer else known) = none
  · have hd : handshakeKind? d = some .response :=
      handshakeKind?_eq_some_iff.mpr ⟨hresp.1, hresp.2.1⟩
    rw [if_pos hresp]
    split_ifs with h0 h1
    · exact Or.inr (Or.inr ⟨rfl, hd⟩)
    · exact Or.inl ⟨rfl, h1⟩
    · exact Or.inr (Or.inl rfl)
  · rw [if_neg hresp, if_neg (by decide)]
    split_ifs with h1
    · exact Or.inl ⟨rfl, h1⟩
    · exact Or.inr (Or.inl rfl)

/-- The entry an init is routed to once its sum has named a peer: one of the peer's, or the
sole client's when there is none. -/
theorem s2cRoute_initPeer {cfg : AwgConfig} {t : SessionTable} {d : Bytes} {s : Slot}
    (hs : (s2cRoute cfg t d).entry = some s) (h0 : 0 ≤ (s2cRoute cfg t d).initPeer) :
    (s2cRoute cfg t d).initPeer = configServerResolvePeerForInit cfg d ∧
      (sessionFindByPeer t (s2cRoute cfg t d).initPeer = some s ∨
        sessionFindByPeer t (s2cRoute cfg t d).initPeer = none ∧
          sessionFindSoleEntry t = some s) := by
  have hneg : ¬ (0 : ℤ) ≤ -1 := by decide
  by_cases hinit : handshakeKind? d = some .init
  · rw [s2cRoute_init t hinit] at hs h0 ⊢
    dsimp only at hs h0 ⊢
    generalize configServerResolvePeerForInit cfg d = k at hs h0 ⊢
    by_cases hk : k ≥ 0
    · rw [if_pos hk] at hs h0 ⊢
      rcases hfind : sessionFindByPeer t k with _ | s'
      · rw [hfind] at hs
        exact ⟨rfl, Or.inr ⟨hfind, hs⟩⟩
      · rw [hfind] at hs
        exact ⟨rfl, Or.inl (hfind.trans hs)⟩
    · rw [if_neg hk] at h0
      exact absurd h0 hk
  · exfalso
    rw [handshakeKind?_eq_some_iff] at hinit
    refine hneg (le_of_le_of_eq h0 ?_)
    simp only [s2cRoute]
    split_ifs with h1 h2 h3 h4
    · rfl
    · rfl
    · rfl
    · exact absurd h4 hinit
    · exact absurd h4 hinit
    · rfl

/-- The table after a packet: untouched, as routed, or with the packet's entry
identified. -/
theorem Proxy.table_packet {p : Proxy} {i : ℕ} {d : Bytes} (hmode : p.cfg.mode = .server)
    (h : Receivable p i d) :
    (p.packet i d).table = p.table ∨
      (p.packet i d).table = (s2cRoute p.cfg p.table d).table ∨
      ∃ s, (s2cRoute p.cfg p.table d).entry = some s ∧
        (p.packet i d).table = (s2cIdentify p.cfg (s2cRoute p.cfg p.table d).table s
          (s2cRoute p.cfg p.table d).initPeer d).1 := by
  have hcfg : (p.receive i d).cfg = p.cfg := rfl
  have htable : (p.receive i d).table = p.table := rfl
  rw [Proxy.packet, processS2cPktReverse]
  dsimp only
  rw [h.read, hcfg, htable, if_pos hmode]
  by_cases h4 : d.length < 4
  · rw [if_pos h4]
    exact Or.inl rfl
  · rw [if_neg h4]
    rcases hentry : (s2cRoute p.cfg p.table d).entry with _ | s
    · exact Or.inr (Or.inl rfl)
    · dsimp only
      by_cases ht : d.length ≥ wgTransportMin ∧ load32Le d 0 = wgTransportData
      · rw [if_pos ht, table_s2cTransport]
        exact Or.inr (Or.inl rfl)
      · rw [if_neg ht, table_s2cTransform]
        exact Or.inr (Or.inr ⟨s, rfl, rfl⟩)

/-- The table after a handshake that has a destination. -/
theorem Proxy.table_packet_handshake {p : Proxy} {i : ℕ} {d : Bytes} {k : HandshakeKind}
    (hmode : p.cfg.mode = .server) (h : Receivable p i d) (hd : handshakeKind? d = some k)
    {s : Slot} (hs : (s2cRoute p.cfg p.table d).entry = some s) :
    (p.packet i d).table = (s2cIdentify p.cfg (s2cRoute p.cfg p.table d).table s
      (s2cRoute p.cfg p.table d).initPeer d).1 := by
  have hproc := Proxy.packet_handshake hmode h hd
  dsimp only at hproc
  rw [hs] at hproc
  rw [hproc, table_s2cTransform]

/-! ### One client -/

/-- The table holds one entry, that of the client at `a`, in the home slot of its index. -/
structure SessionTable.Sole (t : SessionTable) (index : UInt32) (a : CliAddr) (k : ℤ) :
    Prop where
  inUse : ∀ s, (t.sessions s).valid = true ↔ s = homeSlot index
  sender : (t.sessions (homeSlot index)).senderIndex = index
  addr : (t.sessions (homeSlot index)).addr = a
  peer : (t.sessions (homeSlot index)).peerSlot = k

/-- The table holds no entry. -/
def SessionTable.Vacant (t : SessionTable) : Prop :=
  ∀ s, (t.sessions s).valid = false

/-- Into an empty table an index is inserted at its home. -/
theorem SessionTable.Vacant.putSlot_eq {t : SessionTable} (h : t.Vacant) (index : UInt32) :
    putSlot t index = homeSlot index := by
  have hput : putSlot? t index = some (homeSlot index) :=
    putSlot?_eq_some_iff.mpr ⟨0, by decide, probeSlot_zero index, Or.inl (h _),
      fun j hj => absurd hj (Nat.not_lt_zero j)⟩
  rw [putSlot, hput, Option.getD_some]

/-- The first client recorded is the only one, and nobody knows which peer it is. -/
theorem SessionTable.Vacant.put {t : SessionTable} (h : t.Vacant) (index : UInt32)
    (a : CliAddr) (prof : Fin awgMaxProfiles) :
    (sessionPutProf t index a prof).1.Sole index a (-1) := by
  have hslot := h.putSlot_eq index
  have hself : (sessionPutProf t index a prof).1.sessions (homeSlot index) =
      putEntry (t.sessions (homeSlot index)) index a prof := by
    rw [sessionPutProf_eq, hslot, sessions_set_self]
  refine ⟨fun s => ?_, ?_, ?_, ?_⟩
  · by_cases hs : s = homeSlot index
    · rw [hs, hself, putEntry_valid]
      exact iff_of_true rfl rfl
    · rw [sessionPutProf_eq, hslot, sessions_set_of_ne t _ hs, h s]
      exact iff_of_false Bool.false_ne_true hs
  · rw [hself, putEntry_senderIndex]
  · rw [hself, putEntry_addr]
  · rw [hself, putEntry_peerSlot, if_neg]
    rw [h]
    exact fun hv => Bool.false_ne_true hv.1

namespace SessionTable.Sole

variable {t : SessionTable} {index : UInt32} {a : CliAddr} {k : ℤ}

theorem getEntry (h : t.Sole index a k) : sessionGetEntry t index = some (homeSlot index) :=
  sessionGetEntry_eq_some_iff.mpr ⟨0, by decide, probeSlot_zero index,
    ⟨(h.inUse _).mpr rfl, h.sender⟩, fun j hj => absurd hj (Nat.not_lt_zero j)⟩

theorem findSole (h : t.Sole index a k) : sessionFindSoleEntry t = some (homeSlot index) := by
  refine sessionFindSoleEntry_eq_some_iff.mpr ⟨(h.inUse _).mpr rfl, fun i hi => ?_, fun i hi => ?_⟩
  · rw [← Bool.not_eq_true, h.inUse]
    exact ne_of_lt hi
  · rw [(h.inUse i).mp hi]

theorem setServerIndex (h : t.Sole index a k) (entry : Option Slot) (sidx : UInt32) :
    (sessionSetServerIndex t entry sidx).Sole index a k := by
  have hs : ∀ s, ((sessionSetServerIndex t entry sidx).sessions s).valid = (t.sessions s).valid ∧
      ((sessionSetServerIndex t entry sidx).sessions s).senderIndex = (t.sessions s).senderIndex ∧
      ((sessionSetServerIndex t entry sidx).sessions s).addr = (t.sessions s).addr ∧
      ((sessionSetServerIndex t entry sidx).sessions s).peerSlot = (t.sessions s).peerSlot := by
    intro s
    rw [sessions_sessionSetServerIndex]
    split
    · exact ⟨rfl, rfl, rfl, rfl⟩
    · exact ⟨rfl, rfl, rfl, rfl⟩
  refine ⟨fun s => ?_, ?_, ?_, ?_⟩
  · rw [(hs s).1]
    exact h.inUse s
  · rw [(hs _).2.1]
    exact h.sender
  · rw [(hs _).2.2.1]
    exact h.addr
  · rw [(hs _).2.2.2]
    exact h.peer

/-- Every init goes to the one client, whichever peer it is from. -/
theorem route_init (h : t.Sole index a k) (cfg : AwgConfig) {d : Bytes}
    (hd : handshakeKind? d = some .init) :
    s2cRoute cfg t d = ⟨t, some (homeSlot index), configServerResolvePeerForInit cfg d⟩ := by
  rw [s2cRoute_init t hd]
  dsimp only
  generalize configServerResolvePeerForInit cfg d = k'
  split
  · next s hfind =>
      split at hfind
      · obtain ⟨-, ⟨hvalid, -⟩, -⟩ := sessionFindByPeer_eq_some_iff.mp hfind
        rw [(h.inUse s).mp hvalid]
      · cases hfind
  · rw [h.findSole]

/-- A handshake for the one client tells which peer it is taken for. -/
theorem identify (h : t.Sole index a k) (cfg : AwgConfig) (initPeer : ℤ) (d : Bytes) :
    (s2cIdentify cfg t (homeSlot index) initPeer d).1.Sole index a
      (s2cPeer cfg k initPeer d) := by
  have hs : ∀ s, (s2cIdentify cfg t (homeSlot index) initPeer d).1.sessions s =
      if homeSlot index = s then { t.sessions s with peerSlot := s2cPeer cfg k initPeer d }
      else t.sessions s := by
    intro s
    rw [sessions_s2cIdentify, h.peer]
    dsimp only
    by_cases hself : homeSlot index = s
    · rw [if_pos hself, if_neg]
      rintro ⟨-, -, -, hne⟩
      rw [hself] at hne
      exact hne rfl
    · rw [if_neg hself, if_neg]
      rintro ⟨-, hv, -⟩
      exact hself ((h.inUse s).mp hv).symm
  refine ⟨fun s => ?_, ?_, ?_, ?_⟩
  · rw [hs]
    split
    · exact h.inUse s
    · exact h.inUse s
  · rw [hs, if_pos rfl]
    exact h.sender
  · rw [hs, if_pos rfl]
    exact h.addr
  · rw [hs, if_pos rfl]

end SessionTable.Sole

/-- A response for the one client. -/
theorem SessionTable.Sole.packet_response {p : Proxy} {i : ℕ} {d : Bytes} {index : UInt32}
    {a : CliAddr} {k : ℤ} (h : p.table.Sole index a k) (hmode : p.cfg.mode = .server)
    (hr : Receivable p i d) (hd : handshakeKind? d = some .response)
    (hidx : load32Le d 8 = index) :
    (p.packet i d).table.Sole index a (s2cPeer p.cfg k (-1) d) := by
  have hroute : s2cRoute p.cfg p.table d =
      ⟨sessionSetServerIndex p.table (some (homeSlot index)) (load32Le d 4),
        some (homeSlot index), -1⟩ := by
    rw [s2cRoute_response p.table hd, hidx, h.getEntry]
  rw [Proxy.table_packet_handshake hmode hr hd (s := homeSlot index) (by rw [hroute]), hroute]
  exact (h.setServerIndex _ _).identify p.cfg (-1) d

/-- An init for peer `k` is taken for the one client's, whichever peer it was known as. -/
theorem SessionTable.Sole.packet_init {p : Proxy} {i : ℕ} {d : Bytes} {index : UInt32}
    {a : CliAddr} {known : ℤ} {k : ℕ} (h : p.table.Sole index a known)
    (hmode : p.cfg.mode = .server) (hr : Receivable p i d)
    (hd : handshakeKind? d = some .init) (hk : VerifiesOnly p.cfg 116 d k) :
    (p.packet i d).table.Sole index a k := by
  have hk0 : (0 : ℤ) ≤ k := Int.natCast_nonneg k
  have hroute : s2cRoute p.cfg p.table d = ⟨p.table, some (homeSlot index), k⟩ := by
    rw [h.route_init p.cfg hd, configServerResolvePeerForInit_of_verifiesOnly hd hk]
  have hpeer := h.identify p.cfg k d
  rw [s2cPeer_init known hd hk0] at hpeer
  rw [Proxy.table_packet_handshake hmode hr hd (s := homeSlot index) (by rw [hroute]), hroute]
  exact hpeer

/-! ### A hub of two peers -/

/-- A handshake fits into every buffer. -/
theorem ServerRuns.receivable {p : Proxy} {i : ℕ} {d : Bytes} {k : HandshakeKind}
    (h : ServerRuns p) (hi : i < batchSize) (hd : handshakeKind? d = some k) :
    Receivable p i d := by
  have hlen := (handshakeKind?_eq_some_iff.mp hd).2
  have h4 := k.four_le_size
  have hsz := k.size_le
  have hmax := h.layout.maxS4_le
  have hbuf : (p.mem (.recv i)).length = 1500 + 256 := h.layout.bufs i hi
  refine ⟨hi, by omega, ?_⟩
  rw [Mem.Fits, hbuf]
  dsimp only
  omega

/-- A message with the sum over its `body` under `key`, and no second sum. -/
def signed (key body : Bytes) : Bytes :=
  body ++ (blake2s128mac key body ++ List.replicate 16 0)

theorem length_signed (key body : Bytes) : (signed key body).length = body.length + 32 := by
  simp only [signed, List.length_append, length_blake2s128mac, List.length_replicate]

theorem take_signed (key body : Bytes) : (signed key body).take body.length = body :=
  List.take_left

theorem slice_signed (key body : Bytes) :
    (signed key body).slice body.length 16 = blake2s128mac key body := by
  rw [Bytes.slice, signed, List.drop_left,
    List.take_left' (length_blake2s128mac key body)]

theorem load32Le_signed (key : Bytes) {body : Bytes} {i : ℕ} (h : i + 4 ≤ body.length) :
    load32Le (signed key body) i = load32Le body i := by
  rw [load32Le, load32Le, signed, Bytes.slice_append_left _ h]

/-- The keys of the peers 0 and 1. -/
def hubKey (k : ℕ) : Bytes :=
  List.replicate 32 (UInt8.ofNat k)

/-- A signed message names the peer when the other peer's sum differs. -/
theorem verifiesOnly_signed {cfg : AwgConfig} {body : Bytes} {off k : ℕ} (hk : k < 2)
    (hoff : body.length = off) (hcfg : cfg.serverPeerMac1keys = [hubKey 0, hubKey 1])
    (hne : blake2s128mac (hubKey 0) body ≠ blake2s128mac (hubKey 1) body) :
    VerifiesOnly cfg off (signed (hubKey k) body) k := by
  subst hoff
  refine ⟨by rw [hcfg]; exact hk, fun j key hj => ?_⟩
  rw [hcfg] at hj
  rw [take_signed, slice_signed]
  have hj2 : j < 2 := (List.getElem?_eq_some_iff.mp hj).1
  obtain rfl | rfl : j = 0 ∨ j = 1 := by omega
  · obtain rfl : hubKey 0 = key := Option.some.inj hj
    obtain rfl | rfl : k = 0 ∨ k = 1 := by omega
    · exact iff_of_true rfl rfl
    · exact iff_of_false hne (by decide)
  · obtain rfl : hubKey 1 = key := Option.some.inj hj
    obtain rfl | rfl : k = 0 ∨ k = 1 := by omega
    · exact iff_of_false hne.symm (by decide)
    · exact iff_of_true rfl rfl

/-- The init of session 9 up to its sum. -/
def initBody : Bytes :=
  Bytes.leBytes 4 1 ++ Bytes.leBytes 4 9 ++ List.replicate 108 0

/-- The response of session 7 to the client's session 5 up to its sum. -/
def responseBody : Bytes :=
  Bytes.leBytes 4 2 ++ Bytes.leBytes 4 7 ++ Bytes.leBytes 4 5 ++ List.replicate 48 0

/-- The init our WireGuard sends to peer `k`. -/
def initFor (k : ℕ) : Bytes :=
  signed (hubKey k) initBody

/-- The response our WireGuard sends to session 5 of peer `k`. -/
def responseFor (k : ℕ) : Bytes :=
  signed (hubKey k) responseBody

theorem handshakeKind?_initFor (k : ℕ) : handshakeKind? (initFor k) = some .init := by
  rw [handshakeKind?_eq_some_iff, initFor, length_signed, load32Le_signed _ (by decide)]
  exact ⟨by decide, by decide⟩

theorem handshakeKind?_responseFor (k : ℕ) :
    handshakeKind? (responseFor k) = some .response := by
  rw [handshakeKind?_eq_some_iff, responseFor, length_signed, load32Le_signed _ (by decide)]
  exact ⟨by decide, by decide⟩

theorem verifiesOnly_initFor {cfg : AwgConfig} {k : ℕ} (hk : k < 2)
    (hcfg : cfg.serverPeerMac1keys = [hubKey 0, hubKey 1]) :
    VerifiesOnly cfg 116 (initFor k) k :=
  verifiesOnly_signed hk (by decide) hcfg (by decide +kernel)

theorem verifiesOnly_responseFor {cfg : AwgConfig} {k : ℕ} (hk : k < 2)
    (hcfg : cfg.serverPeerMac1keys = [hubKey 0, hubKey 1]) :
    VerifiesOnly cfg 60 (responseFor k) k :=
  verifiesOnly_signed hk (by decide) hcfg (by decide +kernel)

/-- The hub, started and idle. -/
def hubProxy : Proxy :=
  Proxy.zeroed
    { responseConfig with
      toAwgProfile := plainProfile.toAwgProfile
      profiles := fun _ => plainProfile.toAwgProfile
      serverPeerMac1keys := [hubKey 0, hubKey 1] }
    fun
      | .recv _ => List.replicate 1756 0
      | .gro => []
      | .hsBuf => List.replicate 1500 0

theorem hubProxy_runs : ServerRuns hubProxy where
  layout :=
    { accepted := fun _ _ => ⟨plainProfile, rfl⟩
      count := by decide
      active := by decide
      entries := fun s => (hubProxy.table.sessions s).prof.isLt
      maxS4 := by decide
      bufs := fun _ _ => List.length_replicate
      hs := List.length_replicate }
  mode := rfl

/-- The hub after the init of its first client. -/
theorem hubProxy_clientInit (peer : ℕ) : ∃ p,
    serverMachine.run hubProxy [.clientInit peer 5 (.v4 1 1) 0] = some p ∧
      p.cfg = hubProxy.cfg ∧ ServerRuns p ∧ p.table.Sole 5 (.v4 1 1) (-1) := by
  have hrun : serverMachine.run hubProxy [.clientInit peer 5 (.v4 1 1) 0] =
      some { hubProxy with table := (sessionPutProf hubProxy.table 5 (.v4 1 1) 0).1 } := rfl
  exact ⟨_, hrun, rfl, hubProxy_runs.run hrun,
    SessionTable.Vacant.put (fun _ => rfl) 5 (.v4 1 1) 0⟩

end AwgProxy
