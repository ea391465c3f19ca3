import AwgProxy.Lib.Machine
import AwgProxy.Encoder
import AwgProxy.Proxy

/-!
# A Batch in Reverse and Server Mode

The s2c thread takes a batch of packets from the local WireGuard, each in a buffer of its
own, and queues references to what the encoder makes of them; the bytes are read when the
batch is sent. A handshake whose padding exceeds the headroom is built in the one `hs_buf`
of the thread, whatever the queue still refers to there.

* `processS2cPktReverse_frame` — a packet writes into its own buffer, and into `hs_buf`
  when it is built there (`buildsInHsBuf`).
* `queue_intact` — as long as no packet is built in `hs_buf` while the queue refers to it,
  every queued region keeps the bytes it was queued with to the end of the batch.
-/

namespace AwgProxy

/-- The bytes an entry of the send queue refers to. -/
def Proxy.bytes (p : Proxy) (e : SendEntry) : Bytes :=
  p.mem.read e.base e.len

/-- The profile a packet goes out in, `none` when it has no destination. -/
def s2cProfile (p : Proxy) (d : Bytes) : Option (Fin awgMaxProfiles) :=
  if p.cfg.mode = .server then
    if d.length < 4 then none
    else (s2cRoute p.cfg p.table d).entry.map fun s =>
      if p.cfg.profileCount > 1 then (p.table.sessions s).prof else p.cfg.activeProfile
  else if p.hasClient then some p.cfg.activeProfile
  else none

/-- The packet is built in `hs_buf`. -/
def buildsInHsBuf (p : Proxy) (headroom : ℕ) (d : Bytes) : Bool :=
  match s2cProfile p d with
  | some prof => usesHsBuf p.cfg (p.cfg.profiles prof) headroom d
  | none => false

/-! ### What a packet changes -/

/-- The table keeps the profile of every entry. -/
def SameProf (t t' : SessionTable) : Prop :=
  ∀ s, (t'.sessions s).prof = (t.sessions s).prof

/-- What processing the packet in buffer `b` may change: that buffer, `hs_buf` if the
packet is built there, and the end of the queue. -/
structure S2cFrame (p p' : Proxy) (b : PktBuf) (hs : Bool) : Prop where
  shape : p.mem.SameShape p'.mem
  mem : ∀ c, c ≠ b → (c = .hsBuf → hs = false) → p'.mem c = p.mem c
  queue : ∃ new, p'.queue = p.queue ++ new ∧
    ∀ e ∈ new, e.base.buf = if hs then .hsBuf else b
  cfg : ∃ w, p'.cfg = { p.cfg with udpWindow := w }
  prof : SameProf p.table p'.table

/-- Dropping, or doing nothing, stays inside every frame. -/
theorem S2cFrame.refl (p : Proxy) (b : PktBuf) (hs : Bool) : S2cFrame p p b hs where
  shape := .refl _
  mem _ _ _ := rfl
  queue := ⟨[], (List.append_nil _).symm, fun _ h => nomatch h⟩
  cfg := ⟨p.cfg.udpWindow, rfl⟩
  prof _ := rfl

/-- The routing of server mode leaves an index in an entry at most. -/
theorem exists_sessions_s2cRoute (cfg : AwgConfig) (t : SessionTable) (d : Bytes) (s : Slot) :
    ∃ sidx, (s2cRoute cfg t d).table.sessions s =
      { t.sessions s with serverIndex := sidx } := by
  have hself : ∃ sidx, t.sessions s = { t.sessions s with serverIndex := sidx } := ⟨_, rfl⟩
  have hset : ∀ entry v, ∃ sidx, (sessionSetServerIndex t entry v).sessions s =
      { t.sessions s with serverIndex := sidx } := by
    intro entry v
    rw [sessions_sessionSetServerIndex]
    split
    · exact ⟨v, rfl⟩
    · exact hself
  simp only [s2cRoute]
  split_ifs
  · exact hself
  · exact hset _ _
  · exact hself
  · split <;> exact hself
  · split <;> exact hself
  · exact hself

/-- The routing of server mode keeps the profiles. -/
theorem sameProf_s2cRoute (cfg : AwgConfig) (t : SessionTable) (d : Bytes) :
    SameProf t (s2cRoute cfg t d).table := by
  intro s
  obtain ⟨sidx, hs⟩ := exists_sessions_s2cRoute cfg t d s
  rw [hs]

theorem sameProf_sessionSetPeerSlot (t : SessionTable) (entry : Option Slot) (k : ℤ) :
    SameProf t (sessionSetPeerSlot t entry k) := by
  intro s
  rw [sessions_sessionSetPeerSlot]
  split <;> rfl

theorem sameProf_sessionDropMovedPeer (t : SessionTable) (k : ℤ) (cur : CliAddr) :
    SameProf t (sessionDropMovedPeer t k cur) := by
  intro s
  rw [sessions_sessionDropMovedPeer]
  split <;> rfl

theorem SameProf.trans {t t' t'' : SessionTable} (h : SameProf t t') (h' : SameProf t' t'') :
    SameProf t t'' :=
  fun s => (h' s).trans (h s)

/-- Transport data is rewritten in its own buffer. -/
theorem s2cPutHeader_eq {p : Proxy} {pkt : Ptr PktBuf} (prof : Fin awgMaxProfiles)
    (hf : p.mem.Fits pkt 4) :
    ∃ m ring idx rng, p.mem.ChangesBuf m pkt.buf ∧ s2cPutHeader p pkt prof =
      { p with mem := m, h4Ring := ring, h4Idx := idx, rng := rng } := by
  rw [s2cPutHeader]
  split
  · exact ⟨p.mem, p.h4Ring, p.h4Idx, p.rng, .refl _ _, rfl⟩
  · obtain ⟨ring, idx, rng, hpick⟩ := pickH4Prof_eq p prof
    dsimp only
    rw [hpick]
    exact ⟨_, ring, idx, rng, .write (by simpa using hf), rfl⟩

/-- The transport branch writes into the packet's own buffer and queues a part of it. -/
theorem s2cTransport_frame {p : Proxy} {pkt : Ptr PktBuf} {n headroom : ℕ}
    {prof : Fin awgMaxProfiles} (dest : CliAddr) (hf : p.mem.Fits pkt n) (hn : 32 ≤ n)
    (hh : headroom ≤ pkt.off) :
    S2cFrame p (s2cTransport p pkt n headroom prof dest) pkt.buf false := by
  obtain ⟨m, ring, idx, rng, hchg, hput⟩ := s2cPutHeader_eq prof (hf.mono (by omega : 4 ≤ n))
  have hframe : ∀ m' rngS2c w (base : Ptr PktBuf) len, m.ChangesBuf m' pkt.buf →
      base.buf = pkt.buf → S2cFrame p (({ p with
        mem := m', h4Ring := ring, h4Idx := idx, rng := rng, rngS2c := rngS2c
        cfg := awgWindowNote p.cfg w }).queueSend base len dest) pkt.buf false := by
    intro m' rngS2c w base len hm' hbase
    refine ⟨(hchg.trans hm').shape, fun c hc _ => (hchg.trans hm').other c hc,
      ⟨_, rfl, ?_⟩, awgWindowNote_eq _ _, fun _ => rfl⟩
    intro e he
    obtain rfl := List.mem_singleton.mp he
    exact hbase
  rw [s2cTransport]
  dsimp only
  rw [hput]
  by_cases hs : (p.cfg.profiles prof).s4 > 0 ∧ (headroom : ℤ) ≥ (p.cfg.profiles prof).s4
  · rw [if_pos hs]
    refine hframe _ _ _ _ _ ?_ rfl
    have hfm := hchg.shape.fits_iff.mpr hf
    -- the padding stands between the start of the buffer and the packet
    have hfp : m.Fits (pkt.sub (p.cfg.profiles prof).s4.toNat)
        (fastrandFill p.rngS2c (p.cfg.profiles prof).s4.toNat).1.length := by
      simp only [Mem.Fits, length_fastrandFill, Ptr.sub_buf, Ptr.sub_off] at hfm ⊢
      omega
    have hpad := Mem.ChangesBuf.write hfp
    split
    · refine hpad.trans (Mem.ChangesBuf.write ?_)
      have hfx := hpad.shape.fits_iff.mpr (hfm.mono (by omega : 16 ≤ n))
      rwa [length_chacha20Xor, Mem.length_read hfx]
    · exact hpad
  · rw [if_neg hs]
    exact hframe _ _ _ _ _ (.refl _ _) rfl

/-- What goes through the encoder is built in its own buffer or in `hs_buf`. -/
theorem s2cTransform_frame {p : Proxy} {base : Ptr PktBuf} {n headroom : ℕ}
    {prof : Fin awgMaxProfiles} (key : Option Bytes) (dest : CliAddr)
    (L : PktLayout p.mem (base.add headroom) headroom n) (hv : (p.cfg.profiles prof).Valid) :
    S2cFrame p (s2cTransform p base n headroom prof key dest) base.buf
      (usesHsBuf p.cfg (p.cfg.profiles prof) headroom (p.mem.read (base.add headroom) n)) := by
  obtain ⟨hshape, hmem, hout⟩ := transformOutboundProfile_frame key (fastrandU64 p.rngS2c) L hv rfl
  rw [s2cTransform]
  dsimp only
  generalize transformOutboundProfile p.mem base headroom n p.cfg (p.cfg.profiles prof) key
    (fastrandU64 p.rngS2c) = r at hshape hmem hout ⊢
  have hcfg : ∃ w, p.cfg = { p.cfg with udpWindow := w } := ⟨p.cfg.udpWindow, rfl⟩
  rcases ho : r.out with _ | out
  · exact ⟨hshape, hmem, ⟨[], (List.append_nil _).symm, fun _ h => nomatch h⟩, hcfg,
      fun _ => rfl⟩
  · dsimp only
    split
    · exact ⟨hshape, hmem, ⟨[], (List.append_nil _).symm, fun _ h => nomatch h⟩, hcfg,
        fun _ => rfl⟩
    · refine ⟨hshape, hmem, ⟨[⟨out, r.outLen, dest⟩], rfl, ?_⟩, hcfg, fun _ => rfl⟩
      intro e he
      obtain rfl := List.mem_singleton.mp he
      exact hout out ho

/-- The handshake step of server mode keeps the profiles. -/
theorem sameProf_s2cIdentify (cfg : AwgConfig) (t : SessionTable) (s : Slot) (initPeer : ℤ)
    (d : Bytes) : SameProf t (s2cIdentify cfg t s initPeer d).1 := by
  rw [s2cIdentify_eq]
  exact (sameProf_sessionSetPeerSlot _ _ _).trans (sameProf_sessionDropMovedPeer _ _ _)

/-- A frame after a change of the table that keeps the profiles. -/
theorem S2cFrame.of_table {p p' : Proxy} {b : PktBuf} {hs : Bool} {t : SessionTable}
    (h : S2cFrame { p with table := t } p' b hs) (ht : SameProf p.table t) :
    S2cFrame p p' b hs :=
  ⟨h.shape, h.mem, h.queue, h.cfg, ht.trans h.prof⟩

/-! ### One packet of the batch -/

/-- `s2c_buflen`: what a receive buffer takes behind the headroom. -/
def s2cBuflen (cfg : AwgConfig) : ℕ :=
  awgPacketBufSize + awgPacketHeadroom - cfg.maxS4

/-- The thread as it runs: a chain of accepted profiles with their largest `s4`, the
profiles of the table among them, and its buffers. -/
structure S2cLayout (p : Proxy) : Prop where
  accepted : ∀ i : Fin awgMaxProfiles, (i : ℕ) < p.cfg.profileCount →
    ∃ pr : AcceptedProfile, p.cfg.profiles i = pr.toAwgProfile
  count : 0 < p.cfg.profileCount
  active : (p.cfg.activeProfile : ℕ) < p.cfg.profileCount
  entries : ∀ s, ((p.table.sessions s).prof : ℕ) < p.cfg.profileCount
  maxS4 : p.cfg.maxS4 = (configComputeMaxS4 p.cfg).maxS4
  bufs : ∀ i, i < batchSize → (p.mem (.recv i)).length = awgPacketBufSize + awgPacketHeadroom
  hs : (p.mem .hsBuf).length = awgPacketBufSize

namespace S2cLayout

variable {p p' : Proxy} {i n : ℕ}

theorem valid (h : S2cLayout p) {prof : Fin awgMaxProfiles} (hp : (prof : ℕ) < p.cfg.profileCount) :
    (p.cfg.profiles prof).Valid := by
  obtain ⟨pr, hpr⟩ := h.accepted prof hp
  rw [hpr]
  exact pr.valid

theorem maxS4_le (h : S2cLayout p) : p.cfg.maxS4 ≤ 256 := by
  rw [h.maxS4]
  exact maxS4_configComputeMaxS4_le h.count fun i hi => h.valid hi

/-- A received packet stands behind the headroom of its buffer. -/
theorem pktLayout (h : S2cLayout p) (hi : i < batchSize) (hn : n ≤ s2cBuflen p.cfg) :
    PktLayout p.mem ((⟨.recv i, 0⟩ : Ptr PktBuf).add p.cfg.maxS4) p.cfg.maxS4 n := by
  have hlen := h.bufs i hi
  have hmax := h.maxS4_le
  rw [s2cBuflen] at hn
  simp only [awgPacketBufSize, awgPacketHeadroom] at hlen hn
  exact .recv (by omega) (by omega) h.hs

/-- A packet leaves the thread as it runs. -/
theorem of_frame (h : S2cLayout p) {b : PktBuf} {hs : Bool} (hf : S2cFrame p p' b hs) :
    S2cLayout p' := by
  obtain ⟨w, hw⟩ := hf.cfg
  refine ⟨?_, ?_, ?_, fun s => ?_, ?_, fun i hi => ?_, ?_⟩
  · rw [hw]
    exact h.accepted
  · rw [hw]
    exact h.count
  · rw [hw]
    exact h.active
  · rw [hf.prof s, hw]
    exact h.entries s
  · rw [hw]
    exact h.maxS4
  · rw [hf.shape]
    exact h.bufs i hi
  · rw [hf.shape]
    exact h.hs

end S2cLayout

/-- The destination's profile is one of the chain. -/
theorem s2cProfile_lt {p : Proxy} (h : S2cLayout p) {d : Bytes} {prof : Fin awgMaxProfiles}
    (hprof : s2cProfile p d = some prof) : (prof : ℕ) < p.cfg.profileCount := by
  rw [s2cProfile] at hprof
  split_ifs at hprof
  · obtain ⟨s, -, rfl⟩ := Option.map_eq_some_iff.mp hprof
    exact h.entries s
  · obtain ⟨s, -, rfl⟩ := Option.map_eq_some_iff.mp hprof
    exact h.active
  · obtain rfl := Option.some.inj hprof
    exact h.active

/-- Transport data is never built in `hs_buf`. -/
theorem buildsInHsBuf_of_transport (p : Proxy) (headroom : ℕ) {d : Bytes}
    (h : load32Le d 0 = wgTransportData) : buildsInHsBuf p headroom d = false := by
  have hno : handshakeKind? d = none := by
    rcases hk : handshakeKind? d with _ | k
    · rfl
    · exact absurd ((handshakeKind?_eq_some_iff.mp hk).1.symm.trans h) k.type_ne_transport
  rw [buildsInHsBuf]
  split
  · rw [usesHsBuf, hno]
  · rfl

/-- **The frame of a packet.** It changes its own buffer and, when it is built there,
`hs_buf`; what it queues lies where it was built. -/
theorem processS2cPktReverse_frame {p : Proxy} {i n : ℕ} (h : S2cLayout p)
    (hi : i < batchSize) (hn : n ≤ s2cBuflen p.cfg) :
    S2cFrame p (processS2cPktReverse p ⟨.recv i, 0⟩ n p.cfg.maxS4) (.recv i)
      (buildsInHsBuf p p.cfg.maxS4
        (p.mem.read ((⟨.recv i, 0⟩ : Ptr PktBuf).add p.cfg.maxS4) n)) := by
  have L := h.pktLayout hi hn
  have hlen := Mem.length_read L.fits
  rw [processS2cPktReverse]
  dsimp only
  generalize hd : p.mem.read ((⟨.recv i, 0⟩ : Ptr PktBuf).add p.cfg.maxS4) n = d at hlen ⊢
  -- the packet goes to `dest` in profile `prof`, once `t` knows what it told
  have hsend : ∀ (t : SessionTable) (prof : Fin awgMaxProfiles) key dest, SameProf p.table t →
      s2cProfile p d = some prof → S2cFrame p
        (s2cTransform { p with table := t } ⟨.recv i, 0⟩ n p.cfg.maxS4 prof key dest)
        (.recv i) (buildsInHsBuf p p.cfg.maxS4 d) := by
    intro t prof key dest ht hprof
    have hframe := s2cTransform_frame (p := { p with table := t }) key dest L
      (h.valid (s2cProfile_lt h hprof))
    rw [hd] at hframe
    rw [buildsInHsBuf, hprof]
    exact hframe.of_table ht
  have htransport : ∀ (t : SessionTable) (prof : Fin awgMaxProfiles) dest, SameProf p.table t →
      n ≥ wgTransportMin ∧ load32Le d 0 = wgTransportData → S2cFrame p
        (s2cTransport { p with table := t } ((⟨.recv i, 0⟩ : Ptr PktBuf).add p.cfg.maxS4) n
          p.cfg.maxS4 prof dest) (.recv i) (buildsInHsBuf p p.cfg.maxS4 d) := by
    rintro t prof dest ht ⟨h32, htype⟩
    rw [buildsInHsBuf_of_transport p _ htype]
    exact (s2cTransport_frame (p := { p with table := t }) dest L.fits h32 L.headroom).of_table ht
  by_cases hmode : p.cfg.mode = .server
  · rw [if_pos hmode]
    by_cases h4 : n < 4
    · rw [if_pos h4]
      exact .refl _ _ _
    · rw [if_neg h4]
      have hroute := sameProf_s2cRoute p.cfg p.table d
      rcases hentry : (s2cRoute p.cfg p.table d).entry with _ | s
      · exact (S2cFrame.refl _ _ _).of_table hroute
      · dsimp only
        by_cases ht : n ≥ wgTransportMin ∧ load32Le d 0 = wgTransportData
        · rw [if_pos ht]
          exact htransport _ _ _ hroute ht
        · rw [if_neg ht]
          refine hsend _ _ _ _ (hroute.trans (sameProf_s2cIdentify _ _ _ _ _)) ?_
          rw [s2cProfile, if_pos hmode, if_neg (by omega), hentry, Option.map_some, hroute s]
  · rw [if_neg hmode]
    cases hclient : p.hasClient with
    | false => exact .refl _ _ _
    | true =>
        rw [Bool.not_true, if_neg Bool.false_ne_true]
        by_cases ht : n ≥ wgTransportMin ∧ load32Le d 0 = wgTransportData
        · rw [if_pos ht]
          exact htransport p.table _ _ (fun _ => rfl) ht
        · rw [if_neg ht]
          refine hsend p.table _ _ _ (fun _ => rfl) ?_
          rw [s2cProfile, if_neg hmode, hclient, if_pos rfl]

/-! ### The batch -/

/-- The loop of `s2c_thread` over a batch: packet after packet, each in the next buffer. An
event is the length of a packet, which the buffers bound. -/
def s2cBatchMachine : Machine (Proxy × ℕ) ℕ where
  step q n :=
    if q.2 < batchSize ∧ n ≤ s2cBuflen q.1.cfg then
      some (if n = 0 then q.1 else processS2cPktReverse q.1 ⟨.recv q.2, 0⟩ n q.1.cfg.maxS4,
        q.2 + 1)
    else none

/-- The bytes each entry of the queue was queued with. -/
def queuedBytes (q : Proxy × ℕ) (_ : ℕ) (q' : Proxy × ℕ) (seen : List Bytes) : List Bytes :=
  seen ++ (q'.1.queue.drop q.1.queue.length).map q'.1.bytes

/-- The batch beside that history. -/
def s2cBatchGhost : Machine ((Proxy × ℕ) × List Bytes) ℕ :=
  s2cBatchMachine.ghost queuedBytes

/-- The packet is not built in `hs_buf` while the queue refers to it. -/
def HsBufFree (q : Proxy × ℕ) (n : ℕ) : Prop :=
  n ≠ 0 → buildsInHsBuf q.1 q.1.cfg.maxS4
      (q.1.mem.read ((⟨.recv q.2, 0⟩ : Ptr PktBuf).add q.1.cfg.maxS4) n) = true →
    ∀ e ∈ q.1.queue, e.base.buf ≠ .hsBuf

/-- The invariant of the batch: every queued region holds the bytes it was queued with,
and lies in `hs_buf` or in the buffer of an earlier packet. -/
structure BatchInv (q : (Proxy × ℕ) × List Bytes) : Prop where
  layout : S2cLayout q.1.1
  intact : q.1.1.queue.map q.1.1.bytes = q.2
  bufs : ∀ e ∈ q.1.1.queue, e.base.buf = .hsBuf ∨ ∃ j, j < q.1.2 ∧ e.base.buf = .recv j

/-- **One packet** keeps the invariant. -/
theorem BatchInv.step {q q' : (Proxy × ℕ) × List Bytes} {n : ℕ} (h : BatchInv q)
    (hfree : HsBufFree q.1 n) (hstep : s2cBatchGhost.step q n = some q') : BatchInv q' := by
  obtain ⟨⟨p, i⟩, seen⟩ := q
  obtain ⟨⟨p', i'⟩, seen'⟩ := q'
  obtain ⟨hmach, hseen⟩ := Machine.step_ghost_eq_some.mp hstep
  simp only [s2cBatchMachine] at hmach
  split at hmach
  swap
  · contradiction
  rename_i hen
  obtain ⟨hi, hn⟩ := hen
  simp only [Option.some.injEq, Prod.mk.injEq] at hmach
  obtain ⟨hp', rfl⟩ := hmach
  dsimp only at hseen hfree
  obtain ⟨hs, hframe, hhs⟩ : ∃ hs, S2cFrame p p' (.recv i) hs ∧
      (hs = true → ∀ e ∈ p.queue, e.base.buf ≠ .hsBuf) := by
    by_cases h0 : n = 0
    · rw [if_pos h0] at hp'
      exact ⟨false, hp' ▸ S2cFrame.refl p _ _, fun hs => nomatch hs⟩
    · rw [if_neg h0] at hp'
      exact ⟨_, hp' ▸ processS2cPktReverse_frame h.layout hi hn, hfree h0⟩
  obtain ⟨new, hqueue, hnew⟩ := hframe.queue
  -- a region queued earlier lies in a buffer this packet does not write
  have hold : ∀ e ∈ p.queue, p'.bytes e = p.bytes e := by
    intro e he
    refine Mem.read_congr (hframe.mem _ ?_ fun hbuf => ?_) _
    · rcases h.bufs e he with hbuf | ⟨j, hj, hbuf⟩
      · rw [hbuf]
        intro hc
        contradiction
      · rw [hbuf]
        intro hc
        rw [PktBuf.recv.injEq] at hc
        dsimp only at hj
        omega
    · by_contra hs'
      exact hhs (by simpa using hs') e he hbuf
  refine ⟨h.layout.of_frame hframe, ?_, ?_⟩
  · dsimp only
    rw [hseen, queuedBytes, hqueue, List.drop_left, List.map_append, List.map_congr_left hold,
      h.intact]
  · intro e he
    dsimp only at he ⊢
    rw [hqueue, List.mem_append] at he
    rcases he with he | he
    · rcases h.bufs e he with hbuf | ⟨j, hj, hbuf⟩
      · exact Or.inl hbuf
      · exact Or.inr ⟨j, by dsimp only at hj; omega, hbuf⟩
    · rw [hnew e he]
      cases hs with
      | true => exact Or.inl rfl
      | false => exact Or.inr ⟨i, by omega, rfl⟩

/-- **A batch.** When no packet is built in `hs_buf` while the queue refers to it, every
entry of the queue refers to the bytes it was queued with, at every point of the batch and
when it is sent. -/
theorem queue_intact {p : Proxy} {ns : List ℕ} {q : Proxy × ℕ} {seen : List Bytes}
    (h : S2cLayout p) (hempty : p.queue = []) (hfree : s2cBatchMachine.Meets HsBufFree (p, 0) ns)
    (hrun : s2cBatchGhost.run ((p, 0), []) ns = some (q, seen)) :
    q.1.queue.map q.1.bytes = seen := by
  have h0 : BatchInv ((p, 0), []) := by
    refine ⟨h, ?_, ?_⟩
    · dsimp only
      rw [hempty, List.map_nil]
    · dsimp only
      rw [hempty]
      exact fun _ he => nomatch he
  have hstep : ∀ q n q', BatchInv q → HsBufFree q.1 n → s2cBatchGhost.step q n = some q' →
      BatchInv q' :=
    fun _ _ _ hq hn hs => hq.step hn hs
  exact (Machine.guarded_induction hstep h0 (hfree.ghost queuedBytes []) hrun).intact

/-! ### Two responses in one batch -/

/-- A profile with padded responses and no padding of transport data, thus no headroom. -/
def responseProfile : AcceptedProfile :=
  AcceptedProfile.ofValidated
    { s1 := 0, s2 := 20, s3 := 0, s4 := 0
      h1 := .single 1, h2 := .single 2, h3 := .single 3, h4 := .single 4
      cps := fun _ => none, hpOn := false, rt := false, h4Fixed := 0, h4Noop := false
      initTotal := 0, respTotal := 0, cookieTotal := 0, transportSizeAmbiguous := false }
    (by decide)

/-- A server's configuration of that profile. -/
def responseConfig : AwgConfig where
  toAwgProfile := responseProfile.toAwgProfile
  mode := .server
  jc := 0
  jmin := 0
  jmax := 0
  serverPeerMac1keys := []
  hpKey := []
  rtAny := false
  disableCookies := false
  udpWindow := 500
  mac1keyOut := none
  mac1keyIn := none
  profiles := fun _ => responseProfile.toAwgProfile
  profileCount := 4
  activeProfile := 0
  maxS4 := 0

/-- The response of session 7 to a client's session. -/
def responseTo (index : ℕ) : Bytes :=
  Bytes.leBytes 4 2 ++ Bytes.leBytes 4 7 ++ Bytes.leBytes 4 index ++ List.replicate 80 0

/-- The thread of a server with the clients of the sessions 1 and 2, and a response to each
of them in its first two buffers. -/
def responseProxy : Proxy :=
  { Proxy.zeroed responseConfig fun
      | .recv i => responseTo (i + 1) ++ List.replicate 1664 0
      | .gro => []
      | .hsBuf => List.replicate 1500 0 with
    table := (sessionPutProf (sessionPutProf .empty 1 (.v4 1 1) 0).1 2 (.v4 2 2) 0).1
    rngS2c := 1 }

/-- Transport data of 32 bytes for the client's session. -/
def transportTo (index : ℕ) : Bytes :=
  Bytes.leBytes 4 4 ++ Bytes.leBytes 4 index ++ List.replicate 24 0

/-- That server with transport data around one response. -/
def mixedProxy : Proxy :=
  { responseProxy with
    mem := fun
      | .recv 1 => responseTo 2 ++ List.replicate 1664 0
      | .recv _ => transportTo 1 ++ List.replicate 1724 0
      | .gro => []
      | .hsBuf => List.replicate 1500 0 }

theorem mixedProxy_layout : S2cLayout mixedProxy where
  accepted _ _ := ⟨responseProfile, rfl⟩
  count := by decide
  active := by decide
  entries s := (mixedProxy.table.sessions s).prof.isLt
  maxS4 := by decide
  bufs i _ := by
    rcases i with _ | _ | i <;>
      simp only [mixedProxy, responseTo, transportTo, List.length_append, Bytes.length_leBytes,
        List.length_replicate] <;> rfl
  hs := List.length_replicate

instance (q : Proxy × ℕ) (n : ℕ) : Decidable (HsBufFree q n) :=
  inferInstanceAs (Decidable (_ → _ → _))

/-- A response goes out as it was encoded, and so does the transport data ahead of it and behind
it. -/
theorem queue_intact_response : ∃ q seen,
    s2cBatchGhost.run ((mixedProxy, 0), []) [32, 92, 32] = some (q, seen) ∧
      q.1.queue.map (·.base.buf) = [.recv 0, .hsBuf, .recv 2] ∧
      q.1.queue.map q.1.bytes = seen := by
  have hbufs : ((s2cBatchGhost.run ((mixedProxy, 0), []) [32, 92, 32]).map
      fun q => q.1.1.queue.map (·.base.buf)) = some [.recv 0, .hsBuf, .recv 2] := by
    decide +kernel
  have hfree : s2cBatchMachine.Meets HsBufFree (mixedProxy, 0) [32, 92, 32] :=
    Machine.meets_of_guarded (by decide +kernel)
  obtain ⟨⟨q, seen⟩, hrun, hbuf⟩ := Option.map_eq_some_iff.mp hbufs
  exact ⟨q, seen, hrun, hbuf, queue_intact mixedProxy_layout rfl hfree hrun⟩

/-- Two responses in a batch are both built in `hs_buf`: the first client is sent what was
encoded for the second. -/
theorem not_queue_intact_responses : ∃ q seen,
    s2cBatchGhost.run ((responseProxy, 0), []) [92, 92] = some (q, seen) ∧
      q.1.queue.map SendEntry.addr = [.v4 1 1, .v4 2 2] ∧
      q.1.queue.map q.1.bytes ≠ seen ∧ (q.1.queue.map q.1.bytes)[0]? = seen[1]? := by
  have hbad : ((s2cBatchGhost.run ((responseProxy, 0), []) [92, 92]).map fun q =>
      decide (q.1.1.queue.map SendEntry.addr = [.v4 1 1, .v4 2 2] ∧
        q.1.1.queue.map q.1.1.bytes ≠ q.2 ∧ (q.1.1.queue.map q.1.1.bytes)[0]? = q.2[1]?)) =
      some true := by
    decide
  obtain ⟨⟨q, seen⟩, hrun, hq⟩ := Option.map_eq_some_iff.mp hbad
  exact ⟨q, seen, hrun, of_decide_eq_true hq⟩

end AwgProxy
