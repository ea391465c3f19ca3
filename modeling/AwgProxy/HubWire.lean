import AwgProxy.Collisions
import AwgProxy.Senders

/-!
# Datagrams at a Hub

A hub in server mode takes the datagrams of many clients, each at a stage of its own, and
answers each where it is and in its stage. What it knows of them is in the session table: the
c2s thread records the senders of handshakes and follows the sessions of transport data, and
the s2c thread routes by it.

* `arrives_of_carries` — a client's message is handed on whatever stage was expected from its
  address, and the table has heard it (`Hears`).
* `arrives_of_noise` — what no stage finds anything in leaves no trace.
* `goesTo_gives_of_server` — a message of the local WireGuard goes out to its entry, in its
  stage and under its key, or has none and is dropped.
-/

namespace AwgProxy

/-! ### What comes back of a message -/

/-- A message comes back as the kind of message it is. -/
theorem ComesBack.handshakeKind?_eq {inKey outKey : Option Bytes} {pr : AwgProfile}
    {d d' : Bytes} (h : ComesBack inKey outKey pr d d') : handshakeKind? d' = handshakeKind? d := by
  obtain ⟨hlen, hty⟩ := h.length_eq
  rw [handshakeKind?, handshakeKind?, hlen, hty]

/-- A message comes back with its indices: the sum stands behind them. -/
theorem ComesBack.load32Le_eq {inKey outKey : Option Bytes} {pr : AwgProfile} {d d' : Bytes}
    (h : ComesBack inKey outKey pr d d') {i : ℕ} (hi : i ≤ 8) : load32Le d' i = load32Le d i := by
  have hpatch : ∀ {off : ℕ} (x : Bytes), 12 ≤ off → off ≤ d.length →
      load32Le (d.patch off x) i = load32Le d i := by
    intro off x h12 hoff
    rw [load32Le, load32Le, Bytes.slice_patch_of_disjoint hoff (Or.inl (by omega))]
  have hmac : ∀ {off : ℕ} (hdr : UInt32), 12 ≤ off → off ≤ d.length →
      load32Le (returnedMac1 off inKey outKey hdr d) i = load32Le d i := by
    intro off hdr h12 hoff
    cases inKey with
    | some key => exact hpatch _ h12 hoff
    | none =>
        cases outKey with
        | some key => exact hpatch _ h12 hoff
        | none => rfl
  obtain ⟨randVal, rfl⟩ := h
  rw [returned]
  rcases hk : handshakeKind? d with _ | k
  · rfl
  · obtain ⟨-, hsz⟩ := handshakeKind?_eq_some_iff.mp hk
    cases k with
    | init => exact hmac _ (by decide) (by rw [hsz]; decide)
    | response => exact hmac _ (by decide) (by rw [hsz]; decide)
    | cookie => rfl

/-! ### The table and a message of a client -/

/-- A little-endian word of eight bytes in a message. -/
def load64Le (d : Bytes) (i : ℕ) : UInt64 :=
  UInt64.ofNat (Bytes.leNat (d.slice i 8))

/-- The table once the message `d` from `src` has been decoded under stage `k`: the sender of an
init or a response is recorded, a response with the session of our WireGuard it answers. -/
def recordMessage (t : SessionTable) (src : CliAddr) (k : Fin awgMaxProfiles) (d : Bytes) :
    SessionTable :=
  match handshakeKind? d with
  | some .init => (sessionPutProf t (load32Le d 4) src k).1
  | some .response =>
      let put := sessionPutProf t (load32Le d 4) src k
      sessionSetServerIndex put.1 (some put.2) (load32Le d 8)
  | some .cookie | none => t

/-- The table `t'` has heard the message `d` from `src`: it is recorded, or its session
follows. -/
def Hears (t : SessionTable) (src : CliAddr) (k : Fin awgMaxProfiles) (d : Bytes)
    (t' : SessionTable) : Prop :=
  t' = recordMessage t src k d ∨
    IsTransport d ∧ t' = (sessionFollowClient t (load32Le d 4) src (load64Le d 8)).1

/-- A message is heard as it comes back. -/
theorem Hears.of_comesBack {t t' : SessionTable} {src : CliAddr} {k : Fin awgMaxProfiles}
    {inKey outKey : Option Bytes} {pr : AwgProfile} {d d' : Bytes} (h : Hears t src k d' t')
    (hback : ComesBack inKey outKey pr d d') : Hears t src k d t' := by
  have hrecord : recordMessage t src k d' = recordMessage t src k d := by
    rw [recordMessage, recordMessage, hback.handshakeKind?_eq,
      hback.load32Le_eq (by decide : 4 ≤ 8), hback.load32Le_eq (le_refl 8)]
  rcases h with h | ⟨ht, h⟩
  · exact Or.inl (h.trans hrecord)
  · -- transport data comes back as it is
    have hd : d' = d := by
      obtain ⟨randVal, hd'⟩ := hback
      have hk := ht.handshakeKind?_eq_none
      rw [ComesBack.handshakeKind?_eq ⟨randVal, hd'⟩] at hk
      rw [hd', returned, hk]
    rw [hd] at ht h
    exact Or.inr ⟨ht, h⟩

section

variable {p : C2sProxy} {src : CliAddr} {pkt : Ptr PktBuf} {n : ℕ}

/-- The stage remembered for an address is the one it is given. -/
theorem profileRemember_cases (p : C2sProxy) (a : CliAddr) (k : Fin awgMaxProfiles)
    (i : Fin profCacheSize) : (profileRemember p a k).profCache i = p.profCache i ∨
      ((profileRemember p a k).profCache i).prof = k := by
  rw [profileRemember]
  dsimp only
  by_cases hi : i = profCacheSlot (profCacheKey a)
  · rw [hi, Function.update_self]
    exact Or.inr rfl
  · rw [Function.update_of_ne hi]
    exact Or.inl rfl

/-- Recording touches the table and the stage remembered for the source. -/
theorem c2sRecord_eq (p : C2sProxy) (src : CliAddr) (out : Ptr PktBuf) (len : ℕ)
    (k : Fin awgMaxProfiles) :
    ∃ t cache, c2sRecord p src out len k = { p with table := t, profCache := cache } ∧
      ∀ i, cache i = p.profCache i ∨ (cache i).prof = k := by
  rw [c2sRecord]
  split
  · exact ⟨p.table, p.profCache, rfl, fun i => Or.inl rfl⟩
  · dsimp only
    split
    · exact ⟨_, _, rfl, profileRemember_cases _ src k⟩
    · exact ⟨_, p.profCache, rfl, fun i => Or.inl rfl⟩

/-- The message at `out` is recorded. -/
theorem table_c2sRecord_eq (src : CliAddr) {out : Ptr PktBuf} {len : ℕ} {d : Bytes}
    (k : Fin awgMaxProfiles) (hread : p.mem.read out len = d) (hlen : d.length = len)
    (hd : IsWireGuard d) :
    (c2sRecord p src out len k).table = recordMessage p.table src k d := by
  rw [recordMessage]
  rcases hk : handshakeKind? d with _ | kind
  · have ht := isTransport_of_isWireGuard hd hk
    have h32 : 32 ≤ d.length := ht.1
    rw [c2sRecord_of_transport src len k]
    rw [read32Le_eq p.mem out (by omega : 4 ≤ len), hread]
    exact ht.2
  · obtain ⟨hty, hsz⟩ := handshakeKind?_eq_some_iff.mp hk
    have h12 : 12 ≤ len := by
      rw [← hlen, hsz]
      cases kind <;> decide
    have hword : ∀ i, i ≤ 8 → read32Le p.mem (out.add i) = load32Le d i := by
      intro i hi
      rw [read32Le_add p.mem out (by omega : i + 4 ≤ len), hread]
    have htype : read32Le p.mem out = kind.type := by
      rw [read32Le_eq p.mem out (by omega : 4 ≤ len), hread, hty]
    have hidx : kind ≠ .cookie → recordedIndex p.mem out len = some (load32Le d 4) := by
      intro hne
      rw [recordedIndex, htype, hword 4 (by decide), ← hlen, hsz]
      refine if_pos ?_
      cases kind with
      | init => exact Or.inl ⟨rfl, rfl⟩
      | response => exact Or.inr ⟨rfl, rfl⟩
      | cookie => exact absurd rfl hne
    have htable : kind ≠ .cookie → (c2sRecord p src out len k).table =
        if kind.type = wgHandshakeResponse then
          sessionSetServerIndex (sessionPutProf p.table (load32Le d 4) src k).1
            (some (sessionPutProf p.table (load32Le d 4) src k).2) (load32Le d 8)
        else (sessionPutProf p.table (load32Le d 4) src k).1 := by
      intro hne
      rw [c2sRecord, hidx hne, ← htype, ← hword 8 (le_refl 8)]
      dsimp only
      split
      · rfl
      · rfl
    cases kind with
    | init => exact (htable (by decide)).trans (if_neg fun h => wgHandshakeResponse_ne h.symm)
    | response => exact (htable (by decide)).trans (if_pos rfl)
    | cookie =>
        obtain ⟨h13, h23⟩ := wgCookieReply_ne
        have hnone : recordedIndex p.mem out len = none := by
          rw [recordedIndex, htype]
          exact if_neg fun h => h.elim (fun h => h13 h.1) fun h => h23 h.1
        rw [c2sRecord, hnone]

/-! ### The c2s thread in server mode -/

/-- **The slow path in server mode** drops what no stage decodes, and queues and records what one
does. -/
theorem c2sSlowPath_of_server (hmode : p.cfg.mode = .server)
    (hfamily : src.family = p.listenFamily) {prof : Fin awgMaxProfiles} {ks : Option Bytes}
    {r : Fin awgMaxProfiles × InboundResult} (hr : c2sDecode p.mem pkt n p.cfg prof ks = r) :
    r.2.out = none ∧ c2sSlowPath p src pkt n prof ks = { p with mem := r.2.mem } ∨
      ∃ out len t cache, r.2.out = some (out, len) ∧
        c2sSlowPath p src pkt n prof ks =
          { p with
            mem := r.2.mem, table := t, profCache := cache, queue := p.queue ++ [(out, len)] } ∧
        (∀ i, cache i = p.profCache i ∨ (cache i).prof = r.1) ∧
        ∀ d, r.2.mem.read out len = d → d.length = len → IsWireGuard d →
          t = recordMessage p.table src r.1 d := by
  rw [c2sSlowPath, hr]
  dsimp only
  rcases r.2.out with _ | ⟨out, len⟩
  · exact Or.inl ⟨rfl, rfl⟩
  · right
    -- an adopted stage is remembered for the source
    obtain ⟨cache, hadopt, hcache⟩ : ∃ cache, (if r.1 = prof then { p with mem := r.2.mem }
          else c2sAdopt { p with mem := r.2.mem } src r.1) =
        { p with mem := r.2.mem, profCache := cache } ∧
          ∀ i, cache i = p.profCache i ∨ (cache i).prof = r.1 := by
      split
      · exact ⟨p.profCache, rfl, fun i => Or.inl rfl⟩
      · rw [c2sAdopt, if_pos hmode]
        exact ⟨_, rfl, profileRemember_cases _ src r.1⟩
    dsimp only
    rw [hadopt, if_pos ⟨hmode, hfamily⟩]
    obtain ⟨t, cache', hrecord, hcache'⟩ :=
      c2sRecord_eq { p with mem := r.2.mem, profCache := cache } src out len r.1
    refine ⟨out, len, t, cache', rfl, by rw [hrecord]; rfl, fun i => ?_,
      fun d hread hlen hd => ?_⟩
    · rcases hcache' i with hi | hi
      · rw [hi]
        exact hcache i
      · exact Or.inr hi
    · have htable := table_c2sRecord_eq (p := { p with mem := r.2.mem, profCache := cache }) src
        r.1 hread hlen hd
      rw [hrecord] at htable
      exact htable

/-- **The fast path in server mode** queues transport data, and its session follows. -/
theorem c2sFastPath_of_server (hmode : p.cfg.mode = .server)
    (hfamily : src.family = p.listenFamily) (hf : p.mem.Fits pkt n) (hqueue : p.queue = [])
    {pr : AcceptedProfile} (hfast : takesFastPath p pkt n pr.toAwgProfile = true) :
    ∃ m win q d, c2sFastPath p src pkt n pr.toAwgProfile =
        { p with
          mem := m, queue := [q], cfg := { p.cfg with udpWindow := win }
          table := (sessionFollowClient p.table (load32Le d 4) src (load64Le d 8)).1 } ∧
      p.mem.SameShape m ∧ m.read q.1 q.2 = d ∧ IsTransport d := by
  obtain ⟨h32, htype⟩ := read32Le_c2sFastPath src hf hfast
  obtain ⟨-, -, hmem⟩ := c2sFastPath_queue p src pkt n pr.toAwgProfile
  have hlen : 32 ≤ n - pr.s4.toNat := h32
  have hdata : p.mem.Fits (pkt.add pr.s4.toNat) (n - pr.s4.toNat) := hf.add (by omega)
  rw [hmem] at htype
  have hshape := (openTransport_spec (c2sFastKs p pkt n pr.toAwgProfile) hdata h32).2.shape
  obtain ⟨win, hwin⟩ := awgWindowNote_eq p.cfg n
  have hserver : (awgWindowNote p.cfg n).mode = .server := by rw [hwin]; exact hmode
  refine ⟨openTransport p.mem (pkt.add pr.s4.toNat) (c2sFastKs p pkt n pr.toAwgProfile), win,
    (pkt.add pr.s4.toNat, n - pr.s4.toNat), _, ?_, hshape, rfl, ?_, ?_⟩
  · rw [c2sFastPath]
    dsimp only
    rw [if_pos ⟨hserver, hfamily⟩, read32Le_add _ _ (by omega : 4 + 4 ≤ n - pr.s4.toNat),
      read64Le, Mem.read_add_eq_slice _ _ (by omega : 8 + 8 ≤ n - pr.s4.toNat), hwin,
      C2sProxy.queueSend, hqueue]
    rfl
  · rw [Mem.length_read (hshape.fits_iff.mpr hdata)]
    exact h32
  · rw [← htype, read32Le_eq _ _ (by omega : 4 ≤ n - pr.s4.toNat)]

section

variable {cfgS : AwgConfig} {k : Fin awgMaxProfiles} {outKey : Option Bytes} {d w : Bytes}

/-- What comes back of a message is one. -/
theorem ComesBack.isWireGuard {inKey : Option Bytes} {pr : AwgProfile} {d' : Bytes}
    (h : ComesBack inKey outKey pr d d') (hd : IsWireGuard d) : IsWireGuard d' := by
  obtain ⟨hlen, hty⟩ := h.length_eq
  rw [IsWireGuard, h.handshakeKind?_eq, IsTransport, hlen, hty]
  exact hd

/-- **A datagram of a client in server mode**: its message is queued, and the table has heard
it. -/
theorem c2sThreadReversePkt_of_server (hmode : p.cfg.mode = .server)
    (hfamily : src.family = p.listenFamily) (h : SameTunnel cfgS p.cfg)
    (hchain : p.cfg.AcceptedChain) (hprof : (c2sExpectedStage p src : ℕ) < p.cfg.profileCount)
    (hf : p.mem.Fits pkt n) (hqueue : p.queue = []) (hread : p.mem.read pkt n = w)
    (hk : (k : ℕ) < cfgS.profileCount) (hd : IsWireGuard d)
    (hc : Carries cfgS (cfgS.profiles k) outKey d w) :
    ∃ m t cache win q d', c2sThreadReversePkt p src pkt n =
        { p with
          mem := m, table := t, profCache := cache, queue := [q]
          cfg := { p.cfg with udpWindow := win } } ∧
      p.mem.SameShape m ∧ (∀ i, cache i = p.profCache i ∨ (cache i).prof = k) ∧
      m.read q.1 q.2 = d' ∧ ComesBack p.cfg.mac1keyIn outKey (cfgS.profiles k) d d' ∧
      Hears p.table src k d t := by
  obtain ⟨⟨d', hback, ⟨out, hout, -⟩, hcnt, out', len', hlast, hbytes⟩, -⟩ :=
    handsOn_of_carries src h hchain hprof hf hread hk hd hc
  have hd' := hback.isWireGuard hd
  have hn : n ≠ 0 := by
    rintro rfl
    rw [c2sThreadReversePkt, if_pos rfl] at hcnt
    omega
  by_cases hfast : takesFastPath p pkt n (p.cfg.profiles (c2sExpectedStage p src)) = true
  · obtain ⟨pr, hpr⟩ := hchain.accepted _ hprof
    rw [c2sThreadReversePkt_fast hfast hn] at hlast hbytes ⊢
    rw [hpr] at hfast hlast hbytes ⊢
    obtain ⟨m, win, q, dq, heq, hshape, hq, ht⟩ :=
      c2sFastPath_of_server hmode hfamily hf hqueue hfast
    rw [heq] at hlast hbytes
    rw [List.getLast?_singleton] at hlast
    obtain rfl := Option.some.inj hlast
    obtain rfl : dq = d' := hq.symm.trans hbytes
    exact ⟨m, _, p.profCache, win, _, dq, heq, hshape, fun i => Or.inl rfl, hq, hback,
      Hears.of_comesBack (Or.inr ⟨ht, rfl⟩) hback⟩
  · rw [c2sThreadReversePkt_slow hn hfast, flush_of_queue_eq_nil hqueue] at hcnt hlast hbytes ⊢
    obtain ⟨r, hr⟩ : ∃ r, c2sDecode p.mem pkt n p.cfg (c2sExpectedStage p src)
        (c2sFastKs p pkt n (p.cfg.profiles (c2sExpectedStage p src))) = r := ⟨_, rfl⟩
    rcases c2sSlowPath_of_server hmode hfamily hr with
      ⟨-, hslow⟩ | ⟨o, l, t, cache, hsome, hslow, hcache, htable⟩
    · rw [hslow, C2sProxy.handedOn, C2sProxy.handedOn] at hcnt
      dsimp only at hcnt
      omega
    rw [hslow] at hlast hbytes ⊢
    rw [hqueue, List.nil_append, List.getLast?_singleton] at hlast
    obtain ⟨rfl, rfl⟩ := Prod.mk.inj (Option.some.inj hlast)
    rcases c2sDecode_spec hchain hf hprof (ksValid_c2sFastKs p pkt n _) hr with
      ⟨hr1, hdec, hro, hrm⟩ | ⟨hnone, -⟩
    swap
    · rw [hnone] at hsome
      contradiction
    -- the stage that has decoded it is its own
    have hstage : r.1 = k := by
      by_contra hne
      exact not_decodes_of_carries h hchain hf hread hk hd hc hr1 hne hdec
    rw [hstage] at hro hrm hcache htable
    rw [hro, hout] at hsome
    obtain ⟨-, hlen⟩ := Prod.mk.inj (Option.some.inj hsome)
    refine ⟨r.2.mem, t, cache, p.cfg.udpWindow, (o, l), d', by rw [hqueue]; rfl, ?_, hcache,
      hbytes, hback, Hears.of_comesBack (Or.inl (htable d' hbytes hlen hd')) hback⟩
    obtain ⟨pr, hpr⟩ := hchain.accepted k (h.count.symm ▸ hk)
    rw [hrm, attempt, hpr]
    exact sameShape_transformInboundProfile hf p.cfg pr none

end

/-! ### A batch of one datagram -/

/-- The c2s thread of a hub between two batches. -/
structure HubReady (p : C2sProxy) : Prop where
  mode : p.cfg.mode = .server
  chain : p.cfg.AcceptedChain
  cache : ∀ i, ((p.profCache i).prof : ℕ) < p.cfg.profileCount
  bufs : ∀ i, i < batchSize → (p.mem (.recv i)).length = awgPacketBufSize + awgPacketHeadroom
  queue : p.queue = []

/-- Whatever the cache says, the stage expected from an address is one of the chain. -/
theorem HubReady.expected (h : HubReady p) (src : CliAddr) :
    (c2sExpectedStage p src : ℕ) < p.cfg.profileCount := by
  rw [c2sExpectedStage]
  split
  · rw [profileForAddr, if_neg (by omega)]
    dsimp only
    split
    · exact h.cache _
    · exact h.chain.active
  · exact h.chain.active

/-- A datagram lies in its buffer and can be read there. -/
theorem HubReady.received (h : HubReady p) {e : C2sDatagram} (hslot : e.slot < batchSize)
    (hlen : e.data.length ≤ awgPacketBufSize) :
    p.mem.SameShape (p.receive e).mem ∧ (p.receive e).mem.Fits e.pkt e.data.length ∧
      (p.receive e).mem.read e.pkt e.data.length = e.data := by
  have hbuf : e.data.length ≤ (p.mem (.recv e.slot)).length := by
    rw [h.bufs _ hslot]
    exact hlen.trans (Nat.le_add_right _ _)
  have hfit : p.mem.Fits e.pkt e.data.length := by
    rw [Mem.Fits, C2sDatagram.pkt, Nat.zero_add]
    exact hbuf
  exact ⟨Mem.sameShape_write hfit, fits_receive hbuf, Mem.read_write_self hfit⟩

/-- **The datagram of a client**, taken in a batch of its own: its message is handed on, and the
table has heard it. -/
theorem arrives_of_carries {cfgS : AwgConfig} {k : Fin awgMaxProfiles} {outKey : Option Bytes}
    {d : Bytes} {e : C2sDatagram} (h : HubReady p) (hslot : e.slot < batchSize)
    (hlen : e.data.length ≤ awgPacketBufSize) (hfamily : e.src.family = p.listenFamily)
    (hsame : SameTunnel cfgS p.cfg) (hk : (k : ℕ) < cfgS.profileCount) (hd : IsWireGuard d)
    (hc : Carries cfgS (cfgS.profiles k) outKey d e.data) :
    HubReady (p.arrives e) ∧ (p.arrives e).listenFamily = p.listenFamily ∧
      (∃ win, (p.arrives e).cfg = { p.cfg with udpWindow := win }) ∧
      (∃ d', (p.arrives e).sent = p.sent ++ [d'] ∧
        ComesBack p.cfg.mac1keyIn outKey (cfgS.profiles k) d d') ∧
      Hears p.table e.src k d (p.arrives e).table := by
  obtain ⟨hwrite, hfits, hread⟩ := h.received hslot hlen
  obtain ⟨m, t, cache, win, q, d', heq, hshape, hcache, hbytes, hback, hears⟩ :=
    c2sThreadReversePkt_of_server (p := p.receive e) h.mode hfamily hsame h.chain
      (h.expected e.src) hfits h.queue hread hk hd hc
  have hstages : ∀ i, ((cache i).prof : ℕ) < p.cfg.profileCount := by
    intro i
    rcases hcache i with hi | hi
    · rw [hi]
      exact h.cache i
    · rw [hi]
      exact hsame.count.symm ▸ hk
  rw [C2sProxy.arrives, heq, C2sProxy.flush]
  refine ⟨⟨h.mode, ⟨h.chain.accepted, h.chain.active⟩, hstages, fun i hi => ?_, rfl⟩, rfl,
    ⟨win, rfl⟩, ⟨d', ?_, hback⟩, hears⟩
  · exact ((hwrite.trans hshape) _).trans (h.bufs i hi)
  · rw [List.map_singleton, hbytes]
    rfl

/-- **Noise**: what no stage finds anything in leaves no trace. -/
theorem arrives_of_noise {e : C2sDatagram} (h : HubReady p) (hslot : e.slot < batchSize)
    (hlen : e.data.length ≤ awgPacketBufSize)
    (hnone : ∀ j : Fin awgMaxProfiles, (j : ℕ) < p.cfg.profileCount →
      stageFinds (p.receive e).mem e.pkt e.data.length p.cfg j = none) :
    ∃ m, p.arrives e = { p with mem := m } ∧ HubReady (p.arrives e) := by
  obtain ⟨hwrite, hfits, -⟩ := h.received hslot hlen
  obtain ⟨m, heq, hshape⟩ := c2sThreadReversePkt_of_noise (p := p.receive e) e.src h.chain
    (h.expected e.src) hfits h.queue hnone
  have harrives : p.arrives e = { p with mem := m } := by
    rw [C2sProxy.arrives, heq]
    exact flush_of_queue_eq_nil h.queue
  refine ⟨m, harrives, ?_⟩
  rw [harrives]
  exact ⟨h.mode, ⟨h.chain.accepted, h.chain.active⟩, h.cache,
    fun i hi => ((hwrite.trans hshape) _).trans (h.bufs i hi), h.queue⟩

end

/-! ### Where a message of the local WireGuard goes -/

/-- The index of the session a message is for. -/
def receiverIndex (d : Bytes) : UInt32 :=
  if handshakeKind? d = some .response then load32Le d 8 else load32Le d 4

/-- The entry a message of the local WireGuard goes by. -/
def Proxy.replyEntry (p : Proxy) (d : Bytes) : Option SessionEntry :=
  let r := s2cRoute p.cfg p.table d
  r.entry.map r.table.sessions

/-- The key its sum is made under: that of the peer it is taken to be for, else the configured
one. -/
def Proxy.replyKey (p : Proxy) (d : Bytes) : Option Bytes :=
  let r := s2cRoute p.cfg p.table d
  (r.entry.bind fun s => (s2cIdentify p.cfg r.table s r.initPeer d).2) <|> p.cfg.mac1keyOut

/-- The entry `e'` is the client's that `e` was. -/
structure StaysClient (e e' : SessionEntry) : Prop where
  valid : e.valid = true
  index : e'.senderIndex = e.senderIndex
  addr : e'.addr = e.addr
  prof : e'.prof = e.prof

/-- The session of an entry is the one it was, or the one the response `d` of the local WireGuard
has told. -/
def KeepsSession (d : Bytes) (e e' : SessionEntry) : Prop :=
  e'.serverIndex = e.serverIndex ∨
    handshakeKind? d = some .response ∧ e'.serverIndex = load32Le d 4 ∧
      e.senderIndex = load32Le d 8

section

variable {cfg : AwgConfig} {t : SessionTable} {d : Bytes} {s : Slot}

/-- Every message but an init goes by the index of its session. -/
theorem s2cRoute_entry (cfg : AwgConfig) (t : SessionTable) (hd : IsWireGuard d)
    (hne : handshakeKind? d ≠ some .init) :
    (s2cRoute cfg t d).entry = sessionGetEntry t (receiverIndex d) := by
  rcases hk : handshakeKind? d with _ | k
  · have ht := isTransport_of_isWireGuard hd hk
    rw [s2cRoute, receiverIndex, hk]
    dsimp only
    rw [if_pos ⟨ht.2, ht.1⟩, if_neg (by rintro ⟨⟩)]
  · cases k with
    | init => exact absurd hk hne
    | response =>
        rw [s2cRoute_response t hk, receiverIndex, if_pos hk]
    | cookie =>
        obtain ⟨hty, hsz⟩ := handshakeKind?_eq_some_iff.mp hk
        have h4 := HandshakeKind.type_ne_transport .cookie
        have hrecv : receiverIndex d = load32Le d 4 := by
          rw [receiverIndex, hk]
          exact if_neg (by rintro ⟨⟩)
        rw [s2cRoute, hrecv]
        dsimp only
        rw [if_neg fun h => h4 (hty.symm.trans h.1),
          if_neg fun h => wgCookieReply_ne.2 (hty.symm.trans h.1), if_pos ⟨hty, hsz⟩]

/-- Looking up where a message goes tells one entry of the table a session at most. -/
theorem s2cRoute_table_cases (cfg : AwgConfig) (t : SessionTable) (d : Bytes) :
    (s2cRoute cfg t d).table = t ∨
      handshakeKind? d = some .response ∧
        (s2cRoute cfg t d).table =
          sessionSetServerIndex t (sessionGetEntry t (load32Le d 8)) (load32Le d 4) := by
  rcases hresp : decide (handshakeKind? d = some .response) with _ | _
  · left
    rw [decide_eq_false_iff_not, handshakeKind?_eq_some_iff] at hresp
    rw [s2cRoute]
    dsimp only
    split
    · rfl
    split
    · rename_i h
      exact absurd h hresp
    split
    · rfl
    split
    · split
      · rfl
      · rfl
    · rfl
  · rw [decide_eq_true_eq] at hresp
    exact Or.inr ⟨hresp, by rw [s2cRoute_response t hresp]⟩

theorem staysClient_s2cRoute (hv : ((s2cRoute cfg t d).table.sessions s).valid = true) :
    StaysClient (t.sessions s) ((s2cRoute cfg t d).table.sessions s) ∧
      KeepsSession d (t.sessions s) ((s2cRoute cfg t d).table.sessions s) := by
  rcases s2cRoute_table_cases cfg t d with h | ⟨hresp, h⟩
  · rw [h] at hv ⊢
    exact ⟨⟨hv, rfl, rfl, rfl⟩, Or.inl rfl⟩
  · rw [h, sessions_sessionSetServerIndex] at hv ⊢
    split at hv
    · rename_i hset
      rw [if_pos hset]
      obtain ⟨-, -, -, ⟨-, hidx⟩, -⟩ := sessionGetEntry_eq_some_iff.mp hset.1
      exact ⟨⟨hv, rfl, rfl, rfl⟩, Or.inr ⟨hresp, rfl, hidx⟩⟩
    · rename_i hset
      rw [if_neg hset]
      exact ⟨⟨hv, rfl, rfl, rfl⟩, Or.inl rfl⟩

theorem staysClient_s2cIdentify {s' : Slot} {initPeer : ℤ}
    (hv : ((s2cIdentify cfg t s initPeer d).1.sessions s').valid = true) :
    StaysClient (t.sessions s') ((s2cIdentify cfg t s initPeer d).1.sessions s') ∧
      ((s2cIdentify cfg t s initPeer d).1.sessions s').serverIndex =
        (t.sessions s').serverIndex := by
  have hvalid := valid_of_valid_s2cIdentify hv
  rw [sessions_s2cIdentify]
  dsimp only
  by_cases hs : s = s'
  · rw [if_pos hs]
    split
    · exact ⟨⟨hvalid, rfl, rfl, rfl⟩, rfl⟩
    · exact ⟨⟨hvalid, rfl, rfl, rfl⟩, rfl⟩
  · rw [if_neg hs]
    split
    · exact ⟨⟨hvalid, rfl, rfl, rfl⟩, rfl⟩
    · exact ⟨⟨hvalid, rfl, rfl, rfl⟩, rfl⟩

end

section

variable {p : Proxy} {d : Bytes}

/-- **The entries after a message of the local WireGuard** are those of the clients they were. -/
theorem staysClient_gives (hmode : p.cfg.mode = .server) (hrecv : Receivable p 0 d) {s : Slot}
    (hv : ((p.gives d).table.sessions s).valid = true) :
    StaysClient (p.table.sessions s) ((p.gives d).table.sessions s) ∧
      KeepsSession d (p.table.sessions s) ((p.gives d).table.sessions s) := by
  have htable : (p.gives d).table = (p.packet 0 d).table := rfl
  rw [htable] at hv ⊢
  rcases Proxy.table_packet hmode hrecv with h | h | ⟨s₀, -, h⟩
  · rw [h] at hv ⊢
    exact ⟨⟨hv, rfl, rfl, rfl⟩, Or.inl rfl⟩
  · rw [h] at hv ⊢
    exact staysClient_s2cRoute hv
  · rw [h] at hv ⊢
    obtain ⟨hident, hsidx⟩ := staysClient_s2cIdentify hv
    obtain ⟨hroute, hkeeps⟩ := staysClient_s2cRoute hident.valid
    refine ⟨⟨hroute.valid, hident.index.trans hroute.index, hident.addr.trans hroute.addr,
      hident.prof.trans hroute.prof⟩, ?_⟩
    rw [KeepsSession, hsidx]
    exact hkeeps

/-- **The entry of a message** is one of the table, that of its session unless it is an init. -/
theorem replyEntry_spec {e : SessionEntry} (h : p.replyEntry d = some e) (hd : IsWireGuard d) :
    (∃ s, StaysClient (p.table.sessions s) e) ∧
      (handshakeKind? d ≠ some .init → e.senderIndex = receiverIndex d) := by
  rw [Proxy.replyEntry] at h
  obtain ⟨s, hs, rfl⟩ := Option.map_eq_some_iff.mp h
  have hvalid : (p.table.sessions s).valid = true := by
    by_cases hinit : handshakeKind? d = some .init
    · rw [s2cRoute_init p.table hinit] at hs
      dsimp only at hs
      split at hs
      · rename_i s' hfind
        obtain rfl := Option.some.inj hs
        split at hfind
        · exact (sessionFindByPeer_eq_some_iff.mp hfind).2.1.1
        · contradiction
      · exact (sessionFindSoleEntry_eq_some_iff.mp hs).1
    · rw [s2cRoute_entry p.cfg p.table hd hinit] at hs
      obtain ⟨-, -, -, ⟨hv, -⟩, -⟩ := sessionGetEntry_eq_some_iff.mp hs
      exact hv
  have hstays : StaysClient (p.table.sessions s) ((s2cRoute p.cfg p.table d).table.sessions s) := by
    refine (staysClient_s2cRoute ?_).1
    rcases s2cRoute_table_cases p.cfg p.table d with heq | ⟨-, heq⟩
    · rw [heq]
      exact hvalid
    · rw [heq, sessions_sessionSetServerIndex]
      split
      · exact hvalid
      · exact hvalid
  refine ⟨⟨s, hstays⟩, fun hne => ?_⟩
  rw [s2cRoute_entry p.cfg p.table hd hne] at hs
  obtain ⟨-, -, -, ⟨-, hidx⟩, -⟩ := sessionGetEntry_eq_some_iff.mp hs
  exact hstays.index.trans hidx

/-- The packet function of server mode on a message. -/
theorem processS2cPktReverse_of_server {base : Ptr PktBuf} {n headroom : ℕ}
    (hmode : p.cfg.mode = .server) (hread : p.mem.read (base.add headroom) n = d) (hn : 4 ≤ n) :
    processS2cPktReverse p base n headroom =
      let r := s2cRoute p.cfg p.table d
      match r.entry with
      | none => { p with table := r.table }
      | some s =>
          if n ≥ wgTransportMin ∧ load32Le d 0 = wgTransportData then
            s2cTransport { p with table := r.table } (base.add headroom) n headroom
              (serverProf p.cfg r.table s) (r.table.sessions s).addr
          else
            s2cTransform { p with table := (s2cIdentify p.cfg r.table s r.initPeer d).1 }
              base n headroom (serverProf p.cfg r.table s)
              (s2cIdentify p.cfg r.table s r.initPeer d).2 (r.table.sessions s).addr := by
  rw [processS2cPktReverse]
  dsimp only
  rw [hread, if_pos hmode, if_neg (by omega)]
  rcases (s2cRoute p.cfg p.table d).entry with _ | s
  · rfl
  · rfl

end

/-! ### What goes out for it -/

section

variable {p : Proxy} {d : Bytes}

/-- The stages in the table are those of the chain while a message is routed. -/
theorem prof_s2cRoute (h : S2cLayout p) (d : Bytes) (s : Slot) :
    (((s2cRoute p.cfg p.table d).table.sessions s).prof : ℕ) < p.cfg.profileCount := by
  rcases s2cRoute_table_cases p.cfg p.table d with heq | ⟨-, heq⟩
  · rw [heq]
    exact h.entries s
  · rw [heq, sessions_sessionSetServerIndex]
    split
    · exact h.entries s
    · exact h.entries s

/-- A client is answered in the stage of its entry. -/
theorem serverProf_s2cRoute (h : S2cLayout p) (d : Bytes) (s : Slot) :
    serverProf p.cfg (s2cRoute p.cfg p.table d).table s =
      ((s2cRoute p.cfg p.table d).table.sessions s).prof := by
  rw [serverProf]
  split
  · rfl
  · have hprof := prof_s2cRoute h d s
    have hact := h.active
    exact Fin.ext (by omega)

/-- A received message in the packet function. -/
theorem packet_of_server (hmode : p.cfg.mode = .server) (hd : IsWireGuard d)
    (hrecv : Receivable p 0 d) :
    p.packet 0 d =
      let r := s2cRoute p.cfg p.table d
      match r.entry with
      | none => { p.receive 0 d with table := r.table }
      | some s =>
          if d.length ≥ wgTransportMin ∧ load32Le d 0 = wgTransportData then
            s2cTransport { p.receive 0 d with table := r.table }
              ((⟨.recv 0, 0⟩ : Ptr PktBuf).add p.cfg.maxS4) d.length p.cfg.maxS4
              (serverProf p.cfg r.table s) (r.table.sessions s).addr
          else
            s2cTransform
              { p.receive 0 d with table := (s2cIdentify p.cfg r.table s r.initPeer d).1 }
              ⟨.recv 0, 0⟩ d.length p.cfg.maxS4 (serverProf p.cfg r.table s)
              (s2cIdentify p.cfg r.table s r.initPeer d).2 (r.table.sessions s).addr :=
  processS2cPktReverse_of_server (p := p.receive 0 d) hmode hrecv.read (four_le_of_isWireGuard hd)

/-- A message without an entry is dropped. -/
theorem datagrams_of_replyEntry_eq_none (hmode : p.cfg.mode = .server) (hd : IsWireGuard d)
    (hrecv : Receivable p 0 d) (h : p.replyEntry d = none) : p.datagrams d = [] := by
  have hpkt := packet_of_server hmode hd hrecv
  rw [Proxy.replyEntry] at h
  dsimp only at h hpkt
  rw [Option.map_eq_none_iff.mp h] at hpkt
  rw [Proxy.datagrams, hpkt, Proxy.sentSince]
  dsimp only [Proxy.receive]
  rw [List.drop_length, List.drop_length]
  rfl

/-- **A message of the local WireGuard** goes out to its entry: where the client is, in the
stage it speaks and under the key of its peer. -/
theorem goesTo_gives_of_server (h : ServerRuns p) (hr : RingsReady p)
    (hnoop : ∀ k : Fin awgMaxProfiles, (k : ℕ) < p.cfg.profileCount →
      (p.cfg.profiles k).h4Noop = false)
    (hd : IsWireGuard d) (hrecv : Receivable p 0 d) {e : SessionEntry}
    (he : p.replyEntry d = some e) :
    GoesTo p.cfg (p.cfg.profiles e.prof) (p.replyKey d) d e.addr (p.datagrams d) := by
  have hl := h.layout.receive hrecv
  have L := hl.pktLayout (i := 0) hrecv.buffer (hrecv.le h.layout)
  have hpkt := packet_of_server h.mode hd hrecv
  rw [Proxy.replyEntry] at he
  rw [Proxy.replyKey]
  dsimp only at he hpkt ⊢
  obtain ⟨s, hs, rfl⟩ := Option.map_eq_some_iff.mp he
  rw [hs] at hpkt ⊢
  dsimp only at hpkt
  rw [serverProf_s2cRoute h.layout] at hpkt
  have hprof := prof_s2cRoute h.layout d s
  generalize s2cRoute p.cfg p.table d = r at hpkt hprof ⊢
  obtain ⟨pr, hpr⟩ := h.layout.accepted _ hprof
  have hn := hnoop _ hprof
  have hs4 := s4_le_maxS4_configComputeMaxS4 hprof
  rw [← h.layout.maxS4] at hs4
  rw [hpr] at hn hs4
  rw [Proxy.datagrams, hpkt, hpr, Option.bind_some]
  rcases hk : handshakeKind? d with _ | k
  · have ht := isTransport_of_isWireGuard hd hk
    have hread : ({ p.receive 0 d with table := r.table } : Proxy).mem.read
        ((⟨.recv 0, 0⟩ : Ptr PktBuf).add (p.receive 0 d).cfg.maxS4) d.length = d := hrecv.read
    have hring : RingReady { p.receive 0 d with table := r.table } (r.table.sessions s).prof :=
      (hr _ hprof).congr rfl rfl rfl
    have hspec := s2cTransport_spec (p := { p.receive 0 d with table := r.table })
      ((s2cIdentify p.cfg r.table s r.initPeer d).2 <|> p.cfg.mac1keyOut)
      (r.table.sessions s).addr hpr hring hn L hs4 (by rw [hread]; exact ht)
    rw [if_pos (show d.length ≥ wgTransportMin ∧ load32Le d 0 = wgTransportData from ht)]
    rw [hread] at hspec
    exact hspec
  · have hnt : ¬ (d.length ≥ wgTransportMin ∧ load32Le d 0 = wgTransportData) := by
      intro ht
      exact absurd (hk.symm.trans (IsTransport.handshakeKind?_eq_none ht)) (by rintro ⟨⟩)
    rw [if_neg hnt]
    exact s2cTransform_spec
      (p := { p.receive 0 d with table := (s2cIdentify p.cfg r.table s r.initPeer d).1 })
      (s2cIdentify p.cfg r.table s r.initPeer d).2 hpr L hrecv.read hk

/-- A message of the local WireGuard leaves the thread as it runs. -/
theorem gives_frame_of_server (h : ServerRuns p) (hr : RingsReady p) (hd : IsWireGuard d)
    (hrecv : Receivable p 0 d) :
    ServerRuns (p.gives d) ∧ RingsReady (p.gives d) ∧
      ∃ w, (p.gives d).cfg = { p.cfg with udpWindow := w } := by
  obtain ⟨hruns, hcfg⟩ := h.step (serverMachine_packet_eq_some.mpr ⟨hrecv, rfl⟩)
  have hgives := (hruns.step (e := .sendBatch) rfl).1
  have hready : RingsReady (p.packet 0 d) := by
    have hrecvd : RingsReady (p.receive 0 d) := hr.congr rfl rfl (.refl _)
    rw [packet_of_server h.mode hd hrecv]
    dsimp only
    split
    · exact hrecvd.congr rfl rfl (.refl _)
    · rename_i s hs
      split
      · have hprof := prof_s2cRoute h.layout d s
        rw [← serverProf_s2cRoute h.layout] at hprof
        exact RingsReady.s2cTransport (p := { p.receive 0 d with
          table := (s2cRoute p.cfg p.table d).table }) (hrecvd.congr rfl rfl (.refl _)) hprof
          _ _ _ _
      · exact RingsReady.s2cTransform (p := { p.receive 0 d with
          table := (s2cIdentify p.cfg (s2cRoute p.cfg p.table d).table s
            (s2cRoute p.cfg p.table d).initPeer d).1 }) (hrecvd.congr rfl rfl (.refl _))
          _ _ _ _ _ _
  exact ⟨hgives, hready.congr rfl rfl (.refl _), hcfg⟩

end

/-! ### The entries of a table that has heard a message -/

/-- The entry `e'` is the one the message `d` from `src` was recorded in, over `e`. -/
structure RecordedFor (src : CliAddr) (k : Fin awgMaxProfiles) (d : Bytes) (e e' : SessionEntry) :
    Prop where
  kind : handshakeKind? d = some .init ∨ handshakeKind? d = some .response
  index : e'.senderIndex = load32Le d 4
  addr : e'.addr = src
  prof : e'.prof = k
  session : e'.serverIndex = 0 ∨
    handshakeKind? d = some .response ∧ e'.serverIndex = load32Le d 8 ∨
    e.valid = true ∧ e.senderIndex = load32Le d 4 ∧ e'.serverIndex = e.serverIndex

/-- The entry `e'` is the client's that `e` was; where the message `d` from `src` is transport
data of a session at the address of `e`, it may be at `src` now. -/
structure FollowedFor (t : SessionTable) (src : CliAddr) (d : Bytes) (e e' : SessionEntry) :
    Prop where
  valid : e.valid = true
  index : e'.senderIndex = e.senderIndex
  prof : e'.prof = e.prof
  session : e'.serverIndex = e.serverIndex
  addr : e'.addr = e.addr ∨ IsTransport d ∧ e'.addr = src ∧ load32Le d 4 ≠ 0 ∧
    ∃ s, (t.sessions s).valid = true ∧ (t.sessions s).serverIndex = load32Le d 4 ∧
      (t.sessions s).addr = e.addr

section

variable {t t' : SessionTable} {src : CliAddr} {k : Fin awgMaxProfiles} {d : Bytes} {s : Slot}

/-- An entry nothing happens to. -/
theorem FollowedFor.refl {e : SessionEntry} (hv : e.valid = true) : FollowedFor t src d e e :=
  ⟨hv, rfl, rfl, rfl, Or.inl rfl⟩

/-- An insertion writes the entry of its index and leaves the others. -/
theorem sessionPutProf_cases (t : SessionTable) (index : UInt32) (src : CliAddr)
    (k : Fin awgMaxProfiles) (s : Slot) :
    s = (sessionPutProf t index src k).2 ∧
        (sessionPutProf t index src k).1.sessions s = putEntry (t.sessions s) index src k ∨
      s ≠ (sessionPutProf t index src k).2 ∧
        (sessionPutProf t index src k).1.sessions s = t.sessions s := by
  rw [sessionPutProf_eq]
  dsimp only
  by_cases hs : s = putSlot t index
  · rw [← hs, sessions_set_self]
    exact Or.inl ⟨rfl, rfl⟩
  · exact Or.inr ⟨hs, sessions_set_of_ne t _ hs⟩

/-- What an insertion keeps of a session is its own. -/
theorem serverIndex_putEntry (e : SessionEntry) (index : UInt32) (src : CliAddr)
    (k : Fin awgMaxProfiles) : (putEntry e index src k).serverIndex = 0 ∨
      e.valid = true ∧ e.senderIndex = index ∧
        (putEntry e index src k).serverIndex = e.serverIndex := by
  rw [putEntry_serverIndex]
  split
  · rename_i h
    exact Or.inr ⟨h.1, h.2, rfl⟩
  · exact Or.inl rfl

/-- The entries after a message was recorded. -/
theorem recordMessage_cases (hv : ((recordMessage t src k d).sessions s).valid = true) :
    RecordedFor src k d (t.sessions s) ((recordMessage t src k d).sessions s) ∨
      FollowedFor t src d (t.sessions s) ((recordMessage t src k d).sessions s) := by
  rw [recordMessage] at hv ⊢
  rcases hk : handshakeKind? d with _ | kind
  · rw [hk] at hv
    exact Or.inr (.refl hv)
  rw [hk] at hv
  cases kind with
  | init =>
      dsimp only at hv ⊢
      rcases sessionPutProf_cases t (load32Le d 4) src k s with ⟨-, heq⟩ | ⟨-, heq⟩
      · rw [heq]
        refine Or.inl ⟨Or.inl hk, putEntry_senderIndex .., putEntry_addr .., putEntry_prof .., ?_⟩
        rcases serverIndex_putEntry (t.sessions s) (load32Le d 4) src k with h0 | hold
        · exact Or.inl h0
        · exact Or.inr (Or.inr hold)
      · rw [heq] at hv ⊢
        exact Or.inr (.refl hv)
  | response =>
      dsimp only at hv ⊢
      rw [sessions_sessionSetServerIndex] at hv ⊢
      rcases sessionPutProf_cases t (load32Le d 4) src k s with ⟨hs, heq⟩ | ⟨hs, heq⟩
      · left
        rw [heq]
        split
        · exact ⟨Or.inr hk, putEntry_senderIndex .., putEntry_addr .., putEntry_prof ..,
            Or.inr (Or.inl ⟨hk, rfl⟩)⟩
        · refine ⟨Or.inr hk, putEntry_senderIndex .., putEntry_addr .., putEntry_prof .., ?_⟩
          rcases serverIndex_putEntry (t.sessions s) (load32Le d 4) src k with h0 | hold
          · exact Or.inl h0
          · exact Or.inr (Or.inr hold)
      · have hother : ¬ (some (sessionPutProf t (load32Le d 4) src k).2 = some s ∧
            load32Le d 8 ≠ 0) := fun h => hs (Option.some.inj h.1).symm
        rw [if_neg hother, heq] at hv ⊢
        exact Or.inr (.refl hv)
  | cookie => exact Or.inr (.refl hv)

/-- The entries after a client was followed. -/
theorem sessionFollowClient_followedFor (ht : IsTransport d) {ctr : UInt64}
    (hv : ((sessionFollowClient t (load32Le d 4) src ctr).1.sessions s).valid = true) :
    FollowedFor t src d (t.sessions s)
      ((sessionFollowClient t (load32Le d 4) src ctr).1.sessions s) := by
  cases hacc : sessionAccepts t (load32Le d 4) ctr with
  | false =>
      rw [sessionFollowClient_of_not_accepts src hacc] at hv ⊢
      exact .refl hv
  | true =>
      obtain ⟨s₀, hget, hno⟩ := sessionAccepts_iff.mp hacc
      obtain ⟨h0, -, hv₀, hsidx⟩ := sessionGetByServerIndex_eq_some_iff.mp hget
      rw [sessions_sessionFollowClient_of_accepts src hget hno] at hv ⊢
      have htake : ∀ e, e = (if s = s₀ then takeCtr (t.sessions s) (load32Le d 4) ctr
          else t.sessions s) → e.valid = (t.sessions s).valid ∧
            e.senderIndex = (t.sessions s).senderIndex ∧ e.prof = (t.sessions s).prof ∧
            e.serverIndex = (t.sessions s).serverIndex ∧ e.addr = (t.sessions s).addr := by
        rintro e rfl
        split
        · exact ⟨rfl, rfl, rfl, rfl, rfl⟩
        · exact ⟨rfl, rfl, rfl, rfl, rfl⟩
      generalize he : (if s = s₀ then takeCtr (t.sessions s) (load32Le d 4) ctr
          else t.sessions s) = e at hv ⊢
      obtain ⟨hev, hei, hep, hes, hea⟩ := htake e he.symm
      dsimp only at hv ⊢
      split at hv
      · rename_i hmoved
        rw [if_pos hmoved]
        exact ⟨hmoved.1, hei, hep, hes, Or.inr ⟨ht, rfl, h0, s₀, hv₀, hsidx, hmoved.2.symm⟩⟩
      · rename_i hkept
        rw [if_neg hkept]
        exact ⟨hev ▸ hv, hei, hep, hes, Or.inl hea⟩

/-- **The entries after a message was heard**: its sender's, or those that were there. -/
theorem Hears.cases (h : Hears t src k d t') (hv : (t'.sessions s).valid = true) :
    RecordedFor src k d (t.sessions s) (t'.sessions s) ∨
      FollowedFor t src d (t.sessions s) (t'.sessions s) := by
  rcases h with rfl | ⟨ht, rfl⟩
  · exact recordMessage_cases hv
  · exact Or.inr (sessionFollowClient_followedFor ht hv)

/-- Every stage in the table was there or is that of the message. -/
theorem Hears.prof (h : Hears t src k d t') (s : Slot) :
    (t'.sessions s).prof = (t.sessions s).prof ∨ (t'.sessions s).prof = k := by
  have hput : ∀ index, ((sessionPutProf t index src k).1.sessions s).prof = (t.sessions s).prof ∨
      ((sessionPutProf t index src k).1.sessions s).prof = k := by
    intro index
    rw [prof_sessionPutProf]
    split
    · exact Or.inr rfl
    · exact Or.inl rfl
  rcases h with rfl | ⟨-, rfl⟩
  · rw [recordMessage]
    split
    · exact hput _
    · dsimp only
      rw [(sameStages_sessionSetServerIndex _ _ _ s).2.2]
      exact hput _
    · exact Or.inl rfl
    · exact Or.inl rfl
  · exact Or.inl (sameStages_sessionFollowClient _ _ _ _ s).2.2

end

end AwgProxy
