import AwgProxy.Server

/-!
# Server-Initiated Handshakes

A handshake our WireGuard starts has no index of the client in it. Its MAC1 names the peer,
the peer's entry in the session table is its destination, and when no entry has been
recognised as the peer's the sole client is taken for it, by its address alone.

* `goesToPeer_iff` — one such handshake goes to its own peer, and leaves the other peers'
  entries alone, unless the sole client it falls back on is known to be another peer
  (`GuessesKnownPeer`).
* `forall_keepsToPeer_iff` — the same over whole runs.
-/

namespace AwgProxy

/-- The destination of something sent at once. -/
def Sent.addr : Sent → CliAddr
  | .junkAndCps addr => addr
  | .packet _ addr => addr

/-- Between the two states something was queued for the address, or sent there at once. -/
def SendsTo (p p' : Proxy) (addr : CliAddr) : Prop :=
  (∃ e ∈ p'.queue.drop p.queue.length, e.addr = addr) ∨
    ∃ s ∈ p'.sent.drop p.sent.length, s.addr = addr

/-- The entry is in use and recognised as the peer's. -/
def SessionTable.Knows (t : SessionTable) (s : Slot) (k : ℤ) : Prop :=
  (t.sessions s).valid = true ∧ (t.sessions s).peerSlot = k

/-- The packet for peer `k` goes only to a session that is the peer's or unknown, to one of
the peer's when there is one, and no entry of another peer is taken for the peer's. -/
structure GoesToPeer (p p' : Proxy) (k : ℤ) : Prop where
  dest : ∀ addr, SendsTo p p' addr → ∃ s, (p.table.sessions s).valid = true ∧
    (p.table.sessions s).addr = addr ∧
      ((p.table.sessions s).peerSlot = k ∨ (p.table.sessions s).peerSlot < 0)
  chosen : (∃ s, p.table.Knows s k) → ∀ addr, SendsTo p p' addr →
    ∃ s, p.table.Knows s k ∧ (p.table.sessions s).addr = addr
  kept : ∀ s j, p.table.Knows s j → 0 ≤ j → j ≠ k → (p'.table.sessions s).peerSlot = j

/-- No entry is the peer's, and the sole client is known to be another peer. -/
def GuessesKnownPeer (t : SessionTable) (k : ℤ) : Prop :=
  (∀ s, ¬ t.Knows s k) ∧
    ∃ f, sessionFindSoleEntry t = some f ∧ 0 ≤ (t.sessions f).peerSlot ∧
      (t.sessions f).peerSlot ≠ k

/-! ### One handshake -/

/-- What the encoder makes of a packet goes to its destination. -/
theorem addr_of_sendsTo_s2cTransform {p q : Proxy} {base : Ptr PktBuf} {n headroom : ℕ}
    {prof : Fin awgMaxProfiles} {key : Option Bytes} {dest addr : CliAddr}
    (hq : q.queue = p.queue) (hs : q.sent = p.sent)
    (h : SendsTo p (s2cTransform q base n headroom prof key dest) addr) : addr = dest := by
  rw [SendsTo, s2cTransform, ← hq, ← hs] at h
  dsimp only at h
  generalize transformOutboundProfile q.mem base headroom n q.cfg (q.cfg.profiles prof) key
    (fastrandU64 q.rngS2c) = r at h
  rcases ho : r.out with _ | out
  · simp only [ho, List.drop_length, List.not_mem_nil, false_and, exists_false, or_self] at h
  · simp only [ho] at h
    split at h
    · simp only [List.drop_length, List.drop_left, List.not_mem_nil, false_and, exists_false,
        false_or] at h
      obtain ⟨s, hmem, rfl⟩ := h
      rcases List.mem_cons.mp hmem with rfl | hmem
      · rfl
      · obtain rfl := List.mem_singleton.mp hmem
        rfl
    · simp only [Proxy.queueSend, List.drop_length, List.drop_left, List.not_mem_nil, false_and,
        exists_false, or_false, List.mem_singleton] at h
      obtain ⟨e, rfl, rfl⟩ := h
      rfl

/-- A handshake for peer `k` is sent to the client of the entry `s`, which becomes the
peer's. -/
structure HandsTo (p p' : Proxy) (s : Slot) (k : ℤ) : Prop where
  dest : ∀ addr, SendsTo p p' addr → addr = (p.table.sessions s).addr
  peerSlot : ∀ s', (p'.table.sessions s').peerSlot =
    if s = s' then k else (p.table.sessions s').peerSlot

/-- To an entry of the peer. -/
theorem HandsTo.goesToPeer_of_knows {p p' : Proxy} {s : Slot} {k : ℤ} (h : HandsTo p p' s k)
    (hs : p.table.Knows s k) : GoesToPeer p p' k := by
  refine ⟨fun addr ha => ⟨s, hs.1, (h.dest addr ha).symm, Or.inl hs.2⟩,
    fun _ addr ha => ⟨s, hs, (h.dest addr ha).symm⟩, fun s' j hs' _ hjk => ?_⟩
  rw [h.peerSlot, if_neg]
  · exact hs'.2
  · rintro rfl
    exact hjk (hs'.2.symm.trans hs.2)

/-- To an entry of nobody known, while the peer has none. -/
theorem HandsTo.goesToPeer_of_unknown {p p' : Proxy} {s : Slot} {k : ℤ} (h : HandsTo p p' s k)
    (hno : ∀ s, ¬ p.table.Knows s k) (hvalid : (p.table.sessions s).valid = true)
    (hneg : (p.table.sessions s).peerSlot < 0) : GoesToPeer p p' k := by
  refine ⟨fun addr ha => ⟨s, hvalid, (h.dest addr ha).symm, Or.inr hneg⟩,
    fun ⟨s', hs'⟩ => absurd hs' (hno s'), fun s' j hs' hj _ => ?_⟩
  rw [h.peerSlot, if_neg]
  · exact hs'.2
  · rintro rfl
    have := hs'.2
    omega

/-- To an entry of another peer: it is taken for the peer's. -/
theorem HandsTo.not_goesToPeer {p p' : Proxy} {s : Slot} {k : ℤ} (h : HandsTo p p' s k)
    (hvalid : (p.table.sessions s).valid = true) (hknown : 0 ≤ (p.table.sessions s).peerSlot)
    (hne : (p.table.sessions s).peerSlot ≠ k) : ¬ GoesToPeer p p' k := by
  intro hgoes
  have hkept := hgoes.kept s _ ⟨hvalid, rfl⟩ hknown hne
  rw [h.peerSlot, if_pos rfl] at hkept
  exact hne hkept.symm

/-- An init of our WireGuard is handed to the first entry of its peer, else to the sole
client, else to nobody. -/
theorem handsTo_packet {p : Proxy} {i : ℕ} {d : Bytes} {k : ℕ} (hmode : p.cfg.mode = .server)
    (hrecv : Receivable p i d) (hd : handshakeKind? d = some .init)
    (hk : VerifiesOnly p.cfg 116 d k) :
    match (sessionFindByPeer p.table k).or (sessionFindSoleEntry p.table) with
    | some s => HandsTo p (p.packet i d) s k
    | none => p.packet i d = p.receive i d := by
  have hpeer := configServerResolvePeerForInit_of_verifiesOnly hd hk
  have hk0 : (0 : ℤ) ≤ k := Int.natCast_nonneg k
  have hproc := Proxy.packet_handshake hmode hrecv hd
  have hroute : s2cRoute p.cfg p.table d =
      ⟨p.table, (sessionFindByPeer p.table k).or (sessionFindSoleEntry p.table), k⟩ := by
    rw [s2cRoute_init p.table hd, hpeer]
    dsimp only
    rw [if_pos hk0]
    cases sessionFindByPeer p.table k with
    | none => rfl
    | some s => rfl
  rw [hroute] at hproc
  cases hentry : (sessionFindByPeer p.table k).or (sessionFindSoleEntry p.table) with
  | none =>
      rw [hentry] at hproc
      exact hproc
  | some s =>
      rw [hentry] at hproc
      have hs : p.packet i d = s2cTransform
        { p.receive i d with table := (s2cIdentify p.cfg p.table s k d).1 } ⟨.recv i, 0⟩ d.length
          p.cfg.maxS4 (serverProf p.cfg p.table s) (s2cIdentify p.cfg p.table s k d).2
          (p.table.sessions s).addr := hproc
      refine ⟨fun addr haddr => ?_, fun s' => ?_⟩
      · rw [hs] at haddr
        refine addr_of_sendsTo_s2cTransform ?_ ?_ haddr
        · rfl
        · rfl
      · rw [hs, table_s2cTransform, peerSlot_s2cIdentify, s2cPeer_init _ hd hk0]

/-- A packet that nobody gets. -/
theorem goesToPeer_of_receive {p : Proxy} {i : ℕ} {d : Bytes} (k : ℤ) :
    GoesToPeer p (p.receive i d) k := by
  have hno : ∀ addr, ¬ SendsTo p (p.receive i d) addr := by
    intro addr
    rw [SendsTo, Proxy.receive]
    simp
  exact ⟨fun addr h => absurd h (hno addr), fun _ addr h => absurd h (hno addr),
    fun s j hs _ _ => hs.2⟩

/-- **One server-initiated handshake** goes to its own peer unless it is guessed to be for
a known other one. -/
theorem goesToPeer_iff {p : Proxy} {i : ℕ} {d : Bytes} {k : ℕ} (hmode : p.cfg.mode = .server)
    (hrecv : Receivable p i d) (hd : handshakeKind? d = some .init)
    (hk : VerifiesOnly p.cfg 116 d k) :
    GoesToPeer p (p.packet i d) k ↔ ¬ GuessesKnownPeer p.table k := by
  have hk0 : (0 : ℤ) ≤ k := Int.natCast_nonneg k
  have hproc := handsTo_packet hmode hrecv hd hk
  rcases hfind : sessionFindByPeer p.table k with _ | s
  · have hnone := (sessionFindByPeer_eq_none_iff hk0).mp hfind
    have hunknown : ∀ s, ¬ p.table.Knows s k := fun s hs => hnone s hs.1 hs.2
    rcases hsole : sessionFindSoleEntry p.table with _ | f
    · -- nobody to send to
      rw [hfind, hsole] at hproc
      have hpkt : p.packet i d = p.receive i d := hproc
      rw [hpkt]
      refine iff_of_true (goesToPeer_of_receive k) ?_
      rintro ⟨-, f, hf, -⟩
      rw [hsole] at hf
      contradiction
    · rw [hfind, hsole] at hproc
      have hhands : HandsTo p (p.packet i d) f k := hproc
      have hvalid := (sessionFindSoleEntry_eq_some_iff.mp hsole).1
      by_cases hbad : 0 ≤ (p.table.sessions f).peerSlot
      · have hne : (p.table.sessions f).peerSlot ≠ k := fun h => hunknown f ⟨hvalid, h⟩
        exact iff_of_false (hhands.not_goesToPeer hvalid hbad hne)
          (not_not.mpr ⟨hunknown, f, hsole, hbad, hne⟩)
      · refine iff_of_true (hhands.goesToPeer_of_unknown hunknown hvalid (by omega)) ?_
        rintro ⟨-, f', hf', hbad', -⟩
        obtain rfl := Option.some.inj (hsole.symm.trans hf')
        exact hbad hbad'
  · -- the first entry of the peer
    obtain ⟨-, hs, -⟩ := sessionFindByPeer_eq_some_iff.mp hfind
    rw [hfind] at hproc
    have hhands : HandsTo p (p.packet i d) s k := hproc
    refine iff_of_true (hhands.goesToPeer_of_knows hs) ?_
    rintro ⟨hno, -⟩
    exact hno s hs

/-! ### Whole runs -/

/-- The event, if it is an init of our WireGuard for one peer, keeps to that peer. -/
def KeepsToPeer (p : Proxy) (e : ServerEvent) : Prop :=
  ∀ i d k p', e = .packet i d → handshakeKind? d = some .init → VerifiesOnly p.cfg 116 d k →
    serverMachine.step p e = some p' → GoesToPeer p p' k

/-- The event, if it is an init of our WireGuard for one peer, is not guessed to be for a
known other one. -/
def NeverGuesses (p : Proxy) (e : ServerEvent) : Prop :=
  ∀ i d k, e = .packet i d → handshakeKind? d = some .init → VerifiesOnly p.cfg 116 d k →
    Receivable p i d → ¬ GuessesKnownPeer p.table k

theorem keepsToPeer_iff {p : Proxy} (hmode : p.cfg.mode = .server) (e : ServerEvent) :
    KeepsToPeer p e ↔ NeverGuesses p e := by
  constructor
  · rintro h i d k rfl hd hk hr
    exact (goesToPeer_iff hmode hr hd hk).mp
      (h i d k _ rfl hd hk (serverMachine_packet_eq_some.mpr ⟨hr, rfl⟩))
  · rintro h i d k p' rfl hd hk hstep
    obtain ⟨hr, rfl⟩ := serverMachine_packet_eq_some.mp hstep
    exact (goesToPeer_iff hmode hr hd hk).mpr (h i d k rfl hd hk hr)

/-- **Server-initiated handshakes.** In a run of the proxy every one of them keeps to its own
peer exactly when none is guessed to be for a known other one. -/
theorem forall_keepsToPeer_iff {p : Proxy} (h : ServerRuns p) (es : List ServerEvent) :
    serverMachine.Meets KeepsToPeer p es ↔ serverMachine.Meets NeverGuesses p es := by
  constructor
  · intro hkeeps pre e post p' hes hrun
    exact (keepsToPeer_iff (h.run hrun).mode e).mp (hkeeps pre e post p' hes hrun)
  · intro hnever pre e post p' hes hrun
    exact (keepsToPeer_iff (h.run hrun).mode e).mpr (hnever pre e post p' hes hrun)

/-- An init for a client that nobody has recognised yet keeps to its peer. -/
theorem forall_keepsToPeer_unknown : serverMachine.Meets KeepsToPeer hubProxy
    [.clientInit 0 5 (.v4 1 1) 0, .packet 0 (initFor 0)] := by
  refine (forall_keepsToPeer_iff hubProxy_runs _).mpr ?_
  rintro pre e post p hes hrun i d k rfl - - - ⟨-, f, hf, hknown, -⟩
  match pre with
  | [] => simp at hes
  | [_] =>
      simp only [List.cons_append, List.nil_append, List.cons.injEq] at hes
      obtain ⟨rfl, -⟩ := hes
      obtain rfl := Option.some.inj hrun
      have hsole : (sessionPutProf hubProxy.table 5 (.v4 1 1) 0).1.Sole 5 (.v4 1 1) (-1) :=
        SessionTable.Vacant.put (fun _ => rfl) 5 (.v4 1 1) 0
      obtain rfl := Option.some.inj (hsole.findSole.symm.trans hf)
      rw [hsole.peer] at hknown
      contradiction
  | _ :: _ :: pre' => simp at hes

/-- The only client has been recognised as peer 1 by a response. The next init, for peer 0,
is sent to it all the same, and makes it peer 0. -/
theorem not_keepsToPeer_known : ∃ p p', serverMachine.run hubProxy
      [.clientInit 1 5 (.v4 1 1) 0, .packet 0 (responseFor 1)] = some p ∧
    serverMachine.step p (.packet 1 (initFor 0)) = some p' ∧
    handshakeKind? (initFor 0) = some .init ∧ VerifiesOnly p.cfg 116 (initFor 0) 0 ∧
    p.table.Knows (homeSlot 5) 1 ∧ p'.table.Knows (homeSlot 5) 0 ∧ ¬ GoesToPeer p p' 0 := by
  obtain ⟨p₁, hrun, hcfg₁, h₁, hsole₁⟩ := hubProxy_clientInit 1
  -- the response recognises peer 1
  have hresp := handshakeKind?_responseFor 1
  have hr₁ := h₁.receivable (i := 0) (by decide) hresp
  have hkeys₁ : p₁.cfg.serverPeerMac1keys = [hubKey 0, hubKey 1] := by rw [hcfg₁]; rfl
  have hsole₂ := hsole₁.packet_response h₁.mode hr₁ hresp (by decide)
  rw [s2cPeer_response hresp (verifiesOnly_responseFor (by decide) hkeys₁)
    (peerMac1key_of_neg (by decide))] at hsole₂
  have hstep₂ := serverMachine_packet_eq_some.mpr ⟨hr₁, rfl⟩
  obtain ⟨h₂, w, hw⟩ := h₁.step hstep₂
  -- the init is for peer 0
  have hinit := handshakeKind?_initFor 0
  have hkeys₂ : (p₁.packet 0 (responseFor 1)).cfg.serverPeerMac1keys = [hubKey 0, hubKey 1] := by
    rw [hw]
    exact hkeys₁
  have hr₂ := h₂.receivable (i := 1) (by decide) hinit
  have hk := verifiesOnly_initFor (k := 0) (by decide) hkeys₂
  have hsole₃ := hsole₂.packet_init h₂.mode hr₂ hinit hk
  have hknown : (p₁.packet 0 (responseFor 1)).table.Knows (homeSlot 5) 1 :=
    ⟨(hsole₂.inUse _).mpr rfl, hsole₂.peer⟩
  have hrun₂ : serverMachine.run hubProxy
      ([.clientInit 1 5 (.v4 1 1) 0] ++ [.packet 0 (responseFor 1)]) =
        some (p₁.packet 0 (responseFor 1)) :=
    (Machine.run_concat_eq_some _).mpr ⟨p₁, hrun, hstep₂⟩
  refine ⟨_, _, hrun₂,
    serverMachine_packet_eq_some.mpr ⟨hr₂, rfl⟩, hinit, hk, hknown,
    ⟨(hsole₃.inUse _).mpr rfl, hsole₃.peer⟩, fun hgoes => ?_⟩
  have hkept := hgoes.kept (homeSlot 5) 1 hknown (by decide) (by decide)
  rw [hsole₃.peer] at hkept
  exact absurd hkept (by decide)

end AwgProxy
