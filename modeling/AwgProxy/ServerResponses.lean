import AwgProxy.Server

/-!
# Responses of the Server

A response of the local WireGuard goes to the entry of its receiver index, and its sum is
made anew under the key of the peer that is cached in the entry, or that the sum itself
names when none is. The cached peer is written by a response, by an init, by the guess of
the sole client, and kept when an index is recorded again.

* `packet_response` — what goes out, and under which key.
* `Recognised.step` — the cached peer of every entry is the peer its client is, as long as
  the clients and the guesses are right (`RightClient`).
* `authenticatedUnder_of_rightClient` — then every response goes out under the key of the
  peer it is for.
-/

namespace AwgProxy

/-! ### The response sent -/

/-- What the encoder makes of a response is queued. -/
theorem s2cTransform_response {q : Proxy} {base : Ptr PktBuf} {n headroom : ℕ}
    {prof : Fin awgMaxProfiles} (key : Option Bytes) (dest : CliAddr)
    (L : PktLayout q.mem (base.add headroom) headroom n) (hv : (q.cfg.profiles prof).Valid)
    {d : Bytes} (hread : q.mem.read (base.add headroom) n = d)
    (hd : handshakeKind? d = some .response) :
    ∃ e, (s2cTransform q base n headroom prof key dest).queue = q.queue ++ [e] ∧ e.addr = dest ∧
      (s2cTransform q base n headroom prof key dest).bytes e =
        encodeHandshake q.cfg (q.cfg.profiles prof) (q.cfg.profiles prof).s2.toNat
          (HandshakeKind.response.seed (fastrandU64 q.rngS2c))
          (HandshakeKind.response.rewrite (q.cfg.profiles prof) (key <|> q.cfg.mac1keyOut)
            (fastrandU64 q.rngS2c) d) := by
  obtain ⟨hty, hsz⟩ := handshakeKind?_eq_some_iff.mp hd
  have hn : n = HandshakeKind.response.size := by
    rw [← hsz, ← hread, Mem.length_read L.fits]
  have hty' : read32Le q.mem (base.add headroom) = HandshakeKind.response.type := by
    rw [read32Le_eq q.mem _ (by rw [hn]; exact HandshakeKind.four_le_size _ : 4 ≤ n), hread, hty]
  have hjunk : (transformOutboundProfile q.mem base headroom n q.cfg (q.cfg.profiles prof) key
      (fastrandU64 q.rngS2c)).sendJunk = false := by
    rw [transformOutboundProfile_eq_padHandshake hty' hn nofun]
    rfl
  obtain ⟨out, hout, hbytes, -⟩ := transformOutboundProfile_handshake key
    (fastrandU64 q.rngS2c) L hv hty' hn nofun rfl
  rw [hread] at hbytes
  rw [s2cTransform]
  dsimp only
  generalize transformOutboundProfile q.mem base headroom n q.cfg (q.cfg.profiles prof) key
    (fastrandU64 q.rngS2c) = r at hjunk hout hbytes ⊢
  rw [hout]
  dsimp only
  rw [hjunk, if_neg Bool.false_ne_true]
  exact ⟨⟨out, r.outLen, dest⟩, rfl, rfl, hbytes⟩

/-- The key a response for entry `s` goes out under: that of the peer it is taken to be
for, else the configured one. -/
def responseKey (p : Proxy) (s : Slot) (d : Bytes) : Option Bytes :=
  peerMac1key p.cfg (s2cPeer p.cfg (p.table.sessions s).peerSlot (-1) d) <|> p.cfg.mac1keyOut

/-- What goes out for the response `d`: its message under `key`, encoded in the client's
profile. -/
def encodedResponse (p : Proxy) (s : Slot) (msg : Bytes) : Bytes :=
  let pr := p.cfg.profiles (serverProf p.cfg p.table s)
  encodeHandshake p.cfg pr pr.s2.toNat (HandshakeKind.response.seed (fastrandU64 p.rngS2c)) msg

/-- The message of the response `d` under `key`. -/
def responseMsg (p : Proxy) (s : Slot) (key : Option Bytes) (d : Bytes) : Bytes :=
  HandshakeKind.response.rewrite (p.cfg.profiles (serverProf p.cfg p.table s)) key
    (fastrandU64 p.rngS2c) d

/-- **A response** that has an entry is queued for its client, under the key of the peer it
is taken to be for. -/
theorem packet_response {p : Proxy} {i : ℕ} {d : Bytes} {s : Slot} (h : ServerRuns p)
    (hr : Receivable p i d) (hd : handshakeKind? d = some .response)
    (hs : sessionGetEntry p.table (load32Le d 8) = some s) :
    ∃ e, (p.packet i d).queue = p.queue ++ [e] ∧ e.addr = (p.table.sessions s).addr ∧
      (p.packet i d).bytes e = encodedResponse p s (responseMsg p s (responseKey p s d) d) := by
  have hentry := sessions_sessionSetServerIndex p.table (some s) (load32Le d 4) s
  obtain ⟨haddr, hslot, hprof⟩ :
      ((sessionSetServerIndex p.table (some s) (load32Le d 4)).sessions s).addr =
        (p.table.sessions s).addr ∧
      ((sessionSetServerIndex p.table (some s) (load32Le d 4)).sessions s).peerSlot =
        (p.table.sessions s).peerSlot ∧
      ((sessionSetServerIndex p.table (some s) (load32Le d 4)).sessions s).prof =
        (p.table.sessions s).prof := by
    rw [hentry]
    split
    · exact ⟨rfl, rfl, rfl⟩
    · exact ⟨rfl, rfl, rfl⟩
  have hproc := Proxy.packet_handshake h.mode hr hd
  rw [s2cRoute_response p.table hd, hs] at hproc
  dsimp only at hproc
  rw [s2cIdentify_eq] at hproc
  dsimp only at hproc
  rw [hslot, haddr, serverProf, hprof] at hproc
  generalize sessionDropMovedPeer _ _ _ = t at hproc
  have hl := h.layout.receive hr
  have hlt : ((serverProf p.cfg p.table s : Fin awgMaxProfiles) : ℕ) < p.cfg.profileCount := by
    rw [serverProf]
    split
    · exact h.layout.entries s
    · exact h.layout.active
  obtain ⟨e, hqueue, haddr', hbytes⟩ := s2cTransform_response
    (q := { p.receive i d with table := t })
    (peerMac1key p.cfg (s2cPeer p.cfg (p.table.sessions s).peerSlot (-1) d))
    (p.table.sessions s).addr (hl.pktLayout hr.buffer (hr.le h.layout)) (h.layout.valid hlt)
    hr.read hd
  rw [hproc]
  exact ⟨e, hqueue, haddr', hbytes⟩

/-! ### The peer of each client -/

/-- The peer that the client of each entry is. An entry belongs to whoever it was recorded
for last. -/
def clientOf (p : Proxy) (e : ServerEvent) (_ : Proxy) (g : Slot → ℕ) : Slot → ℕ :=
  match e with
  | .clientInit peer index _ _ => Function.update g (putSlot p.table index) peer
  | .clientResponse peer index _ _ _ => Function.update g (putSlot p.table index) peer
  | .follow _ _ _ => g
  | .packet _ _ => g
  | .sendBatch => g

/-- The proxy beside that history. -/
def serverGhost : Machine (Proxy × (Slot → ℕ)) ServerEvent :=
  serverMachine.ghost clientOf

/-- An index that is still in the table is recorded again for its own client. -/
def OwnIndex (t : SessionTable) (g : Slot → ℕ) (peer : ℕ) (index : UInt32) : Prop :=
  t.Live (putSlot t index) index → g (putSlot t index) = peer

/-- Clients are who they are taken for: an index in use is its client's, a response is for
the peer that the client of its index is, and so is an init that falls back on the sole
client. -/
def RightClient (q : Proxy × (Slot → ℕ)) : ServerEvent → Prop
  | .clientInit peer index _ _ => OwnIndex q.1.table q.2 peer index
  | .clientResponse peer index _ _ _ => OwnIndex q.1.table q.2 peer index
  | .follow _ _ _ => True
  | .packet _ d =>
      (∀ s, sessionGetEntry q.1.table (load32Le d 8) = some s →
        0 ≤ configServerResolvePeerForResponse q.1.cfg d →
          configServerResolvePeerForResponse q.1.cfg d = q.2 s) ∧
      ∀ s, sessionFindByPeer q.1.table (configServerResolvePeerForInit q.1.cfg d) = none →
        sessionFindSoleEntry q.1.table = some s →
          0 ≤ configServerResolvePeerForInit q.1.cfg d →
            configServerResolvePeerForInit q.1.cfg d = q.2 s
  | .sendBatch => True

/-- The peer cached in an entry is the one its client is. -/
def Recognised (t : SessionTable) (g : Slot → ℕ) : Prop :=
  ∀ s, (t.sessions s).valid = true → 0 ≤ (t.sessions s).peerSlot →
    (t.sessions s).peerSlot = g s

/-- An empty table caches nothing. -/
theorem Recognised.of_vacant {t : SessionTable} (h : t.Vacant) (g : Slot → ℕ) :
    Recognised t g := by
  intro s hv
  rw [h s] at hv
  contradiction

/-- An insertion keeps the cached peer only for the index's own client. -/
theorem Recognised.put {t : SessionTable} {g : Slot → ℕ} (h : Recognised t g) {peer : ℕ}
    {index : UInt32} (hown : OwnIndex t g peer index) (addr : CliAddr)
    (prof : Fin awgMaxProfiles) :
    Recognised (sessionPutProf t index addr prof).1
      (Function.update g (putSlot t index) peer) := by
  intro s
  rw [sessionPutProf_eq]
  dsimp only
  by_cases hs : s = putSlot t index
  · subst hs
    rw [sessions_set_self, putEntry_valid, putEntry_peerSlot, Function.update_self]
    split
    · rename_i hlive
      intro _ h0
      rw [h _ hlive.1 h0, hown hlive]
    · intro _ h0
      contradiction
  · rw [sessions_set_of_ne t _ hs, Function.update_of_ne hs]
    exact h s

/-- What does not touch the cached peers keeps them right. -/
theorem Recognised.of_sessions {t t' : SessionTable} {g : Slot → ℕ} (h : Recognised t g)
    (ht : ∀ s, ((t'.sessions s).valid = true → (t.sessions s).valid = true) ∧
      (t'.sessions s).peerSlot = (t.sessions s).peerSlot) : Recognised t' g := by
  intro s hv h0
  rw [(ht s).2] at h0 ⊢
  exact h s ((ht s).1 hv) h0

/-- **A packet** caches no other peer than the one the client is. -/
theorem Recognised.packet {p : Proxy} {g : Slot → ℕ} {i : ℕ} {d : Bytes}
    (h : Recognised p.table g) (hmode : p.cfg.mode = .server) (hr : Receivable p i d)
    (hright : RightClient (p, g) (.packet i d)) : Recognised (p.packet i d).table g := by
  have hroute : ∀ s, ((s2cRoute p.cfg p.table d).table.sessions s).valid =
      (p.table.sessions s).valid ∧ ((s2cRoute p.cfg p.table d).table.sessions s).peerSlot =
        (p.table.sessions s).peerSlot := by
    intro s
    obtain ⟨sidx, hs⟩ := exists_sessions_s2cRoute p.cfg p.table d s
    rw [hs]
    exact ⟨rfl, rfl⟩
  have h' : Recognised (s2cRoute p.cfg p.table d).table g :=
    h.of_sessions fun s => ⟨fun hv => (hroute s).1 ▸ hv, (hroute s).2⟩
  rcases Proxy.table_packet hmode hr with heq | heq | ⟨s, hs, heq⟩
  · rw [heq]
    exact h
  · rw [heq]
    exact h'
  · rw [heq]
    intro s' hv h0
    have hv' := valid_of_valid_s2cIdentify hv
    rw [peerSlot_s2cIdentify] at h0 ⊢
    by_cases hself : s = s'
    · subst hself
      rw [if_pos rfl] at h0 ⊢
      -- the peer is the init's, the one cached, or the response's
      rcases s2cPeer_cases p.cfg ((s2cRoute p.cfg p.table d).table.sessions s).peerSlot
        (s2cRoute p.cfg p.table d).initPeer d with ⟨hk, hinit⟩ | hk | ⟨hk, hd⟩
      · rw [hk] at h0 ⊢
        obtain ⟨hres, hfind | ⟨hfind, hsole⟩⟩ := s2cRoute_initPeer hs hinit
        · obtain ⟨-, ⟨hvalid, hpeer⟩, -⟩ := sessionFindByPeer_eq_some_iff.mp hfind
          rw [← hpeer] at h0 ⊢
          exact h s hvalid h0
        · rw [hres] at h0 hfind ⊢
          exact hright.2 s hfind hsole h0
      · rw [hk] at h0 ⊢
        exact h' s hv' h0
      · rw [hk] at h0 ⊢
        rw [s2cRoute_response p.table hd] at hs
        exact hright.1 s hs h0
    · rw [if_neg hself] at h0 ⊢
      exact h' s' hv' h0

/-- **A step** with the right clients keeps every cached peer right. -/
theorem Recognised.step {q q' : Proxy × (Slot → ℕ)} {e : ServerEvent}
    (h : Recognised q.1.table q.2) (hmode : q.1.cfg.mode = .server) (hright : RightClient q e)
    (hstep : serverGhost.step q e = some q') : Recognised q'.1.table q'.2 := by
  obtain ⟨p, g⟩ := q
  obtain ⟨p', g'⟩ := q'
  obtain ⟨hmach, hg⟩ := Machine.step_ghost_eq_some.mp hstep
  dsimp only at h hmode hmach hg ⊢
  subst hg
  cases e with
  | clientInit peer index addr prof =>
      simp only [serverMachine, Option.ite_none_right_eq_some, Option.some.injEq] at hmach
      obtain ⟨-, rfl⟩ := hmach
      exact h.put hright addr prof
  | clientResponse peer index addr prof sidx =>
      simp only [serverMachine, Option.ite_none_right_eq_some, Option.some.injEq] at hmach
      obtain ⟨-, rfl⟩ := hmach
      refine (h.put hright addr prof).of_sessions fun s => ?_
      rw [sessions_sessionSetServerIndex]
      split
      · exact ⟨id, rfl⟩
      · exact ⟨id, rfl⟩
  | follow sidx src ctr =>
      obtain rfl := Option.some.inj hmach
      refine h.of_sessions fun s => ?_
      obtain ⟨a, c, n, hs⟩ := exists_sessions_sessionFollowClient p.table sidx src ctr s
      rw [hs]
      exact ⟨id, rfl⟩
  | packet i d =>
      obtain ⟨hr, rfl⟩ := serverMachine_packet_eq_some.mp hmach
      exact h.packet hmode hr hright
  | sendBatch =>
      obtain rfl := Option.some.inj hmach
      exact h

/-! ### Whole runs -/

/-- The response went to the client of entry `s` in a message whose sum is the one under
`key`. -/
def AuthenticatedUnder (p p' : Proxy) (s : Slot) (key : Bytes) : Prop :=
  ∃ e msg, p'.queue = p.queue ++ [e] ∧ e.addr = (p.table.sessions s).addr ∧
    p'.bytes e = encodedResponse p s msg ∧ msg.length = wgRespSize ∧
      msg.slice 60 16 = blake2s128mac key (msg.take 60)

/-- The message of a response has the sum under the key it was made with. -/
theorem responseMsg_spec (p : Proxy) (s : Slot) (key : Bytes) {d : Bytes}
    (hd : handshakeKind? d = some .response) :
    (responseMsg p s (some key) d).length = wgRespSize ∧
      (responseMsg p s (some key) d).slice 60 16 =
        blake2s128mac key ((responseMsg p s (some key) d).take 60) := by
  obtain ⟨-, hsz⟩ := handshakeKind?_eq_some_iff.mp hd
  have hsz' : d.length = 92 := hsz
  refine ⟨HandshakeKind.length_rewrite hsz, ?_⟩
  obtain ⟨x, hx, hmsg⟩ : ∃ x : Bytes, x.length = 92 ∧
      responseMsg p s (some key) d = x.patch 60 (blake2s128mac key (x.take 60)) :=
    ⟨_, (length_retype (by omega)).trans hsz', rfl⟩
  have hself := Bytes.slice_patch_self (d := blake2s128mac key (x.take 60))
    (by omega : 60 ≤ x.length)
  rw [length_blake2s128mac] at hself
  rw [hmsg, hself, Bytes.take_patch (by omega)]

/-- The bytes before the sum are those of the packet, under a type word of the profile. -/
theorem take_responseMsg (p : Proxy) (s : Slot) (key : Option Bytes) {d : Bytes}
    (hd : handshakeKind? d = some .response) :
    (responseMsg p s key d).take 60 =
      (retype (hrangePick (p.cfg.profiles (serverProf p.cfg p.table s)).h2
        (fastrandU64 p.rngS2c)) d).take 60 := by
  have hsz : d.length = 92 := (handshakeKind?_eq_some_iff.mp hd).2
  cases key with
  | none => rfl
  | some key => exact Bytes.take_patch (by rw [length_retype (by omega)]; omega)

/-- A response whose peer has a key is authenticated under it. -/
theorem authenticatedUnder_packet {p : Proxy} {i : ℕ} {d : Bytes} {s : Slot} {key : Bytes}
    (h : ServerRuns p) (hr : Receivable p i d) (hd : handshakeKind? d = some .response)
    (hs : sessionGetEntry p.table (load32Le d 8) = some s)
    (hkey : peerMac1key p.cfg (s2cPeer p.cfg (p.table.sessions s).peerSlot (-1) d) = some key) :
    AuthenticatedUnder p (p.packet i d) s key := by
  obtain ⟨e, hqueue, haddr, hbytes⟩ := packet_response h hr hd hs
  obtain ⟨hlen, hmac⟩ := responseMsg_spec p s key hd
  have hkey' : responseKey p s d = some key := by
    rw [responseKey, hkey]
    rfl
  rw [hkey'] at hbytes
  exact ⟨e, _, hqueue, haddr, hbytes, hlen, hmac⟩

/-- The event, if it is a response for one peer that has an entry, goes out under the key
of that peer. -/
def Authenticates (p : Proxy) (e : ServerEvent) : Prop :=
  ∀ i d s k key p', e = .packet i d → handshakeKind? d = some .response →
    sessionGetEntry p.table (load32Le d 8) = some s → VerifiesOnly p.cfg 60 d k →
      p.cfg.serverPeerMac1keys[k]? = some key → serverMachine.step p e = some p' →
        AuthenticatedUnder p p' s key

/-- With the right clients so far, a response is taken to be for its own peer. -/
theorem Recognised.authenticates {p : Proxy} {g : Slot → ℕ} {e : ServerEvent}
    (h : Recognised p.table g) (hp : ServerRuns p) (hright : RightClient (p, g) e) :
    Authenticates p e := by
  rintro i d s k key p' rfl hd hs hk hkey hstep
  obtain ⟨hr, rfl⟩ := serverMachine_packet_eq_some.mp hstep
  refine authenticatedUnder_packet hp hr hd hs ?_
  have hpeer : s2cPeer p.cfg (p.table.sessions s).peerSlot (-1) d = k := by
    by_cases hno : peerMac1key p.cfg (p.table.sessions s).peerSlot = none
    · exact s2cPeer_response hd hk hno
    · -- the entry is recognised, as the peer its client is
      have h0 : 0 ≤ (p.table.sessions s).peerSlot := by
        by_contra hneg
        exact hno (peerMac1key_of_neg (by omega))
      obtain ⟨-, -, -, hlive, -⟩ := sessionGetEntry_eq_some_iff.mp hs
      have hres := configServerResolvePeerForResponse_of_verifiesOnly hd hk
      have hclient := hright.1 s hs (by rw [hres]; exact Int.natCast_nonneg k)
      rw [s2cPeer_response_of_known hno, h s hlive.1 h0, ← hclient, hres]
  rw [hpeer, peerMac1key, if_pos (Int.natCast_nonneg k), Int.toNat_natCast, hkey]

/-- **Responses of the server.** In a run from an empty table whose clients are who they are
taken for, every response goes out under the key of its own peer. -/
theorem forall_authenticates_of_rightClient {p : Proxy} {g : Slot → ℕ}
    {es : List ServerEvent} (h : ServerRuns p) (hempty : p.table.Vacant)
    (hright : serverGhost.Meets RightClient (p, g) es) :
    serverMachine.Meets Authenticates p es := by
  intro pre e post p' hes hrun
  obtain ⟨g', hrun'⟩ := Machine.exists_run_ghost clientOf g hrun
  have hpre : serverGhost.Meets RightClient (p, g) pre := (hes ▸ hright).of_append
  have hstep : ∀ q e q', ServerRuns q.1 ∧ Recognised q.1.table q.2 → RightClient q e →
      serverGhost.step q e = some q' → ServerRuns q'.1 ∧ Recognised q'.1.table q'.2 := by
    rintro q e q' ⟨hruns, hrec⟩ hq hstep
    exact ⟨(hruns.step (Machine.step_ghost_eq_some.mp hstep).1).1,
      hrec.step hruns.mode hq hstep⟩
  obtain ⟨hruns, hrec⟩ := Machine.guarded_induction hstep
    ⟨h, Recognised.of_vacant hempty g⟩ hpre hrun'
  exact hrec.authenticates hruns (hright pre e post (p', g') hes hrun')

/-- The first response to the hub's first client goes out under its key. -/
theorem forall_authenticates_first : serverMachine.Meets Authenticates hubProxy
    [.clientInit 1 5 (.v4 1 1) 0, .packet 0 (responseFor 1)] := by
  have hvacant : hubProxy.table.Vacant := fun _ => rfl
  refine forall_authenticates_of_rightClient (g := fun _ => 0) hubProxy_runs hvacant ?_
  rintro pre e post ⟨p, g⟩ hes hrun
  match pre with
  | [] =>
      obtain rfl := List.head_eq_of_cons_eq hes
      obtain ⟨rfl, rfl⟩ := Prod.mk.inj (Option.some.inj hrun)
      intro hlive
      rw [SessionTable.Live, hvacant] at hlive
      exact absurd hlive.1 Bool.false_ne_true
  | [e₀] =>
      simp only [List.cons_append, List.nil_append, List.cons.injEq] at hes
      obtain ⟨rfl, rfl, -⟩ := hes
      obtain ⟨rfl, rfl⟩ := Prod.mk.inj (Option.some.inj hrun)
      have hresp := handshakeKind?_responseFor 1
      have hsole := hvacant.put 5 (.v4 1 1) 0
      refine ⟨fun s hs _ => ?_, fun s _ _ hinit => ?_⟩
      · have hs5 : sessionGetEntry (sessionPutProf hubProxy.table 5 (.v4 1 1) 0).1 5 = some s := hs
        obtain rfl := Option.some.inj (hsole.getEntry.symm.trans hs5)
        have hk : VerifiesOnly hubProxy.cfg 60 (responseFor 1) 1 :=
          verifiesOnly_responseFor (by decide) rfl
        have hres := configServerResolvePeerForResponse_of_verifiesOnly hresp hk
        have hclient : Function.update (fun _ => 0) (putSlot hubProxy.table 5) 1 (homeSlot 5) =
            1 := by
          rw [hvacant.putSlot_eq, Function.update_self]
        exact hres.trans (congrArg Nat.cast hclient.symm)
      · have hsz := (handshakeKind?_eq_some_iff.mp hresp).2
        have hno : configServerResolvePeerForInit hubProxy.cfg (responseFor 1) = -1 := by
          rw [configServerResolvePeerForInit, if_pos]
          exact Or.inl (by rw [hsz]; decide)
        exact absurd (le_of_le_of_eq hinit hno) (by decide)
  | _ :: _ :: pre' => simp at hes

/-- The hub guesses that its only client is peer 0. The response for that client, which is
peer 1, goes out under the key of peer 0. -/
theorem not_authenticates_guessed : ∃ p p', serverMachine.run hubProxy
      [.clientInit 1 5 (.v4 1 1) 0, .packet 0 (initFor 0)] = some p ∧
    serverMachine.step p (.packet 1 (responseFor 1)) = some p' ∧
    handshakeKind? (responseFor 1) = some .response ∧
    sessionGetEntry p.table (load32Le (responseFor 1) 8) = some (homeSlot 5) ∧
    VerifiesOnly p.cfg 60 (responseFor 1) 1 ∧ p.cfg.serverPeerMac1keys[1]? = some (hubKey 1) ∧
    AuthenticatedUnder p p' (homeSlot 5) (hubKey 0) ∧
    ¬ AuthenticatedUnder p p' (homeSlot 5) (hubKey 1) := by
  obtain ⟨p₁, hrun, hcfg₁, h₁, hsole₁⟩ := hubProxy_clientInit 1
  have hkeys₁ : p₁.cfg.serverPeerMac1keys = [hubKey 0, hubKey 1] := by rw [hcfg₁]; rfl
  -- the init for peer 0 goes to the only client
  have hinit := handshakeKind?_initFor 0
  have hr₁ := h₁.receivable (i := 0) (by decide) hinit
  have hsole₂ := hsole₁.packet_init h₁.mode hr₁ hinit
    (verifiesOnly_initFor (k := 0) (by decide) hkeys₁)
  have hstep₂ := serverMachine_packet_eq_some.mpr ⟨hr₁, rfl⟩
  obtain ⟨h₂, w, hw⟩ := h₁.step hstep₂
  have hrun₂ : serverMachine.run hubProxy
      ([.clientInit 1 5 (.v4 1 1) 0] ++ [.packet 0 (initFor 0)]) =
        some (p₁.packet 0 (initFor 0)) :=
    (Machine.run_concat_eq_some _).mpr ⟨p₁, hrun, hstep₂⟩
  generalize p₁.packet 0 (initFor 0) = p₂ at hsole₂ h₂ hw hrun₂
  have hcfg₂ : p₂.cfg = { hubProxy.cfg with udpWindow := w } := hcfg₁ ▸ hw
  have hkeys₂ : p₂.cfg.serverPeerMac1keys = [hubKey 0, hubKey 1] := by rw [hcfg₂]; rfl
  -- the response is for peer 1
  have hresp := handshakeKind?_responseFor 1
  have hr₂ := h₂.receivable (i := 1) (by decide) hresp
  have hentry : sessionGetEntry p₂.table (load32Le (responseFor 1) 8) = some (homeSlot 5) := by
    rw [show load32Le (responseFor 1) 8 = 5 by decide, hsole₂.getEntry]
  have hkey : peerMac1key p₂.cfg (s2cPeer p₂.cfg (p₂.table.sessions (homeSlot 5)).peerSlot (-1)
      (responseFor 1)) = some (hubKey 0) := by
    have hknown : peerMac1key p₂.cfg (0 : ℕ) = some (hubKey 0) := by
      rw [peerMac1key, hkeys₂]
      rfl
    rw [hsole₂.peer, s2cPeer_response_of_known (by rw [hknown]; exact Option.some_ne_none _),
      hknown]
  obtain ⟨e, hqueue, haddr, hbytes⟩ := packet_response h₂ hr₂ hresp hentry
  refine ⟨_, _, hrun₂, serverMachine_packet_eq_some.mpr ⟨hr₂, rfl⟩, hresp, hentry,
    verifiesOnly_responseFor (by decide) hkeys₂, by rw [hkeys₂]; rfl,
    authenticatedUnder_packet h₂ hr₂ hresp hentry hkey, ?_⟩
  rintro ⟨e', msg, hqueue', -, hbytes', hlen, hmac⟩
  have hrespKey : responseKey p₂ (homeSlot 5) (responseFor 1) = some (hubKey 0) := by
    rw [responseKey, hkey]
    rfl
  rw [hrespKey] at hbytes
  obtain ⟨hlen₀, hmac₀⟩ := responseMsg_spec p₂ (homeSlot 5) (hubKey 0) hresp
  -- the message sent is known, and its sum is the one under the key of peer 0
  obtain rfl : e = e' := by simpa using hqueue.symm.trans hqueue'
  obtain rfl := encodeHandshake_inj (hlen.trans hlen₀.symm) (hbytes'.symm.trans hbytes)
  have hbody : (responseMsg p₂ (homeSlot 5) (some (hubKey 0)) (responseFor 1)).take 60 =
      responseBody := by
    rw [take_responseMsg p₂ _ _ hresp, hcfg₂]
    have hpick := hrangePick_single 2 (fastrandU64 p₂.rngS2c)
    have hret : retype 2 (responseFor 1) = responseFor 1 :=
      retype_of_load32Le (by rw [(handshakeKind?_eq_some_iff.mp hresp).2]; decide)
        (handshakeKind?_eq_some_iff.mp hresp).1
    calc
      _ = (retype (hrangePick (.single 2) (fastrandU64 p₂.rngS2c)) (responseFor 1)).take 60 := rfl
      _ = (responseFor 1).take 60 := by rw [hpick, hret]
      _ = responseBody := take_signed (hubKey 1) responseBody
  rw [hmac₀, hbody] at hmac
  exact absurd hmac (by decide +kernel)

end AwgProxy
