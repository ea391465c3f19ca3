import AwgProxy.C2sReverse

/-!
# Stages of a Responder

Runs of the c2s thread in reverse and server mode over a chain of profile stages. A datagram
that the expected stage does not decode is tried under the others, and the first that finds
anything in it, handshake or transport data, is adopted. In reverse mode this moves the one
stage of the proxy; in server mode the stage of a client is recorded with its handshakes.

* `c2sDecode_cases` — the stage a datagram is decoded under, in terms of what each stage of
  the chain finds in it.
* `adopts_iff` — in reverse mode, when the stage moves, and at what.
* `StageInv.step` — an entry of the session table has the stage its index was last recorded
  under.
* `stageRule_iff` — the stage of a responder moves at handshakes only, exactly in the runs
  without stray transport data.
-/

namespace AwgProxy

/-! ### The stage a datagram is decoded under -/

/-- What stage `k` finds in the datagram of `n` bytes at `pkt`. -/
def stageFinds (m : Mem PktBuf) (pkt : Ptr PktBuf) (n : ℕ) (cfg : AwgConfig)
    (k : Fin awgMaxProfiles) : Option InboundMessage :=
  inboundMessage? m pkt n cfg (cfg.profiles k)

/-- The first stage of the chain, other than `prof`, that finds something. -/
def otherStage? (m : Mem PktBuf) (pkt : Ptr PktBuf) (n : ℕ) (cfg : AwgConfig)
    (prof : Fin awgMaxProfiles) : Option (Fin awgMaxProfiles) :=
  cfg.stages.find? fun k => k ≠ prof && (stageFinds m pkt n cfg k).isSome

/-- Every stage of the chain was accepted, and one of them is active. -/
structure AwgConfig.AcceptedChain (cfg : AwgConfig) : Prop where
  accepted : ∀ k : Fin awgMaxProfiles, (k : ℕ) < cfg.profileCount →
    ∃ pr : AcceptedProfile, cfg.profiles k = pr.toAwgProfile
  active : (cfg.activeProfile : ℕ) < cfg.profileCount

theorem mem_stages_iff {cfg : AwgConfig} {k : Fin awgMaxProfiles} :
    k ∈ cfg.stages ↔ (k : ℕ) < cfg.profileCount := by
  rw [AwgConfig.stages, List.mem_take_iff_getElem]
  constructor
  · rintro ⟨i, hi, rfl⟩
    rw [List.getElem_finRange]
    exact lt_of_lt_of_le hi (Nat.min_le_left _ _)
  · intro hk
    refine ⟨k, ?_, ?_⟩
    · rw [List.length_finRange]
      exact lt_min hk k.isLt
    · rw [List.getElem_finRange]
      rfl

section

variable {cfg : AwgConfig} {m : Mem PktBuf} {pkt : Ptr PktBuf} {n : ℕ} {ks : Option Bytes}

/-- A stage of an accepted chain returns a message that begins with the type of what it
finds. -/
theorem transformInboundProfile_of_stageFinds (hchain : cfg.AcceptedChain)
    (hks : KsValid cfg m pkt ks) (hf : m.Fits pkt n) {k : Fin awgMaxProfiles}
    (hk : (k : ℕ) < cfg.profileCount) {msg : InboundMessage}
    (h : stageFinds m pkt n cfg k = some msg) :
    ∃ q l, (transformInboundProfile m pkt n cfg (cfg.profiles k) ks).out = some (q, l) ∧
      read32Le (transformInboundProfile m pkt n cfg (cfg.profiles k) ks).mem q = msg.type ∧
      ∀ j, msg = .handshake j → l = j.size := by
  obtain ⟨pr, hpr⟩ := hchain.accepted k hk
  rw [stageFinds, hpr] at h
  rw [hpr]
  exact transformInboundProfile_of_some hks hf h

/-- The walk stops at the first other stage that finds something. -/
theorem c2sWalk_cases (hchain : cfg.AcceptedChain) (hf : m.Fits pkt n)
    (prof : Fin awgMaxProfiles) {stages : List (Fin awgMaxProfiles)}
    (hstages : ∀ k ∈ stages, (k : ℕ) < cfg.profileCount) {r : InboundResult} (hmem : r.mem = m)
    (hout : r.out = none) (hks : KsValid cfg m pkt r.ks) :
    let other := stages.find? fun k => k ≠ prof && (stageFinds m pkt n cfg k).isSome
    let d := c2sWalk pkt n cfg prof stages r
    other = none ∧ d.1 = prof ∧ d.2.out = none ∨
      ∃ k ks, other = some k ∧ d.1 = k ∧ KsValid cfg m pkt ks ∧
        d.2 = transformInboundProfile m pkt n cfg (cfg.profiles k) ks := by
  induction stages generalizing r with
  | nil => exact Or.inl ⟨rfl, rfl, hout⟩
  | cons k stages ih =>
      have hrest : ∀ j ∈ stages, (j : ℕ) < cfg.profileCount :=
        fun j hj => hstages j (List.mem_cons_of_mem k hj)
      dsimp only at ih ⊢
      rw [c2sWalk, List.find?_cons]
      by_cases hk : k = prof
      · rw [if_pos hk, decide_eq_false (not_not.mpr hk), Bool.false_and]
        exact ih hrest hmem hout hks
      rw [if_neg hk, decide_eq_true hk, Bool.true_and, hmem]
      dsimp only
      rcases hfinds : stageFinds m pkt n cfg k with _ | msg
      · obtain ⟨hmem', hout'⟩ := transformInboundProfile_of_none hks hfinds
        rw [hout', Option.isSome_none, Option.isSome_none, if_neg Bool.false_ne_true]
        exact ih hrest hmem' hout' (hks.transformInboundProfile n (cfg.profiles k))
      · obtain ⟨q, l, hout', -⟩ := transformInboundProfile_of_stageFinds hchain hks hf
          (hstages k List.mem_cons_self) hfinds
        rw [hout', Option.isSome_some, Option.isSome_some, if_pos rfl]
        exact Or.inr ⟨k, r.ks, rfl, rfl, hks, rfl⟩

/-- **The stage a datagram is decoded under**: the expected one if it finds something, else
the first other one that does. -/
theorem c2sDecode_cases (hchain : cfg.AcceptedChain) (hf : m.Fits pkt n)
    {prof : Fin awgMaxProfiles} (hprof : (prof : ℕ) < cfg.profileCount)
    (hks : KsValid cfg m pkt ks) :
    let d := c2sDecode m pkt n cfg prof ks
    (stageFinds m pkt n cfg prof).isSome = true ∧ d.1 = prof ∨
      stageFinds m pkt n cfg prof = none ∧
        (otherStage? m pkt n cfg prof = none ∧ d.1 = prof ∧ d.2.out = none ∨
          ∃ k ks, otherStage? m pkt n cfg prof = some k ∧ d.1 = k ∧ KsValid cfg m pkt ks ∧
            d.2 = transformInboundProfile m pkt n cfg (cfg.profiles k) ks) := by
  dsimp only
  rw [c2sDecode]
  rcases hfinds : stageFinds m pkt n cfg prof with _ | msg
  · right
    obtain ⟨hmem, hout⟩ := transformInboundProfile_of_none hks hfinds
    refine ⟨rfl, ?_⟩
    by_cases hmulti : cfg.profileCount > 1
    · rw [hout, if_pos ⟨rfl, hmulti⟩]
      exact c2sWalk_cases hchain hf prof (fun k hk => mem_stages_iff.mp hk) hmem hout
        (hks.transformInboundProfile n (cfg.profiles prof))
    · rw [if_neg fun h => hmulti h.2]
      -- a chain of one stage has no other
      have hnone : otherStage? m pkt n cfg prof = none := by
        rw [otherStage?, List.find?_eq_none]
        intro k hk
        have hk := mem_stages_iff.mp hk
        have hsame : k = prof := Fin.ext (by omega)
        simp [hsame]
      exact Or.inl ⟨hnone, rfl, hout⟩
  · left
    obtain ⟨q, l, hout, -⟩ := transformInboundProfile_of_stageFinds hchain hks hf hprof hfinds
    rw [hout, if_neg fun h => Bool.false_ne_true h.1]
    exact ⟨rfl, rfl⟩

/-- The other stage belongs to the chain, and finds something. -/
theorem otherStage?_eq_some {prof k : Fin awgMaxProfiles}
    (h : otherStage? m pkt n cfg prof = some k) :
    (k : ℕ) < cfg.profileCount ∧ k ≠ prof ∧ ∃ msg, stageFinds m pkt n cfg k = some msg := by
  have hmem := mem_stages_iff.mp (List.mem_of_find?_eq_some h)
  have hk := List.find?_some h
  rw [Bool.and_eq_true, decide_eq_true_eq, Option.isSome_iff_exists] at hk
  exact ⟨hmem, hk⟩

/-- Where the fast path finds transport data, so does the decoder, unless it finds a
handshake. -/
theorem isSome_stageFinds_of_takesFastPath {p : C2sProxy} {k : Fin awgMaxProfiles}
    (hchain : p.cfg.AcceptedChain) (hk : (k : ℕ) < p.cfg.profileCount)
    (h : takesFastPath p pkt n (p.cfg.profiles k) = true) :
    (stageFinds p.mem pkt n p.cfg k).isSome = true := by
  obtain ⟨pr, hpr⟩ := hchain.accepted k hk
  rw [stageFinds, hpr]
  rw [hpr, takesFastPath, Bool.and_eq_true] at h
  obtain ⟨hchecks, hhdr⟩ := h
  have hlen := hchecks
  rw [c2sChecksTransport, Bool.and_eq_true, decide_eq_true_eq] at hlen
  have hs0 := pr.valid.s4_mem.1
  have h32 : (32 : ℤ) = wgTransportMin := rfl
  have h12 : (12 : ℕ) = awgHpMinPadding := rfl
  have hks : c2sFastKs p pkt n pr.toAwgProfile =
      recvKs p.cfg p.mem pkt pr.toAwgProfile none := by
    rw [c2sFastKs, recvKs, hchecks, Bool.true_and]
  have htransport : matchesTransport p.mem pkt n pr.toAwgProfile
      (recvKs p.cfg p.mem pkt pr.toAwgProfile none) = true := by
    rw [matchesTransport, Bool.and_eq_true, decide_eq_true_eq, ← hks]
    exact ⟨hlen.1, hhdr⟩
  have hshort : ¬ (pr.hpOn = true ∧ n < awgHpMinPadding) := by
    rintro ⟨-, hlt⟩
    omega
  rw [inboundMessage?, if_neg (by omega), if_neg hshort, if_pos htransport]
  split
  · rfl
  split
  · rfl
  split
  · rfl
  split
  · rfl
  · rfl

end

/-! ### The stage of the proxy in reverse mode -/

/-- Parts of the configuration that no datagram changes. -/
structure SameChain (cfg cfg' : AwgConfig) : Prop where
  profiles : cfg'.profiles = cfg.profiles
  count : cfg'.profileCount = cfg.profileCount
  mode : cfg'.mode = cfg.mode

theorem SameChain.refl (cfg : AwgConfig) : SameChain cfg cfg :=
  ⟨rfl, rfl, rfl⟩

theorem SameChain.trans {cfg cfg' cfg'' : AwgConfig} (h : SameChain cfg cfg')
    (h' : SameChain cfg' cfg'') : SameChain cfg cfg'' :=
  ⟨h'.profiles.trans h.profiles, h'.count.trans h.count, h'.mode.trans h.mode⟩

/-- The chain stays accepted as long as the active stage is one of it. -/
theorem SameChain.acceptedChain {cfg cfg' : AwgConfig} (h : SameChain cfg cfg')
    (hchain : cfg.AcceptedChain) (hactive : (cfg'.activeProfile : ℕ) < cfg.profileCount) :
    cfg'.AcceptedChain where
  accepted k hk := by
    rw [h.profiles]
    exact hchain.accepted k (h.count ▸ hk)
  active := h.count.symm ▸ hactive

section

variable {p : C2sProxy} {src : CliAddr} {pkt : Ptr PktBuf} {n : ℕ}

theorem sameChain_awgWindowNote (cfg : AwgConfig) (n : ℕ) :
    SameChain cfg (awgWindowNote cfg n) ∧
      (awgWindowNote cfg n).activeProfile = cfg.activeProfile := by
  rw [awgWindowNote]
  split
  · exact ⟨⟨rfl, rfl, rfl⟩, rfl⟩
  · exact ⟨.refl cfg, rfl⟩

theorem c2sFastPath_cfg (p : C2sProxy) (src : CliAddr) (pkt : Ptr PktBuf) (n : ℕ)
    (pr : AwgProfile) : (c2sFastPath p src pkt n pr).cfg = awgWindowNote p.cfg n := by
  rw [c2sFastPath]
  dsimp only
  rw [cfg_queueSend]
  split
  · rfl
  · rfl

/-- The slow path changes the configuration by adopting a stage at most. -/
theorem c2sSlowPath_cfg (src : CliAddr) {prof : Fin awgMaxProfiles} {ks : Option Bytes}
    {d : Fin awgMaxProfiles × InboundResult} (hd : c2sDecode p.mem pkt n p.cfg prof ks = d) :
    (c2sSlowPath p src pkt n prof ks).cfg =
      if d.2.out.isSome ∧ d.1 ≠ prof ∧ p.cfg.mode ≠ .server then configApplyProfile p.cfg d.1
      else p.cfg := by
  rw [c2sSlowPath, hd]
  dsimp only
  rcases d.2.out with _ | ⟨out, len⟩
  · exact (if_neg fun h => Bool.false_ne_true h.1).symm
  · dsimp only
    rw [cfg_queueSend]
    -- recording does not touch the configuration
    have hrecord : ∀ (c : Prop) [Decidable c] (q : C2sProxy),
        (if c then c2sRecord q src out len d.1 else q).cfg = q.cfg := by
      intro c _ q
      split
      · exact (c2sRecord_frame q src out len d.1).2.2
      · rfl
    rw [hrecord]
    by_cases hd : d.1 = prof
    · rw [if_pos hd, if_neg fun h => h.2.1 hd]
    · rw [if_neg hd, c2sAdopt]
      dsimp only
      by_cases hmode : p.cfg.mode = .server
      · rw [if_pos hmode, if_neg fun h => h.2.2 hmode]
        rfl
      · rw [if_neg hmode, if_pos ⟨rfl, hd, hmode⟩]

/-- An empty datagram has nothing in it for any stage. -/
theorem otherStage?_zero (m : Mem PktBuf) (pkt : Ptr PktBuf) (cfg : AwgConfig)
    (prof : Fin awgMaxProfiles) : otherStage? m pkt 0 cfg prof = none := by
  rw [otherStage?, List.find?_eq_none]
  intro k _
  have hnone : stageFinds m pkt 0 cfg k = none := by
    rw [stageFinds, inboundMessage?, if_pos (by decide)]
  rw [hnone]
  simp

/-- The keystream block of the fast path is the one of the datagram. -/
theorem ksValid_c2sFastKs (p : C2sProxy) (pkt : Ptr PktBuf) (n : ℕ) (pr : AwgProfile) :
    KsValid p.cfg p.mem pkt (c2sFastKs p pkt n pr) := by
  intro k hk
  rw [c2sFastKs] at hk
  split at hk
  · exact (Option.some.inj hk).symm
  · contradiction

/-- **One datagram in reverse mode.** The stage stays where it is, unless it finds nothing
and another one finds something: then that one is adopted, and what it has found is
queued. -/
theorem reversePkt_cases (hmode : p.cfg.mode = .reverse) (hchain : p.cfg.AcceptedChain)
    (hf : p.mem.Fits pkt n) {p' : C2sProxy} (hp' : p' = c2sThreadReversePkt p src pkt n) :
    let active := p.cfg.activeProfile
    SameChain p.cfg p'.cfg ∧
      (p'.cfg.activeProfile = active ∧
          ((stageFinds p.mem pkt n p.cfg active).isSome = true ∨
            otherStage? p.mem pkt n p.cfg active = none) ∨
        stageFinds p.mem pkt n p.cfg active = none ∧
          ∃ k msg, otherStage? p.mem pkt n p.cfg active = some k ∧
            stageFinds p.mem pkt n p.cfg k = some msg ∧ p'.cfg.activeProfile = k ∧
            ∃ out len, p'.queue.getLast? = some (out, len) ∧ read32Le p'.mem out = msg.type ∧
              ∀ j, msg = .handshake j → len = j.size) := by
  have hstage : c2sExpectedStage p src = p.cfg.activeProfile := by
    rw [c2sExpectedStage, hmode]
    exact if_neg fun h => nomatch h.2
  dsimp only
  rw [c2sThreadReversePkt, hstage] at hp'
  by_cases hn : n = 0
  · rw [if_pos hn] at hp'
    subst hn hp'
    exact ⟨.refl _, Or.inl ⟨rfl, Or.inr (otherStage?_zero ..)⟩⟩
  rw [if_neg hn] at hp'
  dsimp only at hp'
  by_cases hfast : takesFastPath p pkt n (p.cfg.profiles p.cfg.activeProfile) = true
  · rw [if_pos hfast] at hp'
    obtain ⟨hsame, hactive⟩ := sameChain_awgWindowNote p.cfg n
    rw [hp', c2sFastPath_cfg]
    exact ⟨hsame, Or.inl ⟨hactive,
      Or.inl (isSome_stageFinds_of_takesFastPath hchain hchain.active hfast)⟩⟩
  rw [if_neg hfast] at hp'
  have hcases := c2sDecode_cases hchain hf hchain.active
    (ksValid_c2sFastKs p pkt n (p.cfg.profiles p.cfg.activeProfile))
  obtain ⟨hmem, hqueue⟩ := c2sSlowPath_frame p.flush src pkt n p.cfg.activeProfile
    (c2sFastKs p pkt n (p.cfg.profiles p.cfg.activeProfile))
  obtain ⟨d, hd⟩ : ∃ d, c2sDecode p.mem pkt n p.cfg p.cfg.activeProfile
      (c2sFastKs p pkt n (p.cfg.profiles p.cfg.activeProfile)) = d := ⟨_, rfl⟩
  have hd' : c2sDecode p.flush.mem pkt n p.flush.cfg p.cfg.activeProfile
      (c2sFastKs p pkt n (p.cfg.profiles p.cfg.activeProfile)) = d := hd
  have hcfg := c2sSlowPath_cfg src hd'
  rw [hd', ← hp'] at hmem hqueue
  rw [← hp'] at hcfg
  rw [hd] at hcases
  have hmode' : p.flush.cfg.mode ≠ .server := by
    intro h
    rw [show p.flush.cfg.mode = .reverse from hmode] at h
    contradiction
  rcases hcases with ⟨hsome, hd1⟩ | ⟨hnone, ⟨hother, hd1, -⟩ | ⟨k, ks, hother, hd1, hks, hd2⟩⟩
  · rw [if_neg fun h => h.2.1 hd1] at hcfg
    rw [hcfg]
    exact ⟨.refl _, Or.inl ⟨rfl, Or.inl hsome⟩⟩
  · rw [if_neg fun h => h.2.1 hd1] at hcfg
    rw [hcfg]
    exact ⟨.refl _, Or.inl ⟨rfl, Or.inr hother⟩⟩
  · obtain ⟨hk, hne, msg, hfinds⟩ := otherStage?_eq_some hother
    obtain ⟨q, l, hout, htype, hlen⟩ :=
      transformInboundProfile_of_stageFinds hchain hks hf hk hfinds
    rw [← hd2] at hout htype
    rw [if_pos ⟨by rw [hout]; rfl, by rw [hd1]; exact hne, hmode'⟩, hd1] at hcfg
    rw [hcfg, hmem, hqueue, hout]
    exact ⟨⟨rfl, rfl, rfl⟩, Or.inr ⟨hnone, k, msg, hother, hfinds, rfl, q, l, rfl, htype, hlen⟩⟩

end

/-! ### The stage of an entry in server mode -/

/-- The init or response the datagram of `n` bytes at `pkt` is recorded as: the index of its
sender and the stage it was decoded under. -/
def recordedStage (p : C2sProxy) (src : CliAddr) (pkt : Ptr PktBuf) (n : ℕ) :
    Option (UInt32 × Fin awgMaxProfiles) :=
  let prof := c2sExpectedStage p src
  if n = 0 ∨ takesFastPath p pkt n (p.cfg.profiles prof) = true ∨
      ¬ (p.cfg.mode = .server ∧ src.family = p.listenFamily) then none
  else
    let d := c2sDecode p.mem pkt n p.cfg prof (c2sFastKs p pkt n (p.cfg.profiles prof))
    d.2.out.bind fun out => (recordedIndex d.2.mem out.1 out.2).map fun idx => (idx, d.1)

/-- A table with the same entries, up to what is known of their sessions and where they
are. -/
def SameStages (t t' : SessionTable) : Prop :=
  ∀ s, (t'.sessions s).valid = (t.sessions s).valid ∧
    (t'.sessions s).senderIndex = (t.sessions s).senderIndex ∧
    (t'.sessions s).prof = (t.sessions s).prof

theorem SameStages.refl (t : SessionTable) : SameStages t t :=
  fun _ => ⟨rfl, rfl, rfl⟩

theorem sameStages_sessionFollowClient (t : SessionTable) (sidx : UInt32) (src : CliAddr)
    (ctr : UInt64) : SameStages t (sessionFollowClient t sidx src ctr).1 := by
  intro s
  obtain ⟨a, c, k, hs⟩ := exists_sessions_sessionFollowClient t sidx src ctr s
  rw [hs]
  exact ⟨rfl, rfl, rfl⟩

theorem sameStages_sessionSetServerIndex (t : SessionTable) (entry : Option Slot)
    (sidx : UInt32) : SameStages t (sessionSetServerIndex t entry sidx) := by
  intro s
  rw [sessions_sessionSetServerIndex]
  split
  · exact ⟨rfl, rfl, rfl⟩
  · exact ⟨rfl, rfl, rfl⟩

/-- The stages each index was last recorded under, beside a table that has them. -/
structure StageInv (t : SessionTable) (g : UInt32 → Option (Fin awgMaxProfiles)) : Prop where
  unique : t.Unique
  window : t.InWindow
  putOk : ∀ index, PutOk t index
  stage : ∀ s index, t.Live s index → g index = some (t.sessions s).prof

theorem StageInv.empty (g : UInt32 → Option (Fin awgMaxProfiles)) :
    StageInv SessionTable.empty g where
  unique _ _ _ hs _ := absurd hs.1 Bool.false_ne_true
  window _ _ hs := absurd hs.1 Bool.false_ne_true
  putOk _ _ _ _ _ _ hs := absurd hs.1 Bool.false_ne_true
  stage _ _ hs := absurd hs.1 Bool.false_ne_true

theorem StageInv.of_sameStages {t t' : SessionTable} {g : UInt32 → Option (Fin awgMaxProfiles)}
    (h : StageInv t g) (hsame : SameStages t t') : StageInv t' g := by
  have hlive : ∀ {s index}, t'.Live s index → t.Live s index := by
    intro s index hs
    obtain ⟨hv, hi, -⟩ := hsame s
    exact ⟨hv ▸ hs.1, hi ▸ hs.2⟩
  refine ⟨fun s s' index hs hs' => h.unique s s' index (hlive hs) (hlive hs'),
    fun s index hs => h.window s index (hlive hs), fun index i j hij hj hfree hs => ?_,
    fun s index hs => ?_⟩
  · exact h.putOk index i j hij hj ((hsame _).1 ▸ hfree) (hlive hs)
  · rw [(hsame s).2.2]
    exact h.stage s index (hlive hs)

/-- No insertion leaves a free slot in front of an entry of its index. -/
theorem putOk_sessionPutProf {t : SessionTable} (h : ∀ index, PutOk t index) (index : UInt32)
    (addr : CliAddr) (prof : Fin awgMaxProfiles) (j : UInt32) :
    PutOk (sessionPutProf t index addr prof).1 j := by
  intro a b hab hb hfree hlive
  have hne : probeSlot j a ≠ putSlot t index := by
    intro heq
    rw [sessionPutProf_eq, heq, sessions_set_self, putEntry_valid] at hfree
    contradiction
  rw [sessionPutProf_eq, sessions_set_of_ne t _ hne] at hfree
  rcases live_sessionPutProf.mp hlive with ⟨hslot, rfl⟩ | ⟨-, hold⟩
  · -- the insertion would have taken the free slot
    rcases hput : putSlot? t j with _ | s
    · exact putSlot?_eq_none_iff.mp hput a (by omega) (Or.inl hfree)
    · obtain ⟨i, hi, rfl, -, hlt⟩ := putSlot?_eq_some_iff.mp hput
      rw [putSlot, hput, Option.getD_some] at hslot
      obtain rfl := probeSlot_inj hb hi hslot
      exact hlt a hab (Or.inl hfree)
  · exact h j a b hab hb hfree hold

/-- **Recording a handshake** keeps the invariant: the entry of the index is rewritten, and
has the new stage. -/
theorem StageInv.put {t : SessionTable} {g : UInt32 → Option (Fin awgMaxProfiles)}
    (h : StageInv t g) (index : UInt32) (addr : CliAddr) (prof : Fin awgMaxProfiles) :
    StageInv (sessionPutProf t index addr prof).1 (Function.update g index (some prof)) where
  unique := h.unique.put h.window (h.putOk index) addr prof
  window := h.window.step (.put index addr prof)
  putOk := putOk_sessionPutProf h.putOk index addr prof
  stage s j hs := by
    rcases live_sessionPutProf.mp hs with ⟨rfl, rfl⟩ | ⟨hne, hold⟩
    · rw [sessionPutProf_eq, sessions_set_self, putEntry_prof, Function.update_self]
    · have hj : j ≠ index := by
        rintro rfl
        exact hne ((h.putOk j).eq_putSlot h.unique h.window hold)
      rw [sessionPutProf_eq, sessions_set_of_ne _ _ hne, Function.update_of_ne hj]
      exact h.stage s j hold

section

variable {p : C2sProxy} {src : CliAddr} {pkt : Ptr PktBuf} {n : ℕ}

/-- Recording a handshake of `len` bytes at `out`, in the table. -/
theorem table_c2sRecord (p : C2sProxy) (src : CliAddr) (out : Ptr PktBuf) (len : ℕ)
    (prof : Fin awgMaxProfiles) :
    recordedIndex p.mem out len = none ∧ c2sRecord p src out len prof = p ∨
      ∃ idx, recordedIndex p.mem out len = some idx ∧
        SameStages (sessionPutProf p.table idx src prof).1
          (c2sRecord p src out len prof).table := by
  rw [c2sRecord]
  rcases recordedIndex p.mem out len with _ | idx
  · exact Or.inl ⟨rfl, rfl⟩
  · refine Or.inr ⟨idx, rfl, ?_⟩
    have htable : SameStages (sessionPutProf p.table idx src prof).1
        (if read32Le p.mem out = wgHandshakeResponse then
          sessionSetServerIndex (sessionPutProf p.table idx src prof).1
            (some (sessionPutProf p.table idx src prof).2) (read32Le p.mem (out.add 8))
        else (sessionPutProf p.table idx src prof).1) := by
      split
      · exact sameStages_sessionSetServerIndex _ _ _
      · exact .refl _
    dsimp only
    split
    · exact htable
    · exact htable

/-- **The table after a datagram**: a recorded handshake is inserted under its stage, and
nothing else that happens to the table touches a stage. -/
theorem table_c2sThreadReversePkt (p : C2sProxy) (src : CliAddr) (pkt : Ptr PktBuf) (n : ℕ) :
    recordedStage p src pkt n = none ∧
        SameStages p.table (c2sThreadReversePkt p src pkt n).table ∨
      ∃ idx prof, recordedStage p src pkt n = some (idx, prof) ∧
        SameStages (sessionPutProf p.table idx src prof).1
          (c2sThreadReversePkt p src pkt n).table := by
  rw [recordedStage, c2sThreadReversePkt]
  by_cases hn : n = 0
  · rw [if_pos (Or.inl hn), if_pos hn]
    exact Or.inl ⟨rfl, .refl _⟩
  rw [if_neg hn]
  dsimp only
  by_cases hfast : takesFastPath p pkt n (p.cfg.profiles (c2sExpectedStage p src)) = true
  · rw [if_pos (Or.inr (Or.inl hfast)), if_pos hfast, c2sFastPath]
    refine Or.inl ⟨rfl, ?_⟩
    dsimp only
    rw [table_queueSend]
    split
    · exact sameStages_sessionFollowClient _ _ _ _
    · exact .refl _
  rw [if_neg hfast, c2sSlowPath]
  obtain ⟨d, hd⟩ : ∃ d, c2sDecode p.mem pkt n p.cfg (c2sExpectedStage p src)
    (c2sFastKs p pkt n (p.cfg.profiles (c2sExpectedStage p src))) = d := ⟨_, rfl⟩
  have hd' : c2sDecode p.flush.mem pkt n p.flush.cfg (c2sExpectedStage p src)
    (c2sFastKs p pkt n (p.cfg.profiles (c2sExpectedStage p src))) = d := hd
  rw [hd, hd']
  dsimp only
  rcases d.2.out with _ | ⟨out, len⟩
  · rw [Option.bind_none, ite_self]
    exact Or.inl ⟨rfl, .refl _⟩
  dsimp only
  rw [table_queueSend, Option.bind_some]
  -- adopting a stage leaves the table, the buffers and the mode alone
  obtain ⟨q, hq⟩ : ∃ q, q = (if d.1 = c2sExpectedStage p src then { p.flush with mem := d.2.mem }
    else c2sAdopt { p.flush with mem := d.2.mem } src d.1) := ⟨_, rfl⟩
  obtain ⟨htab, hmem, hmode, hfam⟩ : q.table = p.table ∧ q.mem = d.2.mem ∧
      q.cfg.mode = p.cfg.mode ∧ q.listenFamily = p.listenFamily := by
    rw [hq]
    split
    · exact ⟨rfl, rfl, rfl, rfl⟩
    · rw [c2sAdopt]
      split
      · exact ⟨rfl, rfl, rfl, rfl⟩
      · exact ⟨rfl, rfl, rfl, rfl⟩
  rw [← hq, hmode, hfam]
  by_cases hserver : p.cfg.mode = .server ∧ src.family = p.listenFamily
  · have hcond : ¬ (n = 0 ∨ takesFastPath p pkt n (p.cfg.profiles (c2sExpectedStage p src)) =
        true ∨ ¬ (p.cfg.mode = .server ∧ src.family = p.listenFamily)) := by
      rintro (h | h | h)
      · exact hn h
      · exact hfast h
      · exact h hserver
    rw [if_neg hcond, if_pos hserver]
    dsimp only
    rw [← hmem, ← htab]
    rcases table_c2sRecord q src out len d.1 with ⟨hnone, heq⟩ | ⟨idx, hsome, hsame⟩
    · rw [hnone, heq]
      exact Or.inl ⟨rfl, .refl _⟩
    · rw [hsome]
      exact Or.inr ⟨idx, d.1, rfl, hsame⟩
  · rw [if_pos (Or.inr (Or.inr hserver)), if_neg hserver, htab]
    exact Or.inl ⟨rfl, .refl _⟩

end

/-! ### Runs of the thread -/

/-- A datagram of a client, cut to the size of the receive buffer it arrives in. -/
structure C2sDatagram where
  /-- The receive buffer. -/
  slot : ℕ
  /-- Where it comes from. -/
  src : CliAddr
  /-- Its bytes. -/
  data : Bytes

/-- The start of its buffer. -/
def C2sDatagram.pkt (d : C2sDatagram) : Ptr PktBuf := ⟨.recv d.slot, 0⟩

/-- The datagram in its buffer. -/
def C2sProxy.receive (p : C2sProxy) (d : C2sDatagram) : C2sProxy :=
  { p with mem := p.mem.write d.pkt d.data }

/-- What the thread does next. -/
inductive C2sEvent
  /-- It takes a datagram. -/
  | datagram (d : C2sDatagram)
  /-- It sends the batch. -/
  | flush

/-- The c2s thread in reverse and server mode. -/
def c2sMachine : Machine C2sProxy C2sEvent where
  step p
    | .datagram d =>
        if d.data.length ≤ (p.mem (.recv d.slot)).length then
          some (c2sThreadReversePkt (p.receive d) d.src d.pkt d.data.length)
        else none
    | .flush => some p.flush

/-- The last message queued is a handshake. -/
def ForwardsHandshake (p : C2sProxy) : Prop :=
  ∃ out len k, p.queue.getLast? = some (out, len) ∧
    read32Le p.mem out = HandshakeKind.type k ∧ len = k.size

/-- Stray transport data: the active stage finds nothing in the datagram, and the first other
one that finds something finds transport data. -/
def StrayTransport (p : C2sProxy) : C2sEvent → Prop
  | .datagram d =>
      let m := (p.receive d).mem
      stageFinds m d.pkt d.data.length p.cfg p.cfg.activeProfile = none ∧
        ∃ k, otherStage? m d.pkt d.data.length p.cfg p.cfg.activeProfile = some k ∧
          stageFinds m d.pkt d.data.length p.cfg k = some .transport
  | .flush => False

/-- The stages the indices were last recorded under, after a step. -/
def lastStage (p : C2sProxy) (e : C2sEvent) (_ : C2sProxy)
    (g : UInt32 → Option (Fin awgMaxProfiles)) : UInt32 → Option (Fin awgMaxProfiles) :=
  match e with
  | .datagram d =>
      match recordedStage (p.receive d) d.src d.pkt d.data.length with
      | some (idx, prof) => Function.update g idx (some prof)
      | none => g
  | .flush => g

/-- **The rule for a responder's stages.** In reverse mode the active stage changes only at a
datagram that is decoded as a handshake; in server mode the stage of every entry in use is
the one its index was last recorded under. -/
structure StageRule (p : C2sProxy) (es : List C2sEvent) : Prop where
  reverse : p.cfg.mode = .reverse → c2sMachine.Meets (fun s e => ∀ s',
    c2sMachine.step s e = some s' → s'.cfg.activeProfile ≠ s.cfg.activeProfile →
      ForwardsHandshake s') p es
  server : p.cfg.mode = .server → ∀ pre post q, es = pre ++ post →
    (c2sMachine.ghost lastStage).run (p, fun _ => none) pre = some q →
      ∀ s index, q.1.table.Live s index → q.2 index = some (q.1.table.sessions s).prof

/-- A received datagram lies in its buffer. -/
theorem fits_receive {p : C2sProxy} {d : C2sDatagram}
    (h : d.data.length ≤ (p.mem (.recv d.slot)).length) :
    (p.receive d).mem.Fits d.pkt d.data.length := by
  have hfit : p.mem.Fits d.pkt d.data.length := by
    rw [Mem.Fits, C2sDatagram.pkt, Nat.zero_add]
    exact h
  exact (Mem.sameShape_write hfit).fits_iff.mpr hfit

/-- One step in reverse mode: the chain stays accepted, and the stage moves as it should
unless the datagram is stray transport data. -/
theorem reverse_step {s s' : C2sProxy} {e : C2sEvent}
    (hs : s.cfg.mode = .reverse ∧ s.cfg.AcceptedChain) (hstep : c2sMachine.step s e = some s') :
    (s'.cfg.mode = .reverse ∧ s'.cfg.AcceptedChain) ∧
      ((s'.cfg.activeProfile ≠ s.cfg.activeProfile → ForwardsHandshake s') ↔
        ¬ StrayTransport s e) := by
  obtain ⟨hmode, hchain⟩ := hs
  cases e with
  | flush =>
      obtain rfl := Option.some.inj hstep
      exact ⟨⟨hmode, hchain⟩, iff_of_true (fun h => absurd rfl h) fun h => h⟩
  | datagram d =>
      obtain ⟨hfit, hstep⟩ := Option.ite_none_right_eq_some.mp hstep
      obtain ⟨hsame, hcases⟩ := reversePkt_cases (p := s.receive d) hmode hchain
        (fits_receive hfit) (Option.some.inj hstep).symm
      rcases hcases with ⟨hactive, hno⟩ | ⟨hnone, k, msg, hother, hfinds, hactive, hfwd⟩
      · refine ⟨⟨hsame.mode.trans hmode, hsame.acceptedChain hchain ?_⟩, ?_⟩
        · rw [hactive]
          exact hchain.active
        · refine iff_of_true (fun h => absurd hactive h) ?_
          rintro ⟨hnone, k, hother, -⟩
          rcases hno with hsome | hno
          · exact Bool.false_ne_true ((congrArg Option.isSome hnone).symm.trans hsome)
          · exact Option.some_ne_none k (hother.symm.trans hno)
      · obtain ⟨hk, hne, -⟩ := otherStage?_eq_some hother
        refine ⟨⟨hsame.mode.trans hmode, hsame.acceptedChain hchain ?_⟩, ?_⟩
        · rw [hactive]
          exact hk
        obtain ⟨out, len, hlast, htype, hlen⟩ := hfwd
        have hmoved : s'.cfg.activeProfile ≠ s.cfg.activeProfile := by
          rw [hactive]
          exact hne
        rw [forall_prop_of_true hmoved]
        constructor
        · rintro ⟨out', len', j, hlast', htype', -⟩ ⟨-, k', hother', hfinds'⟩
          obtain rfl := Option.some.inj (hother.symm.trans hother')
          obtain rfl := Option.some.inj (hfinds.symm.trans hfinds')
          obtain ⟨rfl, rfl⟩ := Prod.mk.inj (Option.some.inj (hlast.symm.trans hlast'))
          exact j.type_ne_transport (htype'.symm.trans htype)
        · intro hstray
          cases msg with
          | handshake j => exact ⟨out, len, j, hlast, htype, hlen j rfl⟩
          | transport => exact absurd ⟨hnone, k, hother, hfinds⟩ hstray

/-- Every step keeps the stages of the entries. -/
theorem stageInv_step {q q' : C2sProxy × (UInt32 → Option (Fin awgMaxProfiles))} {e : C2sEvent}
    (h : StageInv q.1.table q.2) (hstep : (c2sMachine.ghost lastStage).step q e = some q') :
    StageInv q'.1.table q'.2 := by
  obtain ⟨hstep, hg⟩ := Machine.step_ghost_eq_some.mp hstep
  cases e with
  | flush =>
      obtain hflush := Option.some.inj hstep
      rw [hg, ← hflush]
      exact h
  | datagram d =>
      obtain ⟨-, hstep⟩ := Option.ite_none_right_eq_some.mp hstep
      have hpkt := Option.some.inj hstep
      rw [hg, lastStage, ← hpkt]
      rcases table_c2sThreadReversePkt (q.1.receive d) d.src d.pkt d.data.length with
        ⟨hnone, hsame⟩ | ⟨idx, prof, hsome, hsame⟩
      · rw [hnone]
        exact h.of_sameStages hsame
      · rw [hsome]
        exact (h.put idx d.src prof).of_sameStages hsame

/-- **Stages of a responder.** Over an accepted chain and from an empty table, a run of the
c2s thread obeys the rule if and only if, in reverse mode, none of its datagrams is stray
transport data. In server mode every run obeys it. -/
theorem stageRule_iff {p : C2sProxy} (hchain : p.cfg.AcceptedChain) (htable : p.table = .empty)
    {es : List C2sEvent} {t : C2sProxy} (hrun : c2sMachine.run p es = some t) :
    StageRule p es ↔
      (p.cfg.mode = .reverse → c2sMachine.Meets (fun s e => ¬ StrayTransport s e) p es) := by
  have hiff : p.cfg.mode = .reverse → (c2sMachine.Meets (fun s e => ∀ s',
      c2sMachine.step s e = some s' → s'.cfg.activeProfile ≠ s.cfg.activeProfile →
        ForwardsHandshake s') p es ↔
      c2sMachine.Meets (fun s e => ¬ StrayTransport s e) p es) := by
    intro hmode
    refine Machine.meets_congr (fun s e s' hs hstep => (reverse_step hs hstep).1)
      ⟨hmode, hchain⟩ hrun fun s e s' hs hstep => ?_
    rw [← (reverse_step hs hstep).2]
    constructor
    · intro hall
      exact hall s' hstep
    · intro hone s'' hstep''
      obtain rfl := Option.some.inj (hstep.symm.trans hstep'')
      exact hone
  constructor
  · intro h hmode
    exact (hiff hmode).mp (h.reverse hmode)
  · intro h
    refine ⟨fun hmode => (hiff hmode).mpr (h hmode), fun _ pre post q _ hpre => ?_⟩
    have hstep : ∀ q e q', StageInv q.1.table q.2 →
        (c2sMachine.ghost lastStage).step q e = some q' → StageInv q'.1.table q'.2 :=
      fun _ _ _ => stageInv_step
    have hstart : StageInv p.table fun _ => none := htable ▸ StageInv.empty _
    exact (Machine.run_induction hstep hstart hpre).stage

/-! ### A stage adopted at transport data -/

/-- A profile whose transport data goes by the header 6. -/
def headerSixProfile : AcceptedProfile :=
  AcceptedProfile.ofValidated { unpaddedProfile.toAwgProfile with h4 := .single 6 } (by decide)

/-- A chain of two stages in reverse mode, the first of them active. -/
def twoStagesConfig : AwgConfig :=
  { unpaddedConfig with
    mode := .reverse
    profiles := fun k => if k = 0 then unpaddedProfile.toAwgProfile
      else headerSixProfile.toAwgProfile
    profileCount := 2 }

/-- A proxy of that chain with empty buffers of 64 bytes. -/
def twoStagesProxy : C2sProxy where
  cfg := twoStagesConfig
  table := .empty
  profCache := fun _ => ⟨0, 0⟩
  listenFamily := .inet
  mem := fun _ => List.replicate 64 0
  queue := []
  sent := []

/-- A datagram of 40 bytes whose first word is `v`. -/
def wordDatagram (v : ℕ) : C2sDatagram :=
  ⟨0, .v4 0x0A000002 51820, Bytes.leBytes 4 v ++ List.replicate 36 0⟩

instance (p : C2sProxy) : (e : C2sEvent) → Decidable (StrayTransport p e)
  | .datagram _ => inferInstanceAs (Decidable (_ = _ ∧ ∃ _, _ ∧ _))
  | .flush => inferInstanceAs (Decidable False)

/-- A second stage with an init header of its own. -/
def headerNineProfile : AcceptedProfile :=
  AcceptedProfile.ofValidated { unpaddedProfile.toAwgProfile with h1 := .single 9 } (by decide)

/-- A chain of the first stage and that one. -/
def twoInitsConfig : AwgConfig :=
  { twoStagesConfig with
    profiles := fun k => if k = 0 then unpaddedProfile.toAwgProfile
      else headerNineProfile.toAwgProfile }

theorem twoInitsConfig_acceptedChain : twoInitsConfig.AcceptedChain where
  accepted k _ := by
    by_cases hk : k = 0
    · exact ⟨unpaddedProfile, if_pos hk⟩
    · exact ⟨headerNineProfile, if_neg hk⟩
  active := by decide

/-- A proxy of that chain with empty buffers of 256 bytes. -/
def twoInitsProxy : C2sProxy :=
  { twoStagesProxy with cfg := twoInitsConfig, mem := fun _ => List.replicate 256 0 }

/-- An init of zeros whose header is `v`. -/
def initDatagram (v : ℕ) : C2sDatagram :=
  ⟨1, .v4 0x0A000002 51820, Bytes.leBytes 4 v ++ List.replicate 144 0⟩

/-- Transport data, an init of the second stage, which is adopted, and transport data there. -/
def adopting : List C2sEvent :=
  [.datagram (wordDatagram 5), .datagram (initDatagram 9), .flush, .datagram (wordDatagram 5)]

/-- A stage that is adopted at an init breaks no rule. -/
theorem stageRule_adopting : ∃ t, c2sMachine.run twoInitsProxy adopting = some t ∧
    t.cfg.activeProfile = 1 ∧ StageRule twoInitsProxy adopting := by
  have hstage : (c2sMachine.run twoInitsProxy adopting).map (·.cfg.activeProfile) = some 1 := by
    decide +kernel
  obtain ⟨t, hrun, hactive⟩ := Option.map_eq_some_iff.mp hstage
  exact ⟨t, hrun, hactive, (stageRule_iff twoInitsConfig_acceptedChain rfl hrun).mpr fun _ =>
    Machine.meets_of_guarded (by decide +kernel)⟩

/-- Forty bytes of junk that begin with the transport header of the second stage switch the
proxy to it. -/
theorem not_stageRule_junk : ¬ StageRule twoStagesProxy [.datagram (wordDatagram 6)] := by
  intro h
  obtain ⟨p', hp'⟩ : ∃ p', p' = c2sThreadReversePkt (twoStagesProxy.receive (wordDatagram 6))
    (wordDatagram 6).src (wordDatagram 6).pkt 40 := ⟨_, rfl⟩
  have hmoved : p'.cfg.activeProfile ≠ twoStagesProxy.cfg.activeProfile := by
    rw [hp']
    decide
  obtain ⟨out, len, k, hlast, -, hlen⟩ := h.reverse rfl [] (.datagram (wordDatagram 6)) []
    twoStagesProxy rfl rfl p' (hp' ▸ rfl) hmoved
  have hqueued : p'.queue.getLast? = some ((wordDatagram 6).pkt, 40) := by
    rw [hp']
    decide
  have h40 : len = 40 :=
    (congrArg Prod.snd (Option.some.inj (hlast.symm.trans hqueued)))
  rw [h40] at hlen
  cases k <;> exact absurd hlen (by decide)

end AwgProxy
