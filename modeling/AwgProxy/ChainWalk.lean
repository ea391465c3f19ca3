import AwgProxy.FastPath
import AwgProxy.StageAdoption

/-!
# Walking the Chain

The c2s thread of reverse and server mode tries the stages of the profile chain on one buffer,
one after the other, with a keystream block that the first attempt that needs it computes: the
fast path of the starting stage, its decoder, and the decoders of the other stages. Each attempt
could be made on a copy of the datagram instead, with a block of its own (`attempt`).

* `mem_eq_of_out_eq_none` — a decoder that finds nothing has written nothing.
* `handsOn_iff` — the thread hands a message on if and only if some attempt decodes.
* `walkAsAttempts_iff` — where one attempt alone decodes, its message and stage are the thread's,
  unless the fast path of the starting stage overtakes its decoder.
-/

namespace AwgProxy

/-! ### Attempts that fail -/

section

variable {m : Mem PktBuf} {pkt : Ptr PktBuf} {n : ℕ} {cfg : AwgConfig} {pr : AwgProfile}

/-- A dispatch that finds nothing has written nothing. -/
theorem inboundDispatch_mem_of_none {kstream : Option Bytes}
    (h : (inboundDispatch m pkt n cfg pr kstream).2 = none) :
    (inboundDispatch m pkt n cfg pr kstream).1 = m := by
  rcases @inboundDispatch_cases m pkt n cfg pr kstream with ⟨k, -, hdisp⟩ | ⟨-, hdisp⟩
  · rw [hdisp] at h
    contradiction
  · rw [hdisp] at h ⊢
    split at h
    · contradiction
    · rw [if_neg ‹_›]

/-- **A failed attempt leaves the datagram alone**, whatever block is cached. -/
theorem mem_eq_of_out_eq_none {ks : Option Bytes}
    (h : (transformInboundProfile m pkt n cfg pr ks).out = none) :
    (transformInboundProfile m pkt n cfg pr ks).mem = m := by
  by_cases h4 : n < 4
  · rw [transformInboundProfile, if_pos h4]
  by_cases hfast : fastPath m pkt n pr
  · rw [transformInboundProfile_of_fastPath hfast]
  by_cases hshort : pr.hpOn = true ∧ n < awgHpMinPadding
  · rw [transformInboundProfile_of_short hshort.1 hshort.2 hfast]
  have hres := transformInboundProfile_eq cfg ks (by omega : 4 ≤ n) hfast
    fun hon => Nat.le_of_not_lt fun hlt => hshort ⟨hon, hlt⟩
  rw [h] at hres
  exact (congrArg Prod.fst hres).trans (inboundDispatch_mem_of_none (congrArg Prod.snd hres).symm)

end

/-- Stage `k` on a copy of the datagram of `n` bytes at `pkt`, with a fresh keystream. -/
def attempt (p : C2sProxy) (pkt : Ptr PktBuf) (n : ℕ) (k : Fin awgMaxProfiles) : InboundResult :=
  transformInboundProfile p.mem pkt n p.cfg (p.cfg.profiles k) none

/-- The attempt of stage `k` decodes. -/
def Decodes (p : C2sProxy) (pkt : Ptr PktBuf) (n : ℕ) (k : Fin awgMaxProfiles) : Prop :=
  (attempt p pkt n k).out.isSome = true

/-- The messages handed on so far, sent or queued. -/
def C2sProxy.handedOn (p : C2sProxy) : ℕ :=
  p.sent.length + p.queue.length

/-- One more message is handed on, the bytes `d`. -/
def HandsOn (p p' : C2sProxy) (d : Bytes) : Prop :=
  p'.handedOn = p.handedOn + 1 ∧
    ∃ out len, p'.queue.getLast? = some (out, len) ∧ p'.mem.read out len = d

/-- The walk of the thread is as good as attempts on copies of the datagram. -/
structure WalkAsAttempts (p : C2sProxy) (src : CliAddr) (pkt : Ptr PktBuf) (n : ℕ) : Prop where
  /-- A decoder that finds nothing leaves the datagram as it is. -/
  unchanged : ∀ (k : Fin awgMaxProfiles) (ks : Option Bytes), (k : ℕ) < p.cfg.profileCount →
    (transformInboundProfile p.mem pkt n p.cfg (p.cfg.profiles k) ks).out = none →
      (transformInboundProfile p.mem pkt n p.cfg (p.cfg.profiles k) ks).mem = p.mem
  /-- A message is handed on if and only if some attempt decodes. -/
  decodes : (∃ d, HandsOn p (c2sThreadReversePkt p src pkt n) d) ↔
    ∃ k : Fin awgMaxProfiles, (k : ℕ) < p.cfg.profileCount ∧ Decodes p pkt n k
  /-- Where one attempt alone decodes, its message is handed on, and its stage adopted. -/
  alone : ∀ (k : Fin awgMaxProfiles) (out : Ptr PktBuf) (len : ℕ),
    (k : ℕ) < p.cfg.profileCount → (attempt p pkt n k).out = some (out, len) →
      (∀ j : Fin awgMaxProfiles, (j : ℕ) < p.cfg.profileCount → j ≠ k → ¬ Decodes p pkt n j) →
        HandsOn p (c2sThreadReversePkt p src pkt n) ((attempt p pkt n k).mem.read out len) ∧
          c2sExpectedStage (c2sThreadReversePkt p src pkt n) src = k

section

variable {p : C2sProxy} {src : CliAddr} {pkt : Ptr PktBuf} {n : ℕ}

/-- An attempt decodes where the stage finds something. -/
theorem decodes_iff (hchain : p.cfg.AcceptedChain) (hf : p.mem.Fits pkt n)
    {k : Fin awgMaxProfiles} (hk : (k : ℕ) < p.cfg.profileCount) :
    Decodes p pkt n k ↔ (stageFinds p.mem pkt n p.cfg k).isSome = true := by
  have hks : KsValid p.cfg p.mem pkt none := nofun
  rw [Decodes, attempt]
  rcases hfinds : stageFinds p.mem pkt n p.cfg k with _ | msg
  · rw [(transformInboundProfile_of_none hks hfinds).2]
    rfl
  · obtain ⟨q, l, hout, -⟩ := transformInboundProfile_of_stageFinds hchain hks hf hk hfinds
    rw [hout]
    rfl

/-! ### The fast path of the starting stage -/

/-- The thread of normal mode with the same buffers and the stage as its only profile: its
packet function has the same fast path. -/
def C2sProxy.asNormal (p : C2sProxy) (pr : AwgProfile) : Proxy :=
  .zeroed { p.cfg with toAwgProfile := pr, profiles := fun _ => pr } p.mem

theorem takesFastPath_iff_asNormal (pr : AwgProfile) :
    takesFastPath p pkt n pr = true ↔ TakesFastPath (p.asNormal pr) pkt n := by
  rw [takesFastPath, Bool.and_eq_true]
  rfl

theorem overtakes_asNormal_iff (pr : AwgProfile) :
    Overtakes (p.asNormal pr).mem pkt n (p.asNormal pr).cfg pr ↔
      Overtakes p.mem pkt n p.cfg pr := by
  constructor
  · intro h
    exact ⟨h.trailers, h.changed, h.transport, h.size_ne, h.handshake⟩
  · intro h
    exact ⟨h.trailers, h.changed, h.transport, h.size_ne, h.handshake⟩

/-- What the fast path hands on: the datagram behind the padding, opened in place. -/
theorem c2sFastPath_queue (p : C2sProxy) (src : CliAddr) (pkt : Ptr PktBuf) (n : ℕ)
    (pr : AwgProfile) :
    (c2sFastPath p src pkt n pr).queue =
        p.queue ++ [(pkt.add pr.s4.toNat, n - pr.s4.toNat)] ∧
      (c2sFastPath p src pkt n pr).sent = p.sent ∧
      (c2sFastPath p src pkt n pr).mem =
        openTransport p.mem (pkt.add pr.s4.toNat) (c2sFastKs p pkt n pr) := by
  rw [c2sFastPath]
  dsimp only
  split
  · exact ⟨rfl, rfl, rfl⟩
  · exact ⟨rfl, rfl, rfl⟩

/-- Beside the datagrams that overtake the decoder, the fast path hands on what the decoder
returns. -/
theorem c2sFastPath_of_not_overtakes (src : CliAddr) {pr : AcceptedProfile}
    (hf : p.mem.Fits pkt n) (hfast : takesFastPath p pkt n pr.toAwgProfile = true)
    (hover : ¬ Overtakes p.mem pkt n p.cfg pr.toAwgProfile) {out : Ptr PktBuf} {len : ℕ}
    (hout : (transformInboundProfile p.mem pkt n p.cfg pr.toAwgProfile none).out =
      some (out, len)) :
    HandsOn p (c2sFastPath p src pkt n pr.toAwgProfile)
      ((transformInboundProfile p.mem pkt n p.cfg pr.toAwgProfile none).mem.read out len) := by
  have hsame : SameAsDecoder (p.asNormal pr.toAwgProfile) pkt n :=
    (sameAsDecoder_iff (p.asNormal pr.toAwgProfile) pr pkt n rfl rfl hf).mpr
      fun h => hover ((overtakes_asNormal_iff _).mp h)
  obtain ⟨hqueue, hmem⟩ := processS2cPktNormal_of_takesFastPath
    ((takesFastPath_iff_asNormal pr.toAwgProfile).mp hfast)
  have hdec : transformInboundProfile (p.asNormal pr.toAwgProfile).mem pkt n
      (p.asNormal pr.toAwgProfile).cfg (configActiveProfile (p.asNormal pr.toAwgProfile).cfg)
        none = transformInboundProfile p.mem pkt n p.cfg pr.toAwgProfile none := rfl
  rw [SameAsDecoder, Delivers, InboundResult.outcome, hdec, hout] at hsame
  obtain ⟨hq, hm⟩ := hsame
  have hentry := List.append_cancel_left (hqueue.symm.trans hq)
  simp only [List.cons.injEq, SendEntry.mk.injEq, and_true] at hentry
  obtain ⟨rfl, rfl⟩ := hentry
  obtain ⟨hcq, hcs, hcm⟩ := c2sFastPath_queue p src pkt n pr.toAwgProfile
  refine ⟨?_, pkt.add pr.s4.toNat, n - pr.s4.toNat, ?_, ?_⟩
  · rw [C2sProxy.handedOn, C2sProxy.handedOn, hcq, hcs, List.length_append]
    rfl
  · rw [hcq, List.getLast?_concat]
  · rw [hcm]
    exact (congrArg (Mem.read · _ _) hmem).symm.trans hm

/-- A datagram that overtakes the decoder is a handshake to it. -/
theorem attempt_of_overtakes {pr : AcceptedProfile} (hf : p.mem.Fits pkt n)
    (h : Overtakes p.mem pkt n p.cfg pr.toAwgProfile) :
    ∃ k : HandshakeKind, ∃ out len,
      (transformInboundProfile p.mem pkt n p.cfg pr.toAwgProfile none).out = some (out, len) ∧
      4 ≤ len ∧
      read32Le (transformInboundProfile p.mem pkt n p.cfg pr.toAwgProfile none).mem out =
        k.type := by
  obtain ⟨k, hgt, hin⟩ := h.handshake
  have hmatch : matchesKind p.mem pkt n pr.toAwgProfile
      (recvKs p.cfg p.mem pkt pr.toAwgProfile none) k = true := by
    rw [matchesKind, hin, Bool.and_true, sizeMatches, h.trailers, Bool.true_and,
      decide_eq_true hgt, Bool.or_true]
  obtain ⟨i, -, hi, hfirst⟩ := exists_first_of_matchesKind hmatch
  obtain ⟨hlen, -⟩ := Bool.and_eq_true_iff.mp h.transport
  rw [decide_eq_true_eq] at hlen
  have hs4 := pr.valid.s4_mem.1
  have h32 : (32 : ℤ) = wgTransportMin := rfl
  have hslow : ¬ fastPath p.mem pkt n pr.toAwgProfile := not_fastPath_of_h4Noop h.changed
  have hres := transformInboundProfile_eq p.cfg none (by omega : 4 ≤ n) hslow fun _ => by omega
  rw [inboundDispatch_of_first hi hfirst] at hres
  obtain ⟨hmem, hout⟩ := Prod.mk.inj hres
  refine ⟨i, _, _, hout, i.four_le_size, ?_⟩
  rw [hmem]
  exact read32Le_openAs (fits_of_matchesKind hf hi)

/-- The fast path hands on transport data. -/
theorem read32Le_c2sFastPath (src : CliAddr) {pr : AcceptedProfile} (hf : p.mem.Fits pkt n)
    (hfast : takesFastPath p pkt n pr.toAwgProfile = true) :
    32 ≤ n - pr.s4.toNat ∧
      read32Le (c2sFastPath p src pkt n pr.toAwgProfile).mem (pkt.add pr.s4.toNat) =
        wgTransportData := by
  have hlen := (normalChecksTransport_iff pr rfl).mp
    ((takesFastPath_iff_asNormal pr.toAwgProfile).mp hfast).1
  have hs4 := pr.valid.s4_mem.1
  rw [(c2sFastPath_queue p src pkt n pr.toAwgProfile).2.2]
  exact ⟨by omega, read32Le_openTransport (l := n - pr.s4.toNat) (hf.add (by omega)) (by omega)⟩

/-- A datagram that overtakes the decoder comes off the fast path as another message. -/
theorem not_handsOn_of_overtakes (src : CliAddr) {pr : AcceptedProfile} (hf : p.mem.Fits pkt n)
    (hfast : takesFastPath p pkt n pr.toAwgProfile = true)
    (hover : Overtakes p.mem pkt n p.cfg pr.toAwgProfile) {out : Ptr PktBuf} {len : ℕ}
    (hout : (transformInboundProfile p.mem pkt n p.cfg pr.toAwgProfile none).out =
      some (out, len)) :
    ¬ HandsOn p (c2sFastPath p src pkt n pr.toAwgProfile)
      ((transformInboundProfile p.mem pkt n p.cfg pr.toAwgProfile none).mem.read out len) := by
  rintro ⟨-, out', len', hlast, hread⟩
  obtain ⟨k, q, l, hout', h4, htype⟩ := attempt_of_overtakes hf hover
  obtain ⟨rfl, rfl⟩ := Prod.mk.inj (Option.some.inj (hout'.symm.trans hout))
  obtain ⟨h32, htransport⟩ := read32Le_c2sFastPath src hf hfast
  rw [(c2sFastPath_queue p src pkt n pr.toAwgProfile).1, List.getLast?_concat] at hlast
  obtain ⟨rfl, rfl⟩ := Prod.mk.inj (Option.some.inj hlast)
  rw [read32Le_eq _ _ (by omega : 4 ≤ n - pr.s4.toNat), hread, ← read32Le_eq _ _ h4,
    htype] at htransport
  exact k.type_ne_transport htransport

/-! ### The slow path -/

/-- What the slow path hands on is what its decoder returns. -/
theorem c2sSlowPath_handsOn (src : CliAddr) {prof : Fin awgMaxProfiles} {ks : Option Bytes}
    {d : Fin awgMaxProfiles × InboundResult} (hd : c2sDecode p.mem pkt n p.cfg prof ks = d) :
    (d.2.out = none → (c2sSlowPath p.flush src pkt n prof ks).handedOn = p.handedOn) ∧
      ∀ out len, d.2.out = some (out, len) →
        HandsOn p (c2sSlowPath p.flush src pkt n prof ks) (d.2.mem.read out len) := by
  have hd' : c2sDecode p.flush.mem pkt n p.flush.cfg prof ks = d := hd
  obtain ⟨hmem, hqueue⟩ := c2sSlowPath_frame p.flush src pkt n prof ks
  have hsent := c2sSlowPath_sent p.flush src pkt n prof ks
  rw [hd'] at hmem hqueue
  have hflush : p.flush.sent.length = p.sent.length + p.queue.length := by
    rw [C2sProxy.flush, List.length_append, List.length_map]
  have hempty : p.flush.queue = [] := rfl
  rw [hempty, List.nil_append] at hqueue
  refine ⟨fun hnone => ?_, fun out len hsome => ⟨?_, out, len, ?_, ?_⟩⟩
  · rw [C2sProxy.handedOn, hsent, hqueue, hnone, hflush]
    rfl
  · rw [C2sProxy.handedOn, hsent, hqueue, hsome, hflush]
    rfl
  · rw [hqueue, hsome]
    rfl
  · rw [hmem]

/-! ### The stage expected next -/

/-- The fast path leaves the expected stage as it is. -/
theorem expectedStage_c2sFastPath (p : C2sProxy) (src : CliAddr) (pkt : Ptr PktBuf) (n : ℕ)
    (pr : AwgProfile) :
    c2sExpectedStage (c2sFastPath p src pkt n pr) src = c2sExpectedStage p src := by
  obtain ⟨w, hw⟩ := awgWindowNote_eq p.cfg n
  have hcfg : (c2sFastPath p src pkt n pr).cfg = { p.cfg with udpWindow := w } :=
    (c2sFastPath_cfg p src pkt n pr).trans hw
  have hcache : (c2sFastPath p src pkt n pr).profCache = p.profCache := by
    rw [c2sFastPath]
    dsimp only
    split
    · rfl
    · rfl
  simp only [c2sExpectedStage, profileForAddr, hcfg, hcache]

/-- A remembered stage is expected. -/
theorem profileForAddr_profileRemember (p : C2sProxy) (src : CliAddr) {k : Fin awgMaxProfiles}
    (hmulti : p.cfg.profileCount > 1) : profileForAddr (profileRemember p src k) src = k := by
  rw [profileForAddr, profileRemember, if_neg (by dsimp only; omega)]
  simp only [Function.update_self, if_true]

/-- An adopted stage is expected. -/
theorem expectedStage_c2sAdopt (p : C2sProxy) (src : CliAddr) {k : Fin awgMaxProfiles}
    (hmulti : p.cfg.profileCount > 1) : c2sExpectedStage (c2sAdopt p src k) src = k := by
  rw [c2sAdopt]
  by_cases hmode : p.cfg.mode = .server
  · rw [if_pos hmode, c2sExpectedStage, if_pos ⟨hmulti, hmode⟩]
    exact profileForAddr_profileRemember p src hmulti
  · rw [if_neg hmode, c2sExpectedStage, if_neg fun h => hmode h.2]
    rfl

/-- Recording a handshake under the expected stage leaves it expected. -/
theorem expectedStage_c2sRecord {k : Fin awgMaxProfiles} (out : Ptr PktBuf) (len : ℕ)
    (hmode : p.cfg.mode = .server) (hk : c2sExpectedStage p src = k) :
    c2sExpectedStage (c2sRecord p src out len k) src = k := by
  rw [c2sRecord]
  split
  · exact hk
  · dsimp only
    split
    · rename_i hmulti
      rw [c2sExpectedStage, if_pos ⟨hmulti, hmode⟩]
      exact profileForAddr_profileRemember _ src hmulti
    · exact hk

/-- After the slow path the stage that has decoded is the expected one. -/
theorem expectedStage_c2sSlowPath {ks : Option Bytes} {d : Fin awgMaxProfiles × InboundResult}
    (hd : c2sDecode p.mem pkt n p.cfg (c2sExpectedStage p src) ks = d)
    (hout : d.2.out.isSome = true)
    (hmulti : d.1 ≠ c2sExpectedStage p src → p.cfg.profileCount > 1) :
    c2sExpectedStage (c2sSlowPath p src pkt n (c2sExpectedStage p src) ks) src = d.1 := by
  obtain ⟨⟨out, len⟩, hsome⟩ := Option.isSome_iff_exists.mp hout
  rw [c2sSlowPath, hd]
  dsimp only
  rw [hsome]
  dsimp only
  generalize hq : (if d.1 = c2sExpectedStage p src then { p with mem := d.2.mem }
    else c2sAdopt { p with mem := d.2.mem } src d.1) = q
  have hstage : c2sExpectedStage q src = d.1 ∧ q.cfg.mode = p.cfg.mode := by
    rw [← hq]
    by_cases hsame : d.1 = c2sExpectedStage p src
    · rw [if_pos hsame]
      exact ⟨hsame.symm, rfl⟩
    · rw [if_neg hsame]
      exact ⟨expectedStage_c2sAdopt _ src (hmulti hsame), (c2sAdopt_frame _ src d.1).2.2.2⟩
  split
  · rename_i hserver
    exact expectedStage_c2sRecord out len hserver.1 hstage.1
  · exact hstage.1

/-- The slow path's decoder returns the result of a stage that finds something, or finds that
none does. -/
theorem c2sDecode_spec {ks : Option Bytes} (hchain : p.cfg.AcceptedChain) (hf : p.mem.Fits pkt n)
    {prof : Fin awgMaxProfiles} (hprof : (prof : ℕ) < p.cfg.profileCount)
    (hks : KsValid p.cfg p.mem pkt ks) {d : Fin awgMaxProfiles × InboundResult}
    (hd : c2sDecode p.mem pkt n p.cfg prof ks = d) :
    ((d.1 : ℕ) < p.cfg.profileCount ∧ Decodes p pkt n d.1 ∧
        d.2.out = (attempt p pkt n d.1).out ∧ d.2.mem = (attempt p pkt n d.1).mem) ∨
      d.2.out = none ∧ ∀ k : Fin awgMaxProfiles, (k : ℕ) < p.cfg.profileCount →
        ¬ Decodes p pkt n k := by
  have hsame : ∀ (k : Fin awgMaxProfiles) (ks : Option Bytes), KsValid p.cfg p.mem pkt ks →
      d.2 = transformInboundProfile p.mem pkt n p.cfg (p.cfg.profiles k) ks →
        d.2.out = (attempt p pkt n k).out ∧ d.2.mem = (attempt p pkt n k).mem := by
    intro k ks hks hk
    obtain ⟨hmem, hout⟩ := Prod.mk.inj (outcome_of_ksValid (n := n) (p.cfg.profiles k) hks)
    rw [hk]
    exact ⟨hout, hmem⟩
  have hcases := c2sDecode_cases hchain hf hprof hks
  rw [hd] at hcases
  rcases hcases with ⟨hsome, hd1⟩ | ⟨hnone, ⟨hother, -, hout⟩ | ⟨k, ks', hother, hd1, hks', hd2⟩⟩
  · have hdec := (decodes_iff hchain hf hprof).mpr hsome
    have hd2 : d.2 = transformInboundProfile p.mem pkt n p.cfg (p.cfg.profiles prof) ks := by
      obtain ⟨msg, hmsg⟩ := Option.isSome_iff_exists.mp hsome
      obtain ⟨q, l, hout, -⟩ := transformInboundProfile_of_stageFinds hchain hks hf hprof hmsg
      rw [← hd, c2sDecode, hout, if_neg fun h => Bool.false_ne_true h.1]
    rw [hd1]
    exact Or.inl ⟨hprof, hdec, hsame prof ks hks hd2⟩
  · refine Or.inr ⟨hout, fun k hk hdec => ?_⟩
    rw [decodes_iff hchain hf hk] at hdec
    by_cases hkp : k = prof
    · rw [hkp, hnone] at hdec
      contradiction
    · have hfree := List.find?_eq_none.mp hother k (mem_stages_iff.mpr hk)
      rw [hdec, decide_eq_true hkp] at hfree
      exact hfree rfl
  · obtain ⟨hk, -, msg, hmsg⟩ := otherStage?_eq_some hother
    rw [hd1]
    exact Or.inl ⟨hk, (decodes_iff hchain hf hk).mpr (by rw [hmsg]; rfl), hsame k ks' hks' hd2⟩

/-- The loop body on a datagram the fast path does not take. -/
theorem c2sThreadReversePkt_slow (hn : n ≠ 0)
    (hfast : ¬ takesFastPath p pkt n (p.cfg.profiles (c2sExpectedStage p src)) = true) :
    c2sThreadReversePkt p src pkt n = c2sSlowPath p.flush src pkt n (c2sExpectedStage p src)
      (c2sFastKs p pkt n (p.cfg.profiles (c2sExpectedStage p src))) := by
  rw [c2sThreadReversePkt, if_neg hn]
  exact if_neg hfast

theorem c2sThreadReversePkt_fast
    (hfast : takesFastPath p pkt n (p.cfg.profiles (c2sExpectedStage p src)) = true) (hn : n ≠ 0) :
    c2sThreadReversePkt p src pkt n =
      c2sFastPath p src pkt n (p.cfg.profiles (c2sExpectedStage p src)) := by
  rw [c2sThreadReversePkt, if_neg hn]
  exact if_pos hfast

/-- No attempt decodes an empty datagram. -/
theorem not_decodes_zero (k : Fin awgMaxProfiles) : ¬ Decodes p pkt 0 k := by
  rw [Decodes, attempt, transformInboundProfile, if_pos (by decide)]
  exact Bool.false_ne_true

/-- **The walk decodes what some attempt decodes.** -/
theorem handsOn_iff (hchain : p.cfg.AcceptedChain) (hf : p.mem.Fits pkt n)
    (hprof : (c2sExpectedStage p src : ℕ) < p.cfg.profileCount) :
    (∃ d, HandsOn p (c2sThreadReversePkt p src pkt n) d) ↔
      ∃ k : Fin awgMaxProfiles, (k : ℕ) < p.cfg.profileCount ∧ Decodes p pkt n k := by
  by_cases hn : n = 0
  · subst hn
    refine iff_of_false ?_ ?_
    · rintro ⟨d, hcount, -⟩
      rw [c2sThreadReversePkt, if_pos rfl] at hcount
      omega
    · rintro ⟨k, -, hk⟩
      exact not_decodes_zero k hk
  by_cases hfast : takesFastPath p pkt n (p.cfg.profiles (c2sExpectedStage p src)) = true
  · have hdec := (decodes_iff hchain hf hprof).mpr
      (isSome_stageFinds_of_takesFastPath hchain hprof hfast)
    rw [c2sThreadReversePkt_fast hfast hn]
    obtain ⟨hq, hs, -⟩ := c2sFastPath_queue p src pkt n (p.cfg.profiles (c2sExpectedStage p src))
    refine iff_of_true ⟨_, ?_, _, _, by rw [hq, List.getLast?_concat], rfl⟩ ⟨_, hprof, hdec⟩
    rw [C2sProxy.handedOn, C2sProxy.handedOn, hq, hs, List.length_append]
    rfl
  · rw [c2sThreadReversePkt_slow hn hfast]
    obtain ⟨d, hd⟩ : ∃ d, c2sDecode p.mem pkt n p.cfg (c2sExpectedStage p src)
        (c2sFastKs p pkt n (p.cfg.profiles (c2sExpectedStage p src))) = d := ⟨_, rfl⟩
    obtain ⟨hdrop, hhand⟩ := c2sSlowPath_handsOn src hd
    rcases c2sDecode_spec hchain hf hprof (ksValid_c2sFastKs p pkt n _) hd with
      ⟨hk, hdec, hout, -⟩ | ⟨hnone, hno⟩
    · obtain ⟨⟨out, len⟩, hsome⟩ := Option.isSome_iff_exists.mp hdec
      exact iff_of_true ⟨_, hhand out len (hout.trans hsome)⟩ ⟨d.1, hk, hdec⟩
    · refine iff_of_false ?_ ?_
      · rintro ⟨e, hcount, -⟩
        rw [hdrop hnone] at hcount
        omega
      · rintro ⟨k, hk, hdec⟩
        exact hno k hk hdec

/-- **Walking the chain.** For every accepted chain, datagram and starting stage, the walk is
as good as attempts on copies, unless the datagram overtakes the decoder of the starting stage
and no other stage decodes it. -/
theorem walkAsAttempts_iff (hchain : p.cfg.AcceptedChain) (hf : p.mem.Fits pkt n)
    (hprof : (c2sExpectedStage p src : ℕ) < p.cfg.profileCount) :
    WalkAsAttempts p src pkt n ↔
      ¬ (Overtakes p.mem pkt n p.cfg (p.cfg.profiles (c2sExpectedStage p src)) ∧
        ∀ j : Fin awgMaxProfiles, (j : ℕ) < p.cfg.profileCount → j ≠ c2sExpectedStage p src →
          ¬ Decodes p pkt n j) := by
  obtain ⟨pr, hpr⟩ := hchain.accepted _ hprof
  constructor
  · rintro hwalk ⟨hover, hothers⟩
    rw [hpr] at hover
    have hfast : takesFastPath p pkt n pr.toAwgProfile = true :=
      (takesFastPath_iff_asNormal pr.toAwgProfile).mpr
        (((overtakes_asNormal_iff pr.toAwgProfile).mpr hover).takesFastPath rfl)
    obtain ⟨k, out, len, hout, -⟩ := attempt_of_overtakes hf hover
    have hn : n ≠ 0 := by
      rintro rfl
      have hsize := (Bool.and_eq_true_iff.mp hover.transport).1
      have hs4 := pr.valid.s4_mem.1
      have h32 : (32 : ℤ) = wgTransportMin := rfl
      rw [decide_eq_true_eq] at hsize
      omega
    have hattempt : attempt p pkt n (c2sExpectedStage p src) =
        transformInboundProfile p.mem pkt n p.cfg pr.toAwgProfile none := by rw [attempt, hpr]
    obtain ⟨hhand, -⟩ := hwalk.alone _ out len hprof (by rw [hattempt, hout]) hothers
    rw [c2sThreadReversePkt_fast (by rw [hpr]; exact hfast) hn, hattempt, hpr] at hhand
    exact not_handsOn_of_overtakes src hf hfast hover hout hhand
  · intro hno
    refine ⟨fun k ks _ => mem_eq_of_out_eq_none, handsOn_iff hchain hf hprof,
      fun k out len hk hout hothers => ?_⟩
    have hdec : Decodes p pkt n k := by rw [Decodes, hout]; rfl
    have hn : n ≠ 0 := by
      rintro rfl
      exact not_decodes_zero k hdec
    by_cases hfast : takesFastPath p pkt n (p.cfg.profiles (c2sExpectedStage p src)) = true
    · -- the starting stage decodes too, so it is the one
      have hstart := (decodes_iff hchain hf hprof).mpr
        (isSome_stageFinds_of_takesFastPath hchain hprof hfast)
      obtain rfl : c2sExpectedStage p src = k := by
        by_contra hne
        exact hothers _ hprof hne hstart
      rw [c2sThreadReversePkt_fast hfast hn, attempt, hpr]
      rw [hpr] at hfast
      rw [attempt, hpr] at hout
      refine ⟨c2sFastPath_of_not_overtakes src hf hfast (fun hover => hno ⟨?_, hothers⟩) hout,
        expectedStage_c2sFastPath p src pkt n pr.toAwgProfile⟩
      rw [hpr]
      exact hover
    · rw [c2sThreadReversePkt_slow hn hfast]
      obtain ⟨d, hd⟩ : ∃ d, c2sDecode p.mem pkt n p.cfg (c2sExpectedStage p src)
          (c2sFastKs p pkt n (p.cfg.profiles (c2sExpectedStage p src))) = d := ⟨_, rfl⟩
      rcases c2sDecode_spec hchain hf hprof (ksValid_c2sFastKs p pkt n _) hd with
        ⟨hd1, hdec', hout', hmem'⟩ | ⟨-, hnone⟩
      swap
      · exact absurd hdec (hnone k hk)
      have hsame : d.1 = k := by
        by_contra hne
        exact hothers d.1 hd1 hne hdec'
      rw [hsame] at hout' hmem'
      have hsome := hout'.trans hout
      refine ⟨hmem' ▸ (c2sSlowPath_handsOn src hd).2 out len hsome, ?_⟩
      rw [← hsame]
      refine expectedStage_c2sSlowPath (p := p.flush) hd (by rw [hsome]; rfl) fun hne => ?_
      -- two stages of the chain
      by_contra hsingle
      exact hne (Fin.ext (by
        have : (c2sExpectedStage p.flush src : ℕ) = c2sExpectedStage p src := rfl
        have : p.flush.cfg.profileCount = p.cfg.profileCount := rfl
        omega))

end

/-! ### A response that its own stage decodes otherwise -/

/-- A configuration of reverse mode with that profile and a second stage. -/
def trailerChainConfig : AwgConfig :=
  { trailerConfig with
    mode := .reverse
    profiles := fun k => if k = 0 then trailerProfile.toAwgProfile else plainProfile.toAwgProfile
    profileCount := 2 }

/-- The c2s thread with the padded response and a trailer in its buffers. -/
def trailerChain : C2sProxy where
  cfg := trailerChainConfig
  table := .empty
  profCache := fun _ => ⟨0, 0⟩
  listenFamily := .inet
  mem := trailerProxy.mem
  queue := []
  sent := []

theorem acceptedChain_trailerChain : trailerChain.cfg.AcceptedChain where
  accepted k _ := by
    by_cases hk : k = 0
    · exact ⟨trailerProfile, if_pos hk⟩
    · exact ⟨plainProfile, if_neg hk⟩
  active := by decide

/-- Without a trailer the response does not overtake the decoder of its stage. -/
theorem walkAsAttempts_paddedResponse :
    WalkAsAttempts trailerChain (.v4 0x0A000001 51820) ⟨.recv 0, 0⟩ 100 :=
  (walkAsAttempts_iff acceptedChain_trailerChain (by decide +kernel) (by decide)).mpr
    fun h => h.1.size_ne .response (by decide)

/-- With a trailer of twenty bytes one stage alone decodes it, to a response of 92 bytes; the
walk hands 120 bytes of transport data on. -/
theorem not_walkAsAttempts_paddedResponse :
    ¬ WalkAsAttempts trailerChain (.v4 0x0A000001 51820) ⟨.recv 0, 0⟩ 120 := by
  intro hwalk
  have hothers : ∀ j : Fin awgMaxProfiles, (j : ℕ) < trailerChain.cfg.profileCount → j ≠ 0 →
      ¬ Decodes trailerChain ⟨.recv 0, 0⟩ 120 j := by
    intro j hj hne
    have hj : (j : ℕ) < 2 := hj
    have hpos : (j : ℕ) ≠ 0 := fun h => hne (Fin.ext h)
    obtain rfl : j = ⟨1, by decide⟩ := Fin.ext (show (j : ℕ) = 1 by omega)
    rw [Decodes]
    decide
  obtain ⟨⟨-, out, len, hlast, hread⟩, -⟩ :=
    hwalk.alone 0 ⟨.recv 0, 8⟩ 92 (by decide) (by decide) hothers
  have hqueue : (c2sThreadReversePkt trailerChain (.v4 0x0A000001 51820) ⟨.recv 0, 0⟩
      120).queue.getLast? = some (⟨.recv 0, 0⟩, 120) := by decide
  obtain ⟨rfl, rfl⟩ := Prod.mk.inj (Option.some.inj (hqueue.symm.trans hlast))
  have hlen := congrArg List.length hread
  exact absurd hlen (by decide +kernel)

end AwgProxy
