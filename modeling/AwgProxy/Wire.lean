import AwgProxy.C2sNormal
import AwgProxy.ChainWalk
import AwgProxy.S2cDecode
import AwgProxy.Trailers

/-!
# Stages on the Wire

What a datagram of one stage is to the stages of a chain. Both ends of a tunnel have the
chain; a message goes out under one of its stages, and the other end has to find out which.

* `Carries` — the datagram is an encoding of the message, whichever end and whichever of its
  paths made it, with any random value, padding and trailer.
* `AwgConfig.ToldApart` — the stages pad alike and share no header, so that the one word behind
  the padding belongs to one stage at most.
* `returns_of_carries`, `stageFinds_eq_none_of_carries` — then the stage of a datagram returns
  the message, and no other stage finds anything in it.
* `normalDecode_of_carries`, `c2sThreadReversePkt_of_carries` — what becomes of the datagram at
  the client's end, which knows its stage, and at the server's, which walks the chain.
-/

namespace AwgProxy

/-! ### Messages and their encodings -/

/-- A message of the WireGuard protocol. -/
def IsWireGuard (d : Bytes) : Prop :=
  (handshakeKind? d).isSome = true ∨ IsTransport d

/-- The datagram `w` carries the message `d` under a profile: a handshake with its header and its
sum behind its padding, under protection and with a trailer where the profile has one, or
transport data with its header behind its padding, the header under protection. -/
def Carries (cfg : AwgConfig) (pr : AwgProfile) (outKey : Option Bytes) (d w : Bytes) : Prop :=
  match handshakeKind? d with
  | some k => ∃ randVal pad tr, pad.length = (k.pad pr).toNat ∧ (pr.rt = true ∨ tr = []) ∧
      w = pad ++ protect cfg pr pad (k.rewrite pr outKey randVal d) ++ tr
  | none => ∃ h pad, hrangeContains pr.h4 h = true ∧ pad.length = pr.s4.toNat ∧
      w = pad ++ protectHeader cfg pr pad (retype h d)

/-- The message `d'` is what a receiver has of `d`: itself, a handshake up to its sum. -/
def ComesBack (inKey outKey : Option Bytes) (pr : AwgProfile) (d d' : Bytes) : Prop :=
  ∃ randVal, d' = returned inKey outKey pr randVal d

/-- A message comes back with its length and its type. -/
theorem ComesBack.length_eq {inKey outKey : Option Bytes} {pr : AwgProfile} {d d' : Bytes}
    (h : ComesBack inKey outKey pr d d') :
    d'.length = d.length ∧ load32Le d' 0 = load32Le d 0 := by
  obtain ⟨randVal, rfl⟩ := h
  exact ⟨length_returned .., load32Le_returned ..⟩

/-- Transport data is no handshake. -/
theorem IsTransport.handshakeKind?_eq_none {d : Bytes} (h : IsTransport d) :
    handshakeKind? d = none := by
  rw [← Option.not_isSome_iff_eq_none, Option.isSome_iff_exists]
  rintro ⟨k, hk⟩
  exact k.type_ne_transport ((handshakeKind?_eq_some_iff.mp hk).1.symm.trans h.2)

theorem isTransport_of_isWireGuard {d : Bytes} (h : IsWireGuard d)
    (hk : handshakeKind? d = none) : IsTransport d := by
  rcases h with h | h
  · rw [hk] at h
    contradiction
  · exact h

/-! ### Stages that are told apart -/

/-- The headers of a profile, of whatever message. -/
def AwgProfile.headers (pr : AwgProfile) : List HRange :=
  [pr.h1, pr.h2, pr.h3, pr.h4]

theorem HandshakeKind.header_mem (pr : AwgProfile) (k : HandshakeKind) :
    k.header pr ∈ pr.headers := by
  cases k <;> simp [HandshakeKind.header, AwgProfile.headers]

theorem AwgProfile.h4_mem (pr : AwgProfile) : pr.h4 ∈ pr.headers := by
  simp [AwgProfile.headers]

/-- The stages of a chain are told apart by one word: they pad every message alike, protect
headers alike, let nothing pass unchanged, and no two of them share a header. -/
structure AwgConfig.ToldApart (cfg : AwgConfig) : Prop where
  equal : ∀ k : Fin awgMaxProfiles, (k : ℕ) < cfg.profileCount → (cfg.profiles k).EqualPaddings
  pads : ∀ j k : Fin awgMaxProfiles, (j : ℕ) < cfg.profileCount → (k : ℕ) < cfg.profileCount →
    (cfg.profiles j).s4 = (cfg.profiles k).s4 ∧ (cfg.profiles j).hpOn = (cfg.profiles k).hpOn
  changed : ∀ k : Fin awgMaxProfiles, (k : ℕ) < cfg.profileCount →
    (cfg.profiles k).h4Noop = false
  apart : ∀ j k : Fin awgMaxProfiles, (j : ℕ) < cfg.profileCount → (k : ℕ) < cfg.profileCount →
    j ≠ k → ∀ a ∈ (cfg.profiles j).headers, ∀ b ∈ (cfg.profiles k).headers,
      hrangeOverlaps a b = false

/-- Being told apart is a matter of the chain. -/
theorem AwgConfig.ToldApart.congr {cfg cfg' : AwgConfig} (h : cfg.ToldApart)
    (hprofiles : cfg'.profiles = cfg.profiles) (hcount : cfg'.profileCount = cfg.profileCount) :
    cfg'.ToldApart where
  equal k hk := by
    rw [hprofiles]
    exact h.equal k (hcount ▸ hk)
  pads j k hj hk := by
    rw [hprofiles]
    exact h.pads j k (hcount ▸ hj) (hcount ▸ hk)
  changed k hk := by
    rw [hprofiles]
    exact h.changed k (hcount ▸ hk)
  apart j k hj hk := by
    rw [hprofiles]
    exact h.apart j k (hcount ▸ hj) (hcount ▸ hk)

section

variable {cfgS cfgR : AwgConfig} {pr : AcceptedProfile} {outKey : Option Bytes} {m : Mem PktBuf}
  {p : Ptr PktBuf} {n : ℕ} {ks : Option Bytes} {d w : Bytes}

/-! ### The stage of a datagram -/

/-- The rewritten transport data of a datagram has one of the headers, and a length. -/
theorem retype_of_hrangeContains {h : UInt32} (hd : IsTransport d)
    (hin : hrangeContains pr.h4 h = true) :
    32 ≤ (retype h d).length ∧ hrangeContains pr.h4 (load32Le (retype h d) 0) = true := by
  have h32 : 32 ≤ d.length := hd.1
  rw [length_retype (by omega), load32Le_retype (by omega)]
  exact ⟨h32, hin⟩

/-- The rewritten handshake of a datagram has one of its headers, and its size. -/
theorem rewrite_of_handshakeKind? (pr : AcceptedProfile) (outKey : Option Bytes)
    {k : HandshakeKind} (hk : handshakeKind? d = some k) (randVal : UInt64) :
    (k.rewrite pr.toAwgProfile outKey randVal d).length = k.size ∧
      hrangeContains (k.header pr.toAwgProfile)
        (load32Le (k.rewrite pr.toAwgProfile outKey randVal d) 0) = true := by
  obtain ⟨-, hsz⟩ := handshakeKind?_eq_some_iff.mp hk
  rw [load32Le_rewrite _ hsz]
  exact ⟨HandshakeKind.length_rewrite hsz, hrangeContains_hrangePick _ _⟩

/-- **Under its own stage** a datagram returns its message. -/
theorem returns_of_carries (heq : pr.EqualPaddings) (hnoop : pr.h4Noop = false)
    (hkey : cfgR.hpKey = cfgS.hpKey) (hd : IsWireGuard d)
    (hc : Carries cfgS pr.toAwgProfile outKey d w) (hf : m.Fits p n) (hw : m.read p n = w)
    (hks : KsValid cfgR m p ks) :
    ∃ d', ComesBack cfgR.mac1keyIn outKey pr.toAwgProfile d d' ∧
      Returns (transformInboundProfile m p n cfgR pr.toAwgProfile ks) d' := by
  have hslow : ¬ fastPath m p n pr.toAwgProfile := not_fastPath_of_h4Noop hnoop
  rw [Carries] at hc
  rcases hk : handshakeKind? d with _ | k
  · rw [hk] at hc
    obtain ⟨h, pad, hin, hpad, rfl⟩ := hc
    have ht := isTransport_of_isWireGuard hd hk
    have h32 : 32 ≤ d.length := ht.1
    obtain ⟨hlen, hin'⟩ := retype_of_hrangeContains ht hin
    have hother : matchesTransport m p n pr.toAwgProfile
        (recvKs cfgR m p pr.toAwgProfile ks) = true → ∀ j,
          matchesKind m p n pr.toAwgProfile (recvKs cfgR m p pr.toAwgProfile ks) j = false := by
      intro hmatch
      rw [matchesTransport, Bool.and_eq_true] at hmatch
      exact matchesKind_eq_false_of_h4 heq hmatch.2
    obtain ⟨hout, hread⟩ := decode_transport hlen hin' hkey hf hpad hw hother hks hslow rfl
    rw [retype_retype, retype_of_load32Le (by omega) ht.2] at hread
    rw [length_retype (by omega)] at hout hread
    exact ⟨d, ⟨0, by simp only [returned, hk]⟩, _, hout, hread⟩
  · rw [hk] at hc
    obtain ⟨randVal, pad, tr, hpad, htr, rfl⟩ := hc
    obtain ⟨-, hsz⟩ := handshakeKind?_eq_some_iff.mp hk
    obtain ⟨hrw, hin⟩ := rewrite_of_handshakeKind? pr outKey hk randVal
    obtain ⟨-, -, -, hmatch⟩ := matchesKind_protect hrw hin htr hkey hf hpad hw hks
    have hbefore : ∀ j : HandshakeKind, j.rank < k.rank →
        matchesKind m p n pr.toAwgProfile (recvKs cfgR m p pr.toAwgProfile ks) j = false := by
      intro j hj
      have hjk : j ≠ k := fun h => absurd hj (h ▸ lt_irrefl _)
      exact matchesKind_eq_false_of_header heq hjk hmatch
    obtain ⟨hout, hread⟩ := decode_handshake_of_first hrw hin htr hkey hf hpad hw hks hslow
      hbefore rfl
    rw [putMac_retype_rewrite _ _ _ hk, hrw] at hread
    rw [hrw] at hout
    refine ⟨_, ⟨randVal, rfl⟩, ?_⟩
    rw [Returns, length_returned, hsz]
    exact ⟨_, hout, hread⟩

/-- The word a datagram is judged by is a header of its stage. -/
theorem headerWord_of_carries (heq : pr.EqualPaddings) (hkey : cfgR.hpKey = cfgS.hpKey)
    (hd : IsWireGuard d) (hc : Carries cfgS pr.toAwgProfile outKey d w) (hf : m.Fits p n)
    (hw : m.read p n = w) :
    ∃ r ∈ pr.headers, hrangeContains r
      (headerWord m p pr.toAwgProfile (recvKs cfgR m p pr.toAwgProfile none)) = true := by
  have hks : KsValid cfgR m p none := by
    rintro k ⟨⟩
  rw [Carries] at hc
  rcases hk : handshakeKind? d with _ | k
  · rw [hk] at hc
    obtain ⟨h, pad, hin, hpad, rfl⟩ := hc
    have ht := isTransport_of_isWireGuard hd hk
    obtain ⟨hlen, hin'⟩ := retype_of_hrangeContains ht hin
    have hplen := length_protectHeader cfgS pr.toAwgProfile pad (retype h d)
    have hn : n = pad.length + (retype h d).length := by
      have := congrArg List.length hw
      rwa [Mem.length_read hf, List.length_append, hplen] at this
    have hbehind := read_behind_pad (hw.trans (List.append_nil _).symm) (by rw [hplen]; exact hn)
    rw [hplen] at hbehind
    have hnonce : pr.hpOn = true → m.read p 12 = pad.take 12 := by
      intro hon
      have := (pr.valid.hp hon).2.2.2
      exact read_nonce hw (by omega) (by omega)
    refine ⟨_, pr.h4_mem, ?_⟩
    rw [headerWord, ← hpad, read32Le_eq m _ (by omega : 4 ≤ (retype h d).length), hbehind,
      load32Le_protectHeader_xor_typeMask pr hkey hnonce hks hlen]
    exact hin'
  · rw [hk] at hc
    obtain ⟨randVal, pad, tr, hpad, htr, rfl⟩ := hc
    obtain ⟨hrw, hin⟩ := rewrite_of_handshakeKind? pr outKey hk randVal
    obtain ⟨-, -, -, hmatch⟩ := matchesKind_protect hrw hin htr hkey hf hpad hw hks
    exact ⟨_, k.header_mem _, hrangeContains_of_matchesKind heq hmatch⟩

/-- A stage that finds something has the word among its headers. -/
theorem headerWord_of_inboundMessage? (heq : pr.EqualPaddings) (hnoop : pr.h4Noop = false)
    {msg : InboundMessage} (h : inboundMessage? m p n cfgR pr.toAwgProfile = some msg) :
    ∃ r ∈ pr.headers, hrangeContains r
      (headerWord m p pr.toAwgProfile (recvKs cfgR m p pr.toAwgProfile none)) = true := by
  have hkind : ∀ k : HandshakeKind,
      matchesKind m p n pr.toAwgProfile (recvKs cfgR m p pr.toAwgProfile none) k = true →
      ∃ r ∈ pr.headers, hrangeContains r
        (headerWord m p pr.toAwgProfile (recvKs cfgR m p pr.toAwgProfile none)) = true :=
    fun k hk => ⟨_, k.header_mem _, hrangeContains_of_matchesKind heq hk⟩
  simp only [inboundMessage?] at h
  split_ifs at h with h4 hfast h12 hi hr hc ht
  · exact absurd hfast (not_fastPath_of_h4Noop hnoop)
  · exact hkind _ hi
  · exact hkind _ hr
  · exact hkind _ hc
  · rw [matchesTransport, Bool.and_eq_true] at ht
    exact ⟨_, pr.h4_mem, ht.2⟩

end

/-! ### Two ends with one chain -/

/-- Two ends of a tunnel: the chain, which is accepted and whose stages are told apart, and the
header protection key are the same. -/
structure SameTunnel (cfgS cfgR : AwgConfig) : Prop where
  accepted : ∀ k : Fin awgMaxProfiles, (k : ℕ) < cfgS.profileCount →
    ∃ pr : AcceptedProfile, cfgS.profiles k = pr.toAwgProfile
  apart : cfgS.ToldApart
  profiles : cfgR.profiles = cfgS.profiles
  count : cfgR.profileCount = cfgS.profileCount
  hpKey : cfgR.hpKey = cfgS.hpKey

section

variable {cfgS cfgR : AwgConfig} {j k : Fin awgMaxProfiles} {outKey : Option Bytes}
  {m : Mem PktBuf} {p : Ptr PktBuf} {n : ℕ} {d w : Bytes}

/-- **Under another stage** nothing is found in a datagram. -/
theorem stageFinds_eq_none_of_carries (h : SameTunnel cfgS cfgR)
    (hk : (k : ℕ) < cfgS.profileCount) (hj : (j : ℕ) < cfgS.profileCount) (hjk : j ≠ k)
    (hd : IsWireGuard d) (hc : Carries cfgS (cfgS.profiles k) outKey d w) (hf : m.Fits p n)
    (hw : m.read p n = w) : inboundMessage? m p n cfgR (cfgS.profiles j) = none := by
  obtain ⟨prk, hprk⟩ := h.accepted k hk
  obtain ⟨prj, hprj⟩ := h.accepted j hj
  obtain ⟨hs4, hhp⟩ := h.apart.pads j k hj hk
  have hapart := h.apart.apart k j hk hj (Ne.symm hjk)
  have heqk := h.apart.equal k hk
  have heqj := h.apart.equal j hj
  have hnoop := h.apart.changed j hj
  rw [hprk] at hc hs4 hhp hapart heqk
  rw [hprj] at hs4 hhp hapart heqj hnoop ⊢
  rw [← Option.not_isSome_iff_eq_none, Option.isSome_iff_exists]
  rintro ⟨msg, hmsg⟩
  obtain ⟨a, ha, hina⟩ := headerWord_of_carries heqk h.hpKey hd hc hf hw
  obtain ⟨b, hb, hinb⟩ := headerWord_of_inboundMessage? heqj hnoop hmsg
  -- the padding and the protection are the same, so it is one word
  have hword : headerWord m p prj.toAwgProfile (recvKs cfgR m p prj.toAwgProfile none) =
      headerWord m p prk.toAwgProfile (recvKs cfgR m p prk.toAwgProfile none) := by
    rw [headerWord, headerWord, recvKs, recvKs, hs4, hhp]
  rw [hword] at hinb
  exact absurd (hinb.symm.trans
    (not_hrangeContains_of_not_hrangeOverlaps (hapart a ha b hb) hina)) Bool.true_eq_false.mp

/-! ### At the client's end -/

/-- What the client's end makes of a datagram of its own stage. -/
theorem normalDecode_of_carries (h : SameTunnel cfgS cfgR) (hmir : cfgR.Mirrored)
    (hk : (k : ℕ) < cfgS.profileCount) (hact : cfgR.activeProfile = k) (hd : IsWireGuard d)
    (hc : Carries cfgS (cfgS.profiles k) outKey d w) :
    ∃ d', normalDecode cfgR w = some d' ∧
      ComesBack cfgR.mac1keyIn outKey (cfgS.profiles k) d d' := by
  obtain ⟨pr, hpr⟩ := h.accepted k hk
  have heq := h.apart.equal k hk
  have hnoop := h.apart.changed k hk
  have hactive : configActiveProfile cfgR = pr.toAwgProfile := by
    rw [configActiveProfile, hact, h.profiles, hpr]
  rw [hpr] at hc heq hnoop ⊢
  have hf : (aloneMem w).Fits (⟨.gro, 0⟩ : Ptr PktBuf) w.length := (Nat.zero_add _).le
  have hks : KsValid cfgR (aloneMem w) ⟨.gro, 0⟩ none := by
    rintro k ⟨⟩
  obtain ⟨d', hback, hret⟩ := returns_of_carries heq hnoop h.hpKey hd hc hf
    (Bytes.slice_zero_length w) hks
  obtain ⟨q, hqueue, hread⟩ := queues_of_returns (p := .zeroed cfgR (aloneMem w)) heq hactive hmir
    hf hret
  refine ⟨d', ?_, hback⟩
  rw [normalDecode, hqueue]
  exact congrArg some hread

/-- What the client's end does with a datagram in which its stage finds nothing. -/
theorem normalDecode_eq_none {pr : AcceptedProfile} (hmir : cfgR.Mirrored)
    (hact : configActiveProfile cfgR = pr.toAwgProfile)
    (hnone : inboundMessage? (aloneMem w) ⟨.gro, 0⟩ w.length cfgR pr.toAwgProfile = none) :
    normalDecode cfgR w = none := by
  set q : Proxy := .zeroed cfgR (aloneMem w) with hq
  have hflat : q.cfg.toAwgProfile = pr.toAwgProfile := hmir.trans hact
  have hks : KsValid cfgR (aloneMem w) ⟨.gro, 0⟩ (normalKs q ⟨.gro, 0⟩ w.length) :=
    ksValid_normalKs q _ _
  have hslow : ¬ TakesFastPath q ⟨.gro, 0⟩ w.length := by
    intro hfast
    have hmatch := matchesTransport_of_takesFastPath hflat hfast
    have h32 := le_of_normalChecksTransport hfast.1
    have hs4 : q.cfg.s4 = pr.s4 := congrArg AwgProfile.s4 hflat
    have hs40 := pr.valid.s4_mem.1
    simp only [inboundMessage?] at hnone
    split_ifs at hnone with h4 hnoop h12
    · omega
    · simp only [awgHpMinPadding] at h12
      omega
    · rename_i ht
      exact ht hmatch
  have hout : (transformInboundProfile q.mem ⟨.gro, 0⟩ w.length q.cfg
      (configActiveProfile q.cfg) (normalKs q ⟨.gro, 0⟩ w.length)).out = none := by
    change (transformInboundProfile (aloneMem w) ⟨.gro, 0⟩ w.length cfgR
      (configActiveProfile cfgR) (normalKs q ⟨.gro, 0⟩ w.length)).out = none
    rw [hact]
    exact (transformInboundProfile_of_none hks hnone).2
  rw [normalDecode, ← hq, processS2cPktNormal_eq, if_neg]
  · dsimp only
    rw [hout]
    rfl
  · rwa [Bool.and_eq_true]

/-- **At the client's end** a datagram of another stage is dropped. -/
theorem normalDecode_of_carries_of_ne (h : SameTunnel cfgS cfgR) (hmir : cfgR.Mirrored)
    (hk : (k : ℕ) < cfgS.profileCount) (hj : (j : ℕ) < cfgS.profileCount) (hjk : j ≠ k)
    (hact : cfgR.activeProfile = j) (hd : IsWireGuard d)
    (hc : Carries cfgS (cfgS.profiles k) outKey d w) : normalDecode cfgR w = none := by
  obtain ⟨pr, hpr⟩ := h.accepted j hj
  have hactive : configActiveProfile cfgR = pr.toAwgProfile := by
    rw [configActiveProfile, hact, h.profiles, hpr]
  have hf : (aloneMem w).Fits (⟨.gro, 0⟩ : Ptr PktBuf) w.length := (Nat.zero_add _).le
  refine normalDecode_eq_none hmir hactive ?_
  rw [← hpr]
  exact stageFinds_eq_none_of_carries h hk hj hjk hd hc hf (Bytes.slice_zero_length w)

end

/-! ### At the server's end -/

/-- A datagram taken in a batch of its own by the c2s thread of the server's end. -/
def C2sProxy.arrives (p : C2sProxy) (e : C2sDatagram) : C2sProxy :=
  (c2sThreadReversePkt (p.receive e) e.src e.pkt e.data.length).flush

/-- What no datagram changes of a configuration: everything but the active stage, the flat
fields that mirror it and the window. -/
structure SameSite (cfg cfg' : AwgConfig) : Prop where
  chain : SameChain cfg cfg'
  hpKey : cfg'.hpKey = cfg.hpKey
  mac1keyIn : cfg'.mac1keyIn = cfg.mac1keyIn
  mac1keyOut : cfg'.mac1keyOut = cfg.mac1keyOut
  disableCookies : cfg'.disableCookies = cfg.disableCookies
  maxS4 : cfg'.maxS4 = cfg.maxS4

theorem SameSite.refl (cfg : AwgConfig) : SameSite cfg cfg :=
  ⟨.refl cfg, rfl, rfl, rfl, rfl, rfl⟩

theorem SameSite.trans {cfg cfg' cfg'' : AwgConfig} (h : SameSite cfg cfg')
    (h' : SameSite cfg' cfg'') : SameSite cfg cfg'' :=
  ⟨h.chain.trans h'.chain, h'.hpKey.trans h.hpKey, h'.mac1keyIn.trans h.mac1keyIn,
    h'.mac1keyOut.trans h.mac1keyOut, h'.disableCookies.trans h.disableCookies,
    h'.maxS4.trans h.maxS4⟩

theorem sameSite_configApplyProfile (cfg : AwgConfig) (k : Fin awgMaxProfiles) :
    SameSite cfg (configApplyProfile cfg k) :=
  ⟨⟨rfl, rfl, rfl⟩, rfl, rfl, rfl, rfl, rfl⟩

theorem sameSite_udpWindow (cfg : AwgConfig) (w : UInt32) :
    SameSite cfg { cfg with udpWindow := w } :=
  ⟨⟨rfl, rfl, rfl⟩, rfl, rfl, rfl, rfl, rfl⟩

section

variable {m : Mem PktBuf} {pkt : Ptr PktBuf} {n : ℕ} {cfg : AwgConfig} {p : C2sProxy}
  {src : CliAddr}

/-- The decoder works inside the buffers as they are. -/
theorem sameShape_transformInboundProfile (hf : m.Fits pkt n) (cfg : AwgConfig)
    (pr : AcceptedProfile) (ks : Option Bytes) :
    m.SameShape (transformInboundProfile m pkt n cfg pr.toAwgProfile ks).mem := by
  obtain ⟨o, ho, -⟩ := inboundAt_congr ⟨hf, hf, rfl⟩ cfg pr ks
  exact ho.changes.shape

/-- So does the walk of the chain. -/
theorem sameShape_c2sWalk (hchain : cfg.AcceptedChain) (prof : Fin awgMaxProfiles)
    {stages : List (Fin awgMaxProfiles)} (hstages : ∀ k ∈ stages, (k : ℕ) < cfg.profileCount)
    {r : InboundResult} (hf : r.mem.Fits pkt n) :
    r.mem.SameShape (c2sWalk pkt n cfg prof stages r).2.mem := by
  induction stages generalizing r with
  | nil => exact .refl _
  | cons k stages ih =>
      have hrest := fun j hj => hstages j (List.mem_cons_of_mem k hj)
      rw [c2sWalk]
      split
      · exact ih hrest hf
      · obtain ⟨pr, hpr⟩ := hchain.accepted k (hstages k List.mem_cons_self)
        have hshape := sameShape_transformInboundProfile hf cfg pr r.ks
        rw [hpr]
        dsimp only
        split
        · exact hshape
        · exact hshape.trans (ih hrest (hshape.fits_iff.mpr hf))

/-- So does the slow path's decoder. -/
theorem sameShape_c2sDecode (hchain : cfg.AcceptedChain) (hf : m.Fits pkt n)
    {prof : Fin awgMaxProfiles} (hprof : (prof : ℕ) < cfg.profileCount) (ks : Option Bytes) :
    m.SameShape (c2sDecode m pkt n cfg prof ks).2.mem := by
  obtain ⟨pr, hpr⟩ := hchain.accepted _ hprof
  rw [c2sDecode, hpr]
  have hshape := sameShape_transformInboundProfile hf cfg pr ks
  split
  · exact hshape.trans (sameShape_c2sWalk hchain _ (fun k hk => mem_stages_iff.mp hk)
      (hshape.fits_iff.mpr hf))
  · exact hshape

/-- In reverse mode every datagram is expected under the active stage. -/
theorem c2sExpectedStage_of_reverse (hmode : p.cfg.mode = .reverse) (src : CliAddr) :
    c2sExpectedStage p src = p.cfg.activeProfile := by
  rw [c2sExpectedStage, hmode]
  exact if_neg fun h => absurd h.2 (by decide)

/-- **One datagram** leaves the buffers as long as they are, and of the configuration it may
change the window and the active stage. -/
theorem c2sThreadReversePkt_frame (src : CliAddr) (hchain : p.cfg.AcceptedChain)
    (hmode : p.cfg.mode = .reverse) (hf : p.mem.Fits pkt n) (hqueue : p.queue = []) :
    let p' := c2sThreadReversePkt p src pkt n
    p.mem.SameShape p'.mem ∧ SameSite p.cfg p'.cfg ∧ p'.sent = p.sent := by
  obtain ⟨pr, hpr⟩ := hchain.accepted _ hchain.active
  dsimp only
  rw [c2sThreadReversePkt, c2sExpectedStage_of_reverse hmode]
  dsimp only
  split
  · exact ⟨.refl _, .refl _, rfl⟩
  split
  · rename_i hn hfast
    obtain ⟨-, hsent, hmem⟩ := c2sFastPath_queue p src pkt n (p.cfg.profiles p.cfg.activeProfile)
    obtain ⟨w, hw⟩ := awgWindowNote_eq p.cfg n
    rw [hmem, hsent, c2sFastPath_cfg, hw]
    refine ⟨?_, sameSite_udpWindow _ _, rfl⟩
    rw [hpr] at hfast ⊢
    have hlen := (read32Le_c2sFastPath src hf hfast).1
    exact (openTransport_spec _ (hf.add (by omega : pr.s4.toNat + (n - pr.s4.toNat) ≤ n))
      hlen).2.shape
  · obtain ⟨hmem, -⟩ := c2sSlowPath_frame p.flush src pkt n p.cfg.activeProfile
      (c2sFastKs p pkt n (p.cfg.profiles p.cfg.activeProfile))
    have hcfg := c2sSlowPath_cfg src (rfl : c2sDecode p.flush.mem pkt n p.flush.cfg
      p.cfg.activeProfile (c2sFastKs p pkt n (p.cfg.profiles p.cfg.activeProfile)) = _)
    rw [hmem, hcfg, c2sSlowPath_sent, C2sProxy.flush, hqueue, List.map_nil, List.append_nil]
    refine ⟨sameShape_c2sDecode hchain hf hchain.active _, ?_, rfl⟩
    · split
      · exact sameSite_configApplyProfile _ _
      · exact .refl _

/-- The family of the listening socket never changes. -/
theorem listenFamily_c2sThreadReversePkt (hmode : p.cfg.mode = .reverse) :
    (c2sThreadReversePkt p src pkt n).listenFamily = p.listenFamily := by
  have hnot : ∀ q : C2sProxy, q.cfg.mode = .reverse →
      ¬ (q.cfg.mode = .server ∧ src.family = q.listenFamily) := by
    rintro q hq ⟨hs, -⟩
    rw [hq] at hs
    contradiction
  rw [c2sThreadReversePkt]
  dsimp only
  split
  · rfl
  split
  · obtain ⟨w, hw⟩ := awgWindowNote_eq p.cfg n
    rw [c2sFastPath]
    dsimp only
    rw [hw, if_neg (hnot { p with cfg := { p.cfg with udpWindow := w } } hmode)]
    rfl
  · rw [c2sSlowPath]
    dsimp only
    split
    · rfl
    · rename_i out len hout
      generalize hd : c2sDecode p.flush.mem pkt n p.flush.cfg (c2sExpectedStage p src)
        (c2sFastKs p pkt n (p.cfg.profiles (c2sExpectedStage p src))) = d
      obtain ⟨q, hq⟩ : ∃ q, q = (if d.1 = c2sExpectedStage p src then
          { p.flush with mem := d.2.mem }
        else c2sAdopt { p.flush with mem := d.2.mem } src d.1) := ⟨_, rfl⟩
      have hfamily : q.cfg.mode = .reverse ∧ q.listenFamily = p.listenFamily := by
        rw [hq]
        split
        · exact ⟨hmode, rfl⟩
        · rw [c2sAdopt, if_neg (by rw [show p.flush.cfg.mode = .reverse from hmode]; decide)]
          exact ⟨hmode, rfl⟩
      rw [← hq, if_neg (hnot q hfamily.1)]
      exact hfamily.2

/-- Without a queue there is nothing to flush. -/
theorem flush_of_queue_eq_nil (hqueue : p.queue = []) : p.flush = p := by
  rw [C2sProxy.flush, hqueue, List.map_nil, List.append_nil, ← hqueue]

/-- **Noise**: what no stage finds anything in leaves no trace. -/
theorem c2sThreadReversePkt_of_noise (src : CliAddr) (hchain : p.cfg.AcceptedChain)
    (hprof : (c2sExpectedStage p src : ℕ) < p.cfg.profileCount) (hf : p.mem.Fits pkt n)
    (hqueue : p.queue = [])
    (hnone : ∀ j : Fin awgMaxProfiles, (j : ℕ) < p.cfg.profileCount →
      stageFinds p.mem pkt n p.cfg j = none) :
    ∃ m, c2sThreadReversePkt p src pkt n = { p with mem := m } ∧ p.mem.SameShape m := by
  rw [c2sThreadReversePkt]
  dsimp only
  split
  · exact ⟨p.mem, rfl, .refl _⟩
  split
  · rename_i hn hfast
    have hfinds := isSome_stageFinds_of_takesFastPath hchain hprof hfast
    rw [hnone _ hprof] at hfinds
    contradiction
  · obtain ⟨r, hr⟩ : ∃ r, c2sDecode p.mem pkt n p.cfg (c2sExpectedStage p src)
        (c2sFastKs p pkt n (p.cfg.profiles (c2sExpectedStage p src))) = r := ⟨_, rfl⟩
    have hshape := sameShape_c2sDecode hchain hf hprof
      (c2sFastKs p pkt n (p.cfg.profiles (c2sExpectedStage p src)))
    rw [hr] at hshape
    have hout : r.2.out = none := by
      rcases c2sDecode_spec hchain hf hprof (ksValid_c2sFastKs p pkt n _) hr with
        ⟨hr1, hdec, -⟩ | ⟨hout, -⟩
      · rw [decodes_iff hchain hf hr1, hnone _ hr1] at hdec
        contradiction
      · exact hout
    refine ⟨r.2.mem, ?_, hshape⟩
    rw [flush_of_queue_eq_nil hqueue, c2sSlowPath, hr]
    dsimp only
    rw [hout]

section

variable {cfgS : AwgConfig} {j k : Fin awgMaxProfiles} {outKey : Option Bytes} {d w : Bytes}

/-- No stage but its own decodes a datagram of the other end. -/
theorem not_decodes_of_carries (h : SameTunnel cfgS p.cfg) (hchain : p.cfg.AcceptedChain)
    (hf : p.mem.Fits pkt n) (hread : p.mem.read pkt n = w) (hk : (k : ℕ) < cfgS.profileCount)
    (hd : IsWireGuard d) (hc : Carries cfgS (cfgS.profiles k) outKey d w)
    (hj : (j : ℕ) < p.cfg.profileCount) (hjk : j ≠ k) : ¬ Decodes p pkt n j := by
  rw [decodes_iff hchain hf hj, stageFinds, h.profiles,
    stageFinds_eq_none_of_carries h hk (h.count ▸ hj) hjk hd hc hf hread]
  exact Bool.false_ne_true

/-- **A datagram of the other end** is handed on as its stage decodes it, whichever is expected
from its source, and its stage is expected next. -/
theorem handsOn_of_carries (src : CliAddr) (h : SameTunnel cfgS p.cfg)
    (hchain : p.cfg.AcceptedChain) (hprof : (c2sExpectedStage p src : ℕ) < p.cfg.profileCount)
    (hf : p.mem.Fits pkt n) (hread : p.mem.read pkt n = w) (hk : (k : ℕ) < cfgS.profileCount)
    (hd : IsWireGuard d) (hc : Carries cfgS (cfgS.profiles k) outKey d w) :
    (∃ d', ComesBack p.cfg.mac1keyIn outKey (cfgS.profiles k) d d' ∧
        Returns (attempt p pkt n k) d' ∧ HandsOn p (c2sThreadReversePkt p src pkt n) d') ∧
      c2sExpectedStage (c2sThreadReversePkt p src pkt n) src = k := by
  have hks : KsValid p.cfg p.mem pkt none := by
    rintro k ⟨⟩
  have halone := fun j hj hjk => not_decodes_of_carries (j := j) h hchain hf hread hk hd hc hj hjk
  -- its own stage decodes it
  obtain ⟨pr, hpr⟩ := h.accepted k hk
  have heq := h.apart.equal k hk
  have hnoop := h.apart.changed k hk
  have hown : ∃ d', ComesBack p.cfg.mac1keyIn outKey (cfgS.profiles k) d d' ∧
      Returns (attempt p pkt n k) d' := by
    rw [attempt, h.profiles]
    rw [hpr] at heq hnoop hc ⊢
    exact returns_of_carries heq hnoop h.hpKey hd hc hf hread hks
  obtain ⟨d', hback, out, hout, hbytes⟩ := hown
  have hwalk : WalkAsAttempts p src pkt n := by
    refine (walkAsAttempts_iff hchain hf hprof).mpr ?_
    rintro ⟨hover, -⟩
    obtain ⟨pra, hpra⟩ := hchain.accepted _ hprof
    have heqa := h.apart.equal _ (h.count ▸ hprof)
    rw [hpra] at hover
    rw [← h.profiles, hpra] at heqa
    exact not_overtakes_of_equalPaddings heqa _ hover
  obtain ⟨hhands, hstage⟩ := hwalk.alone k out _ (h.count.symm ▸ hk) hout halone
  exact ⟨⟨d', hback, ⟨out, hout, hbytes⟩, hbytes ▸ hhands⟩, hstage⟩

/-- What is handed on when nothing was queued is queued alone. -/
theorem HandsOn.queue_eq {p' : C2sProxy} {d' : Bytes} (h : HandsOn p p' d') (hqueue : p.queue = [])
    (hsent : p'.sent = p.sent) : ∃ e, p'.queue = [e] ∧ p'.mem.read e.1 e.2 = d' := by
  obtain ⟨hcnt, out, len, hlast, hread⟩ := h
  rw [C2sProxy.handedOn, C2sProxy.handedOn, hsent, hqueue, List.length_nil] at hcnt
  obtain ⟨x, hx⟩ := List.length_eq_one_iff.mp (show p'.queue.length = 1 by omega)
  rw [hx, List.getLast?_singleton, Option.some.injEq] at hlast
  exact ⟨x, hx, by rw [hlast, hread]⟩

/-- In reverse mode its message is queued and its stage is active from then on. -/
theorem c2sThreadReversePkt_of_carries (h : SameTunnel cfgS p.cfg)
    (hchain : p.cfg.AcceptedChain) (hmode : p.cfg.mode = .reverse) (hf : p.mem.Fits pkt n)
    (hqueue : p.queue = []) (hread : p.mem.read pkt n = w) (hk : (k : ℕ) < cfgS.profileCount)
    (hd : IsWireGuard d) (hc : Carries cfgS (cfgS.profiles k) outKey d w) {p' : C2sProxy}
    (hp' : c2sThreadReversePkt p src pkt n = p') :
    (∃ d' e, ComesBack p.cfg.mac1keyIn outKey (cfgS.profiles k) d d' ∧ p'.queue = [e] ∧
        p'.mem.read e.1 e.2 = d') ∧
      p'.cfg.activeProfile = k := by
  have hprof : (c2sExpectedStage p src : ℕ) < p.cfg.profileCount := by
    rw [c2sExpectedStage_of_reverse hmode]
    exact hchain.active
  obtain ⟨⟨d', hback, -, hhands⟩, hstage⟩ :=
    handsOn_of_carries src h hchain hprof hf hread hk hd hc
  obtain ⟨-, hsite, hsent⟩ := c2sThreadReversePkt_frame src hchain hmode hf hqueue
  rw [c2sExpectedStage_of_reverse (hsite.chain.mode.trans hmode)] at hstage
  rw [hp'] at hhands hsent hstage
  obtain ⟨e, hq, hbytes⟩ := hhands.queue_eq hqueue hsent
  exact ⟨⟨d', e, hback, hq, hbytes⟩, hstage⟩

end

end

/-- What a batch of one datagram leaves of the proxy. -/
theorem arrives_frame {p : C2sProxy} {e : C2sDatagram} (hchain : p.cfg.AcceptedChain)
    (hmode : p.cfg.mode = .reverse) (hqueue : p.queue = [])
    (hbuf : e.data.length ≤ (p.mem (.recv e.slot)).length) :
    p.mem.SameShape (p.arrives e).mem ∧ SameSite p.cfg (p.arrives e).cfg ∧
      (p.arrives e).queue = [] := by
  obtain ⟨hshape, hsite, -⟩ := c2sThreadReversePkt_frame (p := p.receive e) e.src hchain
    hmode (fits_receive hbuf) hqueue
  have hwrite : p.mem.SameShape (p.receive e).mem :=
    Mem.sameShape_write (by rw [Mem.Fits, C2sDatagram.pkt, Nat.zero_add]; exact hbuf)
  exact ⟨hwrite.trans hshape, hsite, rfl⟩

end AwgProxy
