import AwgProxy.Decoder
import AwgProxy.Proxy

/-!
# The Inbound Fast Path

In normal mode the s2c thread looks for transport data before it asks the decoder, which
looks for handshakes first. A flag derived from the profile says when the two cannot
differ: the datagram is not as long as a padded handshake. Random trailers make every
longer datagram a possible handshake, and the flag does not know of them.

* `sameAsDecoder_iff` — the packet function does what the decoder alone does, unless the
  datagram reads as transport data and as a handshake with a trailer (`Overtakes`).
-/

namespace AwgProxy

variable {p : Proxy} {pkt : Ptr PktBuf} {n : ℕ}

/-- The state `p'` after the packet function of normal mode queues what a transform left
behind, its message with the bytes in the region, or nothing. -/
def Delivers (p p' : Proxy) (r : Mem PktBuf × Option (Ptr PktBuf × ℕ)) : Prop :=
  match r.2 with
  | none => p'.queue = p.queue
  | some (out, outLen) =>
      p'.queue = p.queue ++ [⟨out, outLen, p.clientAddr⟩] ∧
        p'.mem.read out outLen = r.1.read out outLen

/-- The memory and the message the decoder leaves behind. -/
def InboundResult.outcome (r : InboundResult) : Mem PktBuf × Option (Ptr PktBuf × ℕ) :=
  (r.mem, r.out)

/-- The packet function does with the datagram what the decoder alone does. -/
def SameAsDecoder (p : Proxy) (pkt : Ptr PktBuf) (n : ℕ) : Prop :=
  Delivers p (processS2cPktNormal p pkt n)
    (transformInboundProfile p.mem pkt n p.cfg (configActiveProfile p.cfg) none).outcome

/-- The datagram reads as transport data, and as a handshake with a trailer too: the fast
path takes it before the decoder can see the handshake. -/
structure Overtakes (m : Mem PktBuf) (pkt : Ptr PktBuf) (n : ℕ) (cfg : AwgConfig)
    (pr : AwgProfile) : Prop where
  /-- The profile sends trailers. -/
  trailers : pr.rt = true
  /-- Transport data does not pass unchanged. -/
  changed : pr.h4Noop = false
  /-- The datagram is long enough for transport data and has one of its headers. -/
  transport : matchesTransport m pkt n pr (recvKs cfg m pkt pr none) = true
  /-- It is not as long as a padded handshake. -/
  size_ne : ∀ k : HandshakeKind, (n : ℤ) ≠ k.total pr
  /-- It is longer than one whose header it has. -/
  handshake : ∃ k : HandshakeKind, (n : ℤ) > k.total pr ∧ hrangeContains (k.header pr)
    (read32Le m (pkt.add (k.pad pr).toNat) ^^^ typeMask (recvKs cfg m pkt pr none)) = true

/-! ### The two paths of the packet function -/

/-- The size check, in terms of the padded sizes: where the flag is off every padded
handshake is shorter than transport data. -/
theorem normalChecksTransport_iff {cfg : AwgConfig} (pr : AcceptedProfile)
    (hcfg : cfg.toAwgProfile = pr.toAwgProfile) :
    normalChecksTransport cfg n = true ↔
      pr.s4 + 32 ≤ n ∧ ∀ k : HandshakeKind, (n : ℤ) ≠ k.total pr.toAwgProfile := by
  have hall : (∀ k : HandshakeKind, (n : ℤ) ≠ k.total pr.toAwgProfile) ↔
      (n : ℤ) ≠ pr.initTotal ∧ (n : ℤ) ≠ pr.respTotal ∧ (n : ℤ) ≠ pr.cookieTotal := by
    refine ⟨fun h => ⟨h .init, h .response, h .cookie⟩, ?_⟩
    rintro ⟨hi, hr, hc⟩ (_ | _ | _)
    · exact hi
    · exact hr
    · exact hc
  rw [normalChecksTransport, hcfg, hall, Bool.and_eq_true, decide_eq_true_eq, ge_iff_le]
  refine and_congr_right fun hlen => ?_
  cases hamb : pr.transportSizeAmbiguous with
  | true => simp [and_assoc]
  | false =>
      have hno : ¬ (pr.s4 + 32 ≤ pr.s1 + 148 ∨ pr.s4 + 32 ≤ pr.s2 + 92 ∨
          pr.s4 + 32 ≤ pr.s3 + 64) := by
        rw [← pr.transportSizeAmbiguous_iff, hamb]
        exact Bool.false_ne_true
      have hi := pr.initTotal_eq
      have hr := pr.respTotal_eq
      have hc := pr.cookieTotal_eq
      simp only [Bool.not_false, Bool.true_or, true_iff]
      simp only [wgTransportMin] at hlen
      omega

/-- The keystream block the fast path has computed, which it hands to the decoder. -/
def normalKs (p : Proxy) (pkt : Ptr PktBuf) (n : ℕ) : Option Bytes :=
  if normalChecksTransport p.cfg n && p.cfg.hpOn then some (hpRecvKs p.cfg p.mem pkt none)
  else none

/-- The packet function as a choice between its two paths. -/
theorem processS2cPktNormal_eq (p : Proxy) (pkt : Ptr PktBuf) (n : ℕ) :
    processS2cPktNormal p pkt n =
      if normalChecksTransport p.cfg n && hrangeContains p.cfg.h4
          (read32Le p.mem (pkt.add p.cfg.s4.toNat) ^^^ typeMask (normalKs p pkt n)) then
        ({ p with
          mem := openTransport p.mem (pkt.add p.cfg.s4.toNat) (normalKs p pkt n)
          cfg := awgWindowNote p.cfg n }).queueSend (pkt.add p.cfg.s4.toNat)
            (n - p.cfg.s4.toNat) p.clientAddr
      else
        let r := transformInboundProfile p.mem pkt n p.cfg (configActiveProfile p.cfg)
          (normalKs p pkt n)
        match r.out with
        | none => { p with mem := r.mem }
        | some (out, outLen) => ({ p with mem := r.mem }).queueSend out outLen p.clientAddr :=
  rfl

/-- The fast path is taken. -/
def TakesFastPath (p : Proxy) (pkt : Ptr PktBuf) (n : ℕ) : Prop :=
  normalChecksTransport p.cfg n = true ∧ hrangeContains p.cfg.h4
    (read32Le p.mem (pkt.add p.cfg.s4.toNat) ^^^ typeMask (normalKs p pkt n)) = true

/-- The fast path queues the datagram as opened transport data. -/
theorem processS2cPktNormal_of_takesFastPath (h : TakesFastPath p pkt n) :
    (processS2cPktNormal p pkt n).queue = p.queue ++
        [⟨pkt.add p.cfg.s4.toNat, n - p.cfg.s4.toNat, p.clientAddr⟩] ∧
      (processS2cPktNormal p pkt n).mem =
        openTransport p.mem (pkt.add p.cfg.s4.toNat) (normalKs p pkt n) := by
  rw [processS2cPktNormal_eq, if_pos (by rw [h.1, h.2]; rfl)]
  exact ⟨rfl, rfl⟩

/-- Everything else is what the decoder makes of it, with the keystream block. -/
theorem delivers_of_not_takesFastPath (h : ¬ TakesFastPath p pkt n) :
    Delivers p (processS2cPktNormal p pkt n)
      (transformInboundProfile p.mem pkt n p.cfg (configActiveProfile p.cfg)
        (normalKs p pkt n)).outcome := by
  rw [processS2cPktNormal_eq, if_neg (by rwa [Bool.and_eq_true])]
  dsimp only [Delivers, InboundResult.outcome]
  generalize transformInboundProfile p.mem pkt n p.cfg (configActiveProfile p.cfg)
    (normalKs p pkt n) = r
  obtain ⟨m, _ | ⟨out, outLen⟩, ks⟩ := r
  · rfl
  · exact ⟨rfl, rfl⟩

/-! ### The decoder on the same datagram -/

/-- The block handed over is the decoder's own. -/
theorem normalKs_eq (pr : AcceptedProfile) (hcfg : p.cfg.toAwgProfile = pr.toAwgProfile)
    (hchk : normalChecksTransport p.cfg n = true) :
    normalKs p pkt n = recvKs p.cfg p.mem pkt pr.toAwgProfile none := by
  rw [normalKs, recvKs, hchk, Bool.true_and, hcfg]

/-- A valid cached block changes nothing. -/
theorem outcome_of_ksValid {cfg : AwgConfig} {m : Mem PktBuf} {ks : Option Bytes}
    (pr : AwgProfile) (hks : KsValid cfg m pkt ks) :
    (transformInboundProfile m pkt n cfg pr ks).outcome =
      (transformInboundProfile m pkt n cfg pr none).outcome := by
  by_cases h4 : n < 4
  · rw [transformInboundProfile, transformInboundProfile, if_pos h4, if_pos h4]
    rfl
  by_cases hfast : fastPath m pkt n pr
  · rw [transformInboundProfile_of_fastPath hfast, transformInboundProfile_of_fastPath hfast]
    rfl
  by_cases hshort : pr.hpOn = true ∧ n < awgHpMinPadding
  · rw [transformInboundProfile_of_short hshort.1 hshort.2 hfast,
      transformInboundProfile_of_short hshort.1 hshort.2 hfast]
    rfl
  have h12 : pr.hpOn = true → 12 ≤ n :=
    fun hon => Nat.le_of_not_lt fun hlt => hshort ⟨hon, hlt⟩
  have hcached := transformInboundProfile_eq cfg ks (by omega : 4 ≤ n) hfast h12
  have hplain := transformInboundProfile_eq cfg none (by omega : 4 ≤ n) hfast h12
  rw [recvKs_eq_of_ksValid pr hks] at hcached
  exact hcached.trans hplain.symm

/-- The block the fast path hands over is the one of the datagram. -/
theorem ksValid_normalKs (p : Proxy) (pkt : Ptr PktBuf) (n : ℕ) :
    KsValid p.cfg p.mem pkt (normalKs p pkt n) := by
  intro k hk
  rw [normalKs] at hk
  split at hk
  · exact (Option.some.inj hk).symm
  · contradiction

/-- The header the fast path looks at is the one the dispatch looks at. -/
theorem matchesTransport_of_takesFastPath {pr : AcceptedProfile}
    (hcfg : p.cfg.toAwgProfile = pr.toAwgProfile) (h : TakesFastPath p pkt n) :
    matchesTransport p.mem pkt n pr.toAwgProfile
      (recvKs p.cfg p.mem pkt pr.toAwgProfile none) = true := by
  obtain ⟨hchk, hin⟩ := h
  have hlen := ((normalChecksTransport_iff pr hcfg).mp hchk).1
  rw [normalKs_eq pr hcfg hchk, hcfg] at hin
  rw [matchesTransport, hin, Bool.and_true, decide_eq_true_eq]
  exact hlen

/-- A datagram that overtakes the decoder does so on the fast path. -/
theorem Overtakes.takesFastPath {pr : AcceptedProfile}
    (hcfg : p.cfg.toAwgProfile = pr.toAwgProfile)
    (h : Overtakes p.mem pkt n p.cfg pr.toAwgProfile) : TakesFastPath p pkt n := by
  obtain ⟨hlen, hin⟩ := Bool.and_eq_true_iff.mp h.transport
  rw [decide_eq_true_eq] at hlen
  have hchk := (normalChecksTransport_iff pr hcfg).mpr ⟨hlen, h.size_ne⟩
  refine ⟨hchk, ?_⟩
  rw [normalKs_eq pr hcfg hchk, hcfg]
  exact hin

/-- Unchanged transport data: both paths return the datagram as it is. -/
theorem sameAsDecoder_of_h4Noop {pr : AcceptedProfile}
    (hact : configActiveProfile p.cfg = pr.toAwgProfile)
    (hcfg : p.cfg.toAwgProfile = pr.toAwgProfile) (hf : p.mem.Fits pkt n)
    (hfast : TakesFastPath p pkt n) (hnoop : pr.h4Noop = true) : SameAsDecoder p pkt n := by
  obtain ⟨hmin, hmax, hs4, hoff⟩ := pr.h4Noop_iff.mp hnoop
  obtain ⟨hqueue, hmem⟩ := processS2cPktNormal_of_takesFastPath hfast
  have hlen := ((normalChecksTransport_iff pr hcfg).mp hfast.1).1
  have hks : normalKs p pkt n = none := by
    rw [normalKs_eq pr hcfg hfast.1, recvKs, hoff]
    rfl
  have hzero : p.cfg.s4.toNat = 0 := by rw [hcfg, hs4, Int.toNat_zero]
  -- the one header of the range is the type of transport data
  have hword : read32Le p.mem pkt = wgTransportData := by
    have hin := hfast.2
    rw [hks, hzero, Ptr.add_zero, hcfg, hrangeContains_iff, hmin, hmax] at hin
    have hmask : read32Le p.mem pkt ^^^ typeMask none = read32Le p.mem pkt := UInt32.xor_zero
    rw [hmask] at hin
    exact UInt32.le_antisymm hin.2 hin.1
  have hdec : fastPath p.mem pkt n pr.toAwgProfile := ⟨hnoop, hword, by
    simp only [wgTransportMin]
    omega⟩
  rw [hzero, Ptr.add_zero, Nat.sub_zero] at hqueue
  rw [hzero, Ptr.add_zero, hks] at hmem
  rw [SameAsDecoder, hact, transformInboundProfile_of_fastPath hdec]
  refine ⟨hqueue, ?_⟩
  rw [hmem, openTransport, Option.elim_none]
  have hread := read_write32Le wgTransportData hf (by omega)
  rw [retype_of_load32Le (by rw [Mem.length_read hf]; omega)
    ((read32Le_eq p.mem pkt (by omega : 4 ≤ n)).symm.trans hword)] at hread
  exact hread

/-- **The fast path against the decoder.** In normal mode the packet function does with a
datagram what the decoder alone does, unless the datagram overtakes the decoder. -/
theorem sameAsDecoder_iff (p : Proxy) (pr : AcceptedProfile) (pkt : Ptr PktBuf) (n : ℕ)
    (hact : configActiveProfile p.cfg = pr.toAwgProfile) (hmir : p.cfg.Mirrored)
    (hf : p.mem.Fits pkt n) :
    SameAsDecoder p pkt n ↔ ¬ Overtakes p.mem pkt n p.cfg pr.toAwgProfile := by
  have hcfg : p.cfg.toAwgProfile = pr.toAwgProfile := hmir.trans hact
  by_cases hfast : TakesFastPath p pkt n
  swap
  · refine iff_of_true ?_ fun h => hfast (h.takesFastPath hcfg)
    have hdel := delivers_of_not_takesFastPath hfast
    rw [hact, outcome_of_ksValid pr.toAwgProfile (ksValid_normalKs p pkt n)] at hdel
    rw [SameAsDecoder, hact]
    exact hdel
  cases hnoop : pr.h4Noop with
  | true =>
      refine iff_of_true (sameAsDecoder_of_h4Noop hact hcfg hf hfast hnoop) fun h => ?_
      have := h.changed
      rw [hnoop] at this
      contradiction
  | false =>
      obtain ⟨hqueue, hmem⟩ := processS2cPktNormal_of_takesFastPath hfast
      obtain ⟨hlen, hne⟩ := (normalChecksTransport_iff pr hcfg).mp hfast.1
      have htrans := matchesTransport_of_takesFastPath hcfg hfast
      have hs4 := pr.valid.s4_mem.1
      have hdec : (transformInboundProfile p.mem pkt n p.cfg pr.toAwgProfile none).outcome =
          inboundDispatch p.mem pkt n p.cfg pr.toAwgProfile
            (recvKs p.cfg p.mem pkt pr.toAwgProfile none) :=
        transformInboundProfile_eq p.cfg none (by omega) (not_fastPath_of_h4Noop hnoop)
          (fun _ => by omega)
      rw [hcfg] at hqueue hmem
      rw [SameAsDecoder, hact, hdec]
      rcases inboundDispatch_cases (recvKs p.cfg p.mem pkt pr.toAwgProfile none) with
        ⟨k, hk, hdisp⟩ | ⟨hno, hdisp⟩
      · -- the decoder returns a handshake, the fast path queued the datagram
        obtain ⟨hsize, hin⟩ := Bool.and_eq_true_iff.mp hk
        have htotal := k.total_eq pr
        have hpad := (HandshakeKind.pad_mem pr.valid k).1
        refine iff_of_false (fun hsame => ?_) (not_not.mpr ?_)
        · rw [hdisp] at hsame
          have hentry := List.append_cancel_left (hqueue.symm.trans hsame.1)
          simp only [List.cons.injEq, SendEntry.mk.injEq, and_true] at hentry
          obtain ⟨hbase, hsz⟩ := hentry
          have hoff := congrArg Ptr.off hbase
          simp only [Ptr.add_off] at hoff
          exact hne k (by omega)
        · have hgt : pr.rt = true ∧ (n : ℤ) > k.total pr.toAwgProfile := by
            simpa only [sizeMatches, hne k, decide_false, Bool.false_or, Bool.and_eq_true,
              decide_eq_true_eq] using hsize
          exact ⟨hgt.1, hnoop, htrans, hne, k, hgt.2, hin⟩
      · refine iff_of_true ?_ fun h => ?_
        · rw [hdisp, if_pos htrans]
          refine ⟨hqueue, ?_⟩
          rw [hmem, normalKs_eq pr hcfg hfast.1]
          rfl
        · obtain ⟨k, hgt, hin⟩ := h.handshake
          have hk : matchesKind p.mem pkt n pr.toAwgProfile
              (recvKs p.cfg p.mem pkt pr.toAwgProfile none) k = true := by
            rw [matchesKind, hin, Bool.and_true, sizeMatches, h.trailers, Bool.true_and,
              decide_eq_true hgt, Bool.or_true]
          rw [hno k] at hk
          contradiction

/-! ### A response that is taken for transport data -/

/-- A profile with a padded response, trailers and many headers of transport data. -/
def trailerProfile : AcceptedProfile :=
  AcceptedProfile.ofValidated
    { s1 := 0, s2 := 8, s3 := 0, s4 := 0
      h1 := .single 1, h2 := .single 2, h3 := .single 3, h4 := ⟨5, 0x7fffffff, by decide⟩
      cps := fun _ => none, hpOn := false, rt := true, h4Fixed := 0, h4Noop := false
      initTotal := 0, respTotal := 0, cookieTotal := 0, transportSizeAmbiguous := false }
    (by decide)

/-- A client's configuration of that profile. -/
def trailerConfig : AwgConfig where
  toAwgProfile := trailerProfile.toAwgProfile
  mode := .normal
  jc := 0
  jmin := 0
  jmax := 0
  serverPeerMac1keys := []
  hpKey := []
  rtAny := true
  disableCookies := false
  udpWindow := 500
  mac1keyOut := none
  mac1keyIn := none
  profiles := fun _ => trailerProfile.toAwgProfile
  profileCount := 1
  activeProfile := 0
  maxS4 := 0

/-- A response of zeros behind eight bytes of padding, the first word of which is a header
of transport data. -/
def paddedResponse : Bytes :=
  Bytes.leBytes 4 7 ++ List.replicate 4 0 ++ Bytes.leBytes 4 2 ++ List.replicate 88 0

/-- The s2c thread with that response and a trailer of zeros in its buffers. -/
def trailerProxy : Proxy :=
  .zeroed trailerConfig fun
    | .hsBuf => List.replicate 1500 0
    | _ => paddedResponse ++ List.replicate 1656 0

/-- Without a trailer the response has the exact size and comes out of the decoder. -/
theorem sameAsDecoder_paddedResponse : SameAsDecoder trailerProxy ⟨.recv 0, 0⟩ 100 :=
  (sameAsDecoder_iff trailerProxy trailerProfile ⟨.recv 0, 0⟩ 100 rfl rfl
    (by decide +kernel)).mpr fun h => h.size_ne .response (by decide)

/-- With a trailer of twenty bytes the response is forwarded as 120 bytes of transport
data; the decoder returns the message of 92 bytes. -/
theorem not_sameAsDecoder_paddedResponse : trailerConfig.Mirrored ∧
    configActiveProfile trailerConfig = trailerProfile.toAwgProfile ∧
    ¬ SameAsDecoder trailerProxy ⟨.recv 0, 0⟩ 120 := by
  refine ⟨rfl, rfl, fun hsame => ?_⟩
  have hdec : (transformInboundProfile trailerProxy.mem ⟨.recv 0, 0⟩ 120 trailerProxy.cfg
      (configActiveProfile trailerProxy.cfg) none).out = some (⟨.recv 0, 8⟩, 92) := by
    decide
  rw [SameAsDecoder, Delivers, InboundResult.outcome, hdec] at hsame
  exact absurd hsame.1 (by decide)

end AwgProxy
