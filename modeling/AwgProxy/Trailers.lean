import AwgProxy.RoundTrip
import AwgProxy.FastPath

/-!
# Trailers behind Equal Paddings

With random trailers every length check of the decoder is a lower bound, and a long
datagram has a size of all four kinds. Where the four paddings have one length, the kinds
read their header in the same place of the datagram, so the disjoint header ranges leave
one of them.

* `matchesKind_eq_false_of_header` — a datagram matches no kind but the one whose header it
  has.
* `trailers_cut` — whatever the encoder sends comes back without its trailer, from the
  decoder and from the packet function of normal mode.
-/

namespace AwgProxy

/-- The four paddings have one length. -/
structure AwgProfile.EqualPaddings (pr : AwgProfile) : Prop where
  init_response : pr.s1 = pr.s2
  response_cookie : pr.s2 = pr.s3
  cookie_transport : pr.s3 = pr.s4

theorem AwgProfile.EqualPaddings.pad_eq {pr : AwgProfile} (h : pr.EqualPaddings)
    (k : HandshakeKind) : k.pad pr = pr.s4 := by
  obtain ⟨h12, h23, h34⟩ := h
  cases k with
  | init => exact h12.trans (h23.trans h34)
  | response => exact h23.trans h34
  | cookie => exact h34

/-! ### One header decides -/

section

variable {pr : AcceptedProfile} {m : Mem PktBuf} {buf : Ptr PktBuf} {n : ℕ}
  {kstream : Option Bytes}

/-- The one word the datagram is judged by. -/
def headerWord (m : Mem PktBuf) (buf : Ptr PktBuf) (pr : AwgProfile) (kstream : Option Bytes) :
    UInt32 :=
  read32Le m (buf.add pr.s4.toNat) ^^^ typeMask kstream

/-- A kind that matches has the word as its header. -/
theorem hrangeContains_of_matchesKind (heq : pr.EqualPaddings) {k : HandshakeKind}
    (h : matchesKind m buf n pr.toAwgProfile kstream k = true) :
    hrangeContains (k.header pr.toAwgProfile)
      (headerWord m buf pr.toAwgProfile kstream) = true := by
  rw [matchesKind, heq.pad_eq, Bool.and_eq_true] at h
  exact h.2

/-- A datagram with the header of one kind matches no other. -/
theorem matchesKind_eq_false_of_header (heq : pr.EqualPaddings) {j k : HandshakeKind}
    (hjk : j ≠ k)
    (hk : matchesKind m buf n pr.toAwgProfile kstream k = true) :
    matchesKind m buf n pr.toAwgProfile kstream j = false := by
  rw [← Bool.not_eq_true]
  intro hj
  have hout := HandshakeKind.not_hrangeContains_header pr.valid hjk
    (hrangeContains_of_matchesKind heq hk)
  exact absurd ((hrangeContains_of_matchesKind heq hj).symm.trans hout) nofun

/-- A datagram with a header of transport data matches no kind of handshake. -/
theorem matchesKind_eq_false_of_h4 (heq : pr.EqualPaddings)
    (h4 : hrangeContains pr.h4 (headerWord m buf pr.toAwgProfile kstream) = true)
    (j : HandshakeKind) : matchesKind m buf n pr.toAwgProfile kstream j = false := by
  rw [← Bool.not_eq_true]
  intro hj
  have hout := HandshakeKind.not_hrangeContains_h4 pr.valid j
    (hrangeContains_of_matchesKind heq hj)
  exact absurd (h4.symm.trans hout) nofun

/-- No datagram overtakes the decoder. -/
theorem not_overtakes_of_equalPaddings (heq : pr.EqualPaddings) (cfg : AwgConfig) :
    ¬ Overtakes m buf n cfg pr.toAwgProfile := by
  intro h
  obtain ⟨-, h4⟩ := Bool.and_eq_true_iff.mp h.transport
  obtain ⟨k, -, hk⟩ := h.handshake
  rw [heq.pad_eq] at hk
  exact absurd (h4.symm.trans (HandshakeKind.not_hrangeContains_h4 pr.valid k hk)) nofun

end

/-! ### The decoder -/

section

variable {pr : AcceptedProfile} {cfgS cfgR : AwgConfig} {outKey : Option Bytes}
  {randVal : UInt64} {m : Mem PktBuf} {p : Ptr PktBuf} {n : ℕ} {ks : Option Bytes} {d : Bytes}

/-- A handshake comes back, whatever trailer stands behind it. -/
theorem returns_handshake_of_equalPaddings (hrt : pr.rt = true) (hnoop : pr.h4Noop = false)
    (heq : pr.EqualPaddings) (hkey : cfgR.hpKey = cfgS.hpKey) {k : HandshakeKind}
    (hk : handshakeKind? d = some k) (hf : m.Fits p n) {pad tr : Bytes}
    (hpad : pad.length = (k.pad pr.toAwgProfile).toNat)
    (hw : m.read p n = pad ++
      protect cfgS pr.toAwgProfile pad (k.rewrite pr.toAwgProfile outKey randVal d) ++ tr)
    (hks : KsValid cfgR m p ks) :
    Returns (transformInboundProfile m p n cfgR pr.toAwgProfile ks)
      (returned cfgR.mac1keyIn outKey pr.toAwgProfile randVal d) := by
  obtain ⟨hty, hsz⟩ := handshakeKind?_eq_some_iff.mp hk
  have hrw : (k.rewrite pr.toAwgProfile outKey randVal d).length = k.size :=
    HandshakeKind.length_rewrite hsz
  have hin : hrangeContains (k.header pr.toAwgProfile)
      (load32Le (k.rewrite pr.toAwgProfile outKey randVal d) 0) = true := by
    rw [load32Le_rewrite _ hsz]
    exact hrangeContains_hrangePick _ _
  obtain ⟨-, -, -, hmatch⟩ :=
    matchesKind_protect hrw hin (Or.inl hrt) hkey hf hpad hw hks
  have hbefore : ∀ j : HandshakeKind, j.rank < k.rank →
      matchesKind m p n pr.toAwgProfile (recvKs cfgR m p pr.toAwgProfile ks) j = false := by
    intro j hj
    have hjk : j ≠ k := fun h => absurd hj (h ▸ lt_irrefl _)
    exact matchesKind_eq_false_of_header heq hjk hmatch
  obtain ⟨hout, hread⟩ := decode_handshake_of_first hrw hin (Or.inl hrt) hkey hf hpad hw hks
    (not_fastPath_of_h4Noop hnoop) hbefore rfl
  rw [putMac_retype_rewrite _ _ _ hk, hrw] at hread
  rw [hrw] at hout
  rw [Returns, length_returned, hsz]
  exact ⟨_, hout, hread⟩

/-- Transport data comes back, also with the length of a padded handshake. -/
theorem returns_transport_of_equalPaddings (heq : pr.EqualPaddings)
    (hkey : cfgR.hpKey = cfgS.hpKey) (hty : load32Le d 0 = wgTransportData)
    (h32 : 32 ≤ d.length) (hf : m.Fits p n) (hn : n = pr.s4.toNat + d.length)
    (hw : m.read p n = encodeTransport cfgS pr.toAwgProfile randVal d)
    (hks : KsValid cfgR m p ks) :
    Returns (transformInboundProfile m p n cfgR pr.toAwgProfile ks) d := by
  refine returns_of_encodeTransport hkey hty h32 (fun hmatch => ?_) hf hn hw hks
  rw [matchesTransport, Bool.and_eq_true] at hmatch
  exact matchesKind_eq_false_of_h4 heq hmatch.2

end

/-! ### The packet function -/

/-- The packet function has queued the message `d` for the client. -/
def Queues (p p' : Proxy) (d : Bytes) : Prop :=
  ∃ q, p'.queue = p.queue ++ [⟨q, d.length, p.clientAddr⟩] ∧ p'.mem.read q d.length = d

/-- What the decoder returns is queued where nothing overtakes it. -/
theorem queues_of_returns {p : Proxy} {pr : AcceptedProfile} {pkt : Ptr PktBuf} {n : ℕ}
    {d : Bytes} (heq : pr.EqualPaddings) (hact : configActiveProfile p.cfg = pr.toAwgProfile)
    (hmir : p.cfg.Mirrored) (hf : p.mem.Fits pkt n)
    (hret : Returns (transformInboundProfile p.mem pkt n p.cfg pr.toAwgProfile none) d) :
    Queues p (processS2cPktNormal p pkt n) d := by
  have hsame : SameAsDecoder p pkt n :=
    (sameAsDecoder_iff p pr pkt n hact hmir hf).mpr (not_overtakes_of_equalPaddings heq _)
  obtain ⟨q, hout, hread⟩ := hret
  rw [SameAsDecoder, hact, Delivers, InboundResult.outcome, hout] at hsame
  obtain ⟨hqueue, hmem⟩ := hsame
  exact ⟨q, hqueue, hmem.trans hread⟩

/-- A message of the WireGuard protocol that the encoder pads: a handshake, a cookie reply
only where they are forwarded, or transport data with the headroom for its padding. -/
def PaddedMessage (cfg : AwgConfig) (pr : AwgProfile) (dataoff : ℕ) (d : Bytes) : Prop :=
  match handshakeKind? d with
  | some k => k = .cookie → cfg.disableCookies = false
  | none => load32Le d 0 = wgTransportData ∧ 32 ≤ d.length ∧ pr.s4 ≤ dataoff

/-- Whatever buffer the client's proxy has the encoded message in, its packet function
queues `d'`. -/
def RoundTripsNormal (cfgS : AwgConfig) (p : Proxy) (pr : AwgProfile) (outKey : Option Bytes)
    (randVal : UInt64) (m : Mem PktBuf) (buf : Ptr PktBuf) (dataoff n : ℕ) (d' : Bytes) : Prop :=
  let r := transformOutboundProfile m buf dataoff n cfgS pr outKey randVal
  ∃ out, r.out = some out ∧
    ∀ (m' : Mem PktBuf) (pkt : Ptr PktBuf), m'.Fits pkt r.outLen →
      m'.read pkt r.outLen = r.mem.read out r.outLen →
      Queues { p with mem := m' } (processS2cPktNormal { p with mem := m' } pkt r.outLen) d'

/-- The decoder returns whatever the encoder sends. -/
theorem roundTrips_of_equalPaddings (pr : AcceptedProfile) (hrt : pr.rt = true)
    (hnoop : pr.h4Noop = false) (heq : pr.EqualPaddings) (cfgS cfgR : AwgConfig)
    (hkey : cfgR.hpKey = cfgS.hpKey) (outKey : Option Bytes) (randVal : UInt64)
    {m : Mem PktBuf} {buf : Ptr PktBuf} {dataoff n : ℕ}
    (L : PktLayout m (buf.add dataoff) dataoff n)
    (hd : PaddedMessage cfgS pr.toAwgProfile dataoff (m.read (buf.add dataoff) n)) :
    RoundTrips cfgS cfgR pr.toAwgProfile outKey randVal m buf dataoff n
      (returned cfgR.mac1keyIn (outKey <|> cfgS.mac1keyOut) pr.toAwgProfile randVal
        (m.read (buf.add dataoff) n)) := by
  obtain ⟨d, hm⟩ : ∃ d, m.read (buf.add dataoff) n = d := ⟨_, rfl⟩
  rw [hm] at hd ⊢
  have hdlen : d.length = n := by rw [← hm, Mem.length_read L.fits]
  rw [RoundTrips]
  generalize hr : transformOutboundProfile m buf dataoff n cfgS pr.toAwgProfile outKey randVal = r
  rcases hk : handshakeKind? d with _ | k
  · rw [PaddedMessage, hk] at hd
    obtain ⟨hty, h32, hs4⟩ := hd
    have hty' : read32Le m (buf.add dataoff) = wgTransportData := by
      rw [read32Le_eq m _ (by omega : 4 ≤ n), hm, hty]
    obtain ⟨hout, henc, hlen⟩ :=
      transformOutboundProfile_transport outKey randVal L.fits hs4 hty' (by omega) hr.symm
    rw [hm] at henc
    rw [← hdlen] at hlen
    have hret : returned cfgR.mac1keyIn (outKey <|> cfgS.mac1keyOut) pr.toAwgProfile randVal d
        = d := by
      simp only [returned, hk]
    rw [hret]
    exact ⟨_, hout, fun m' p ks hf hrecv hks =>
      returns_transport_of_equalPaddings heq hkey hty h32 hf hlen (hrecv.trans henc) hks⟩
  · obtain ⟨hty, hsz⟩ := handshakeKind?_eq_some_iff.mp hk
    rw [PaddedMessage, hk] at hd
    have hn : n = k.size := hdlen.symm.trans hsz
    have hty' : read32Le m (buf.add dataoff) = k.type := by
      rw [read32Le_eq m _ (by rw [hn]; exact k.four_le_size : 4 ≤ n), hm, hty]
    obtain ⟨out, hout, henc, -⟩ :=
      transformOutboundProfile_handshake outKey randVal L pr.valid hty' hn hd hr.symm
    rw [hm] at henc
    exact ⟨out, hout, fun m' p ks hf hrecv hks =>
      returns_handshake_of_equalPaddings hrt hnoop heq hkey hk hf (length_fillPadding _ _)
        (hrecv.trans henc) hks⟩

/-- **Trailers behind equal paddings.** Under an accepted profile with trailers whose
transport data is padded or retyped and whose four paddings have one length, whatever the
encoder sends, with any header protection key, random value and window, comes back with
its type and length and without its trailer: from the decoder, and from the packet function
of normal mode with the decoder behind its fast path. -/
theorem trailers_cut (pr : AcceptedProfile) (hrt : pr.rt = true) (hnoop : pr.h4Noop = false)
    (heq : pr.EqualPaddings) (cfgS : AwgConfig) (outKey : Option Bytes) (randVal : UInt64)
    {m : Mem PktBuf} {buf : Ptr PktBuf} {dataoff n : ℕ}
    (L : PktLayout m (buf.add dataoff) dataoff n)
    (hd : PaddedMessage cfgS pr.toAwgProfile dataoff (m.read (buf.add dataoff) n)) :
    let d' := fun inKey => returned inKey (outKey <|> cfgS.mac1keyOut) pr.toAwgProfile randVal
      (m.read (buf.add dataoff) n)
    (∀ inKey, (d' inKey).length = n ∧
      load32Le (d' inKey) 0 = load32Le (m.read (buf.add dataoff) n) 0) ∧
    (∀ cfgR : AwgConfig, cfgR.hpKey = cfgS.hpKey →
      RoundTrips cfgS cfgR pr.toAwgProfile outKey randVal m buf dataoff n
        (d' cfgR.mac1keyIn)) ∧
    ∀ p : Proxy, p.cfg.hpKey = cfgS.hpKey → p.cfg.Mirrored →
      configActiveProfile p.cfg = pr.toAwgProfile →
      RoundTripsNormal cfgS p pr.toAwgProfile outKey randVal m buf dataoff n
        (d' p.cfg.mac1keyIn) := by
  intro d'
  refine ⟨fun inKey => ⟨?_, load32Le_returned ..⟩, fun cfgR hkey => ?_,
    fun p hkey hmir hact => ?_⟩
  · exact (length_returned ..).trans (Mem.length_read L.fits)
  · exact roundTrips_of_equalPaddings pr hrt hnoop heq cfgS cfgR hkey outKey randVal L hd
  · obtain ⟨out, hout, hdec⟩ :=
      roundTrips_of_equalPaddings pr hrt hnoop heq cfgS p.cfg hkey outKey randVal L hd
    exact ⟨out, hout, fun m' pkt hf hrecv =>
      queues_of_returns heq hact hmir hf (hdec m' pkt none hf hrecv nofun)⟩

/-! ### An init with a trailer -/

/-- A profile that pads every message with eight bytes and sends trailers. -/
def equalPaddingsProfile : AcceptedProfile :=
  AcceptedProfile.ofValidated
    { s1 := 8, s2 := 8, s3 := 8, s4 := 8
      h1 := .single 1, h2 := .single 2, h3 := .single 3, h4 := .single 4
      cps := fun _ => none, hpOn := false, rt := true, h4Fixed := 0, h4Noop := false
      initTotal := 0, respTotal := 0, cookieTotal := 0, transportSizeAmbiguous := false }
    (by decide)

/-- A configuration of that profile without MAC1 keys. -/
def equalPaddingsConfig : AwgConfig :=
  { paddedInitConfig with
    toAwgProfile := equalPaddingsProfile.toAwgProfile
    rtAny := true
    profiles := fun _ => equalPaddingsProfile.toAwgProfile }

/-- The init of zeros comes back from behind its padding and its trailer. -/
theorem trailers_cut_zeroInit :
    RoundTrips equalPaddingsConfig equalPaddingsConfig equalPaddingsProfile.toAwgProfile none 7
        zeroInitMem ⟨.recv 0, 0⟩ 8 148 zeroInit ∧
      RoundTripsNormal equalPaddingsConfig (.zeroed equalPaddingsConfig zeroInitMem)
        equalPaddingsProfile.toAwgProfile none 7 zeroInitMem ⟨.recv 0, 0⟩ 8 148 zeroInit := by
  obtain ⟨-, hdec, hnormal⟩ := trailers_cut equalPaddingsProfile rfl (by decide)
    ⟨rfl, rfl, rfl⟩ equalPaddingsConfig none 7 zeroInitMem_layout
    (by rw [read_zeroInitMem, PaddedMessage, handshakeKind?_zeroInit]; decide)
  rw [read_zeroInitMem] at hdec hnormal
  have hret := returned_zeroInit equalPaddingsProfile.toAwgProfile 7
  exact ⟨hret ▸ hdec equalPaddingsConfig rfl,
    hret ▸ hnormal (.zeroed equalPaddingsConfig zeroInitMem) rfl rfl rfl⟩

/-- Its trailer is not empty. -/
example : (transformOutboundProfile zeroInitMem ⟨.recv 0, 0⟩ 8 148 equalPaddingsConfig
    equalPaddingsProfile.toAwgProfile none 7).outLen ≠ 156 := by
  decide

end AwgProxy
