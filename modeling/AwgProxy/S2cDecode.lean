import AwgProxy.FastPath

/-!
# What the Client Gets for a Datagram

The packet function of normal mode works in place, wherever the datagram was received: in a
buffer of its own or between others in the buffer of a coalesced read. What it queues for
the client depends on the bytes of the datagram alone (`normalDecode`), and it touches
nothing outside of them.

* `inboundAt_congr` — the decoder treats two copies of a datagram alike.
* `processS2cPktNormal_spec` — what the packet function queues and what it changes.
-/

namespace AwgProxy

/-! ### Two copies of a datagram -/

/-- The `n` bytes at `buf` in one memory are those at `buf'` in the other. -/
structure SameDatagram (m : Mem PktBuf) (buf : Ptr PktBuf) (m' : Mem PktBuf)
    (buf' : Ptr PktBuf) (n : ℕ) : Prop where
  fits : m.Fits buf n
  fits' : m'.Fits buf' n
  read : m'.read buf' n = m.read buf n

namespace SameDatagram

variable {m m' : Mem PktBuf} {buf buf' : Ptr PktBuf} {n : ℕ}

/-- Parts of the datagram. -/
theorem read_add (h : SameDatagram m buf m' buf' n) {i k : ℕ} (hik : i + k ≤ n) :
    m'.read (buf'.add i) k = m.read (buf.add i) k := by
  rw [Mem.read_add_eq_slice _ _ hik, Mem.read_add_eq_slice _ _ hik, h.read]

/-- The head of the datagram. -/
theorem read_head (h : SameDatagram m buf m' buf' n) {k : ℕ} (hk : k ≤ n) :
    m'.read buf' k = m.read buf k :=
  h.read_add (i := 0) (by omega)

theorem read32Le (h : SameDatagram m buf m' buf' n) {i : ℕ} (hi : i + 4 ≤ n) :
    read32Le m' (buf'.add i) = read32Le m (buf.add i) := by
  rw [AwgProxy.read32Le, AwgProxy.read32Le, h.read_add hi]

theorem matchesKind (h : SameDatagram m buf m' buf' n) (pr : AcceptedProfile)
    (kstream : Option Bytes) (k : HandshakeKind) :
    matchesKind m' buf' n pr.toAwgProfile kstream k =
      matchesKind m buf n pr.toAwgProfile kstream k := by
  rw [AwgProxy.matchesKind, AwgProxy.matchesKind]
  cases hsz : sizeMatches pr.toAwgProfile n (k.total pr.toAwgProfile) with
  | false => rfl
  | true =>
      have hpad := (HandshakeKind.pad_mem pr.valid k).1
      have h4 := k.four_le_size
      rw [sizeMatches, Bool.or_eq_true, Bool.and_eq_true, decide_eq_true_eq, decide_eq_true_eq,
        k.total_eq] at hsz
      rw [h.read32Le (by rcases hsz with hsz | ⟨-, hsz⟩ <;> omega)]

theorem matchesTransport (h : SameDatagram m buf m' buf' n) (pr : AcceptedProfile)
    (kstream : Option Bytes) :
    matchesTransport m' buf' n pr.toAwgProfile kstream =
      matchesTransport m buf n pr.toAwgProfile kstream := by
  rw [AwgProxy.matchesTransport, AwgProxy.matchesTransport]
  by_cases hlen : (n : ℤ) ≥ pr.s4 + wgTransportMin
  · have hs4 := pr.valid.s4_mem.1
    have h32 : (32 : ℤ) = wgTransportMin := rfl
    rw [h.read32Le (by omega)]
  · rw [decide_eq_false hlen, Bool.false_and, Bool.false_and]

/-- The keystream block of a datagram that has a nonce. -/
theorem hpRecvKs (h : SameDatagram m buf m' buf' n) (cfg : AwgConfig) (ks : Option Bytes)
    (h12 : 12 ≤ n) : hpRecvKs cfg m' buf' ks = hpRecvKs cfg m buf ks := by
  rw [AwgProxy.hpRecvKs, AwgProxy.hpRecvKs, h.read_head h12]

end SameDatagram

/-! ### The decoder on both -/

/-- What the decoder leaves of the datagram of `n` bytes at `buf`: nothing, or a message
`(i, b)`, the bytes `b` from byte `i` of the datagram on. -/
structure InboundAt (m : Mem PktBuf) (buf : Ptr PktBuf) (n : ℕ)
    (r : Mem PktBuf × Option (Ptr PktBuf × ℕ)) (o : Option (ℕ × Bytes)) : Prop where
  changes : m.ChangesIn r.1 buf n
  out : r.2 = o.map fun ib => (buf.add ib.1, ib.2.length)
  message : ∀ ib ∈ o, ib.1 + ib.2.length ≤ n ∧ r.1.read (buf.add ib.1) ib.2.length = ib.2

variable {m m' : Mem PktBuf} {buf buf' : Ptr PktBuf} {n : ℕ}

/-- A dropped datagram. -/
theorem InboundAt.none (m : Mem PktBuf) (buf : Ptr PktBuf) (n : ℕ) :
    InboundAt m buf n (m, none) none :=
  ⟨.refl _ _ _, rfl, nofun⟩

/-- A message that lies in the datagram. -/
theorem InboundAt.some {m₁ : Mem PktBuf} {i l : ℕ} (hf : m.Fits buf n) (hil : i + l ≤ n)
    (hchg : m.ChangesIn m₁ (buf.add i) l) {b : Bytes} (hb : m₁.read (buf.add i) l = b) :
    InboundAt m buf n (m₁, some (buf.add i, l)) (some (i, b)) := by
  have hlen : b.length = l := by
    rw [← hb]
    exact Mem.length_read (hchg.shape.fits_iff.mpr (hf.add hil))
  refine ⟨hchg.mono rfl ?_ ?_, ?_, ?_⟩
  · rw [Ptr.add_off]
    omega
  · rw [Ptr.add_off]
    omega
  · rw [Option.map_some, hlen]
  · intro ib hib
    obtain rfl := Option.some.inj hib
    exact ⟨hlen ▸ hil, hlen ▸ hb⟩

/-- An opened handshake. -/
theorem inboundAt_kind (h : SameDatagram m buf m' buf' n) (cfg : AwgConfig)
    {pr : AcceptedProfile} {kstream : Option Bytes} (h12 : kstream.isSome → 12 ≤ n)
    {k : HandshakeKind} (hk : matchesKind m buf n pr.toAwgProfile kstream k = true) :
    ∃ o, InboundAt m buf n (inboundKind m buf cfg pr.toAwgProfile kstream k) o ∧
      InboundAt m' buf' n (inboundKind m' buf' cfg pr.toAwgProfile kstream k) o := by
  have hk' := (h.matchesKind pr kstream k).trans hk
  have hfk := fits_of_matchesKind h.fits hk
  have hfk' := fits_of_matchesKind h.fits' hk'
  have hin : (k.pad pr.toAwgProfile).toNat + k.size ≤ n := by
    have hpad := (HandshakeKind.pad_mem pr.valid k).1
    rw [matchesKind, Bool.and_eq_true, sizeMatches, Bool.or_eq_true, Bool.and_eq_true,
      decide_eq_true_eq, decide_eq_true_eq, k.total_eq] at hk
    rcases hk.1 with hsz | ⟨-, hsz⟩ <;> omega
  obtain ⟨hread, hchg⟩ := openAs_spec cfg kstream hfk
  obtain ⟨hread', hchg'⟩ := openAs_spec cfg kstream hfk'
  have hsame : unprotect cfg kstream (m'.read buf' 12)
      (m'.read (buf'.add (k.pad pr.toAwgProfile).toNat) k.size) =
      unprotect cfg kstream (m.read buf 12)
        (m.read (buf.add (k.pad pr.toAwgProfile).toNat) k.size) := by
    rw [h.read_add hin]
    cases kstream with
    | none => rfl
    | some ks => rw [h.read_head (h12 rfl)]
  rw [hsame] at hread'
  exact ⟨_, .some h.fits hin hchg hread, .some h.fits' hin hchg' hread'⟩

/-- Opened transport data. -/
theorem inboundAt_transport (h : SameDatagram m buf m' buf' n) {i l : ℕ}
    (kstream : Option Bytes) (hil : i + l ≤ n) (h32 : 32 ≤ l) :
    ∃ o, InboundAt m buf n (openTransport m (buf.add i) kstream, some (buf.add i, l)) o ∧
      InboundAt m' buf' n (openTransport m' (buf'.add i) kstream, some (buf'.add i, l)) o ∧
      o.isSome = true := by
  obtain ⟨hread, hchg⟩ := openTransport_spec kstream (h.fits.add hil) h32
  obtain ⟨hread', hchg'⟩ := openTransport_spec kstream (h.fits'.add hil) h32
  rw [h.read_add hil] at hread'
  exact ⟨_, .some h.fits hil hchg hread, .some h.fits' hil hchg' hread', rfl⟩

/-- The dispatch on both. -/
theorem inboundAt_dispatch (h : SameDatagram m buf m' buf' n) (cfg : AwgConfig)
    (pr : AcceptedProfile) {kstream : Option Bytes} (h12 : kstream.isSome → 12 ≤ n) :
    ∃ o, InboundAt m buf n (inboundDispatch m buf n cfg pr.toAwgProfile kstream) o ∧
      InboundAt m' buf' n (inboundDispatch m' buf' n cfg pr.toAwgProfile kstream) o := by
  rw [inboundDispatch_eq, inboundDispatch_eq, h.matchesKind, h.matchesKind, h.matchesKind,
    h.matchesTransport]
  split
  · exact inboundAt_kind h cfg h12 ‹_›
  split
  · exact inboundAt_kind h cfg h12 ‹_›
  split
  · exact inboundAt_kind h cfg h12 ‹_›
  split
  · rename_i ht
    rw [matchesTransport, Bool.and_eq_true, decide_eq_true_eq] at ht
    have hs4 := pr.valid.s4_mem.1
    have h32 : (32 : ℤ) = wgTransportMin := rfl
    obtain ⟨o, ho, ho', -⟩ := inboundAt_transport h kstream (i := pr.s4.toNat)
      (l := n - pr.s4.toNat) (by omega) (by omega)
    exact ⟨o, ho, ho'⟩
  · exact ⟨none, .none _ _ _, .none _ _ _⟩

/-- **The decoder on two copies of a datagram**, with the same cached block. -/
theorem inboundAt_congr (h : SameDatagram m buf m' buf' n) (cfg : AwgConfig)
    (pr : AcceptedProfile) (ks : Option Bytes) :
    ∃ o, InboundAt m buf n
        (transformInboundProfile m buf n cfg pr.toAwgProfile ks).outcome o ∧
      InboundAt m' buf' n
        (transformInboundProfile m' buf' n cfg pr.toAwgProfile ks).outcome o := by
  by_cases h4 : n < 4
  · rw [transformInboundProfile, transformInboundProfile, if_pos h4, if_pos h4]
    exact ⟨none, .none _ _ _, .none _ _ _⟩
  have hword : read32Le m' buf' = read32Le m buf := h.read32Le (i := 0) (by omega)
  by_cases hfast : fastPath m buf n pr.toAwgProfile
  · have hfast' : fastPath m' buf' n pr.toAwgProfile := ⟨hfast.1, hword.trans hfast.2.1, hfast.2.2⟩
    rw [transformInboundProfile_of_fastPath hfast, transformInboundProfile_of_fastPath hfast']
    exact ⟨_, .some (i := 0) h.fits (by omega) (.refl _ _ _) rfl,
      .some (i := 0) h.fits' (by omega) (.refl _ _ _) h.read⟩
  have hfast' : ¬ fastPath m' buf' n pr.toAwgProfile := fun hf =>
    hfast ⟨hf.1, hword.symm.trans hf.2.1, hf.2.2⟩
  by_cases h12 : pr.hpOn = true ∧ n < awgHpMinPadding
  · rw [transformInboundProfile_of_short h12.1 h12.2 hfast,
      transformInboundProfile_of_short h12.1 h12.2 hfast']
    exact ⟨none, .none _ _ _, .none _ _ _⟩
  have hnonce : pr.hpOn = true → 12 ≤ n := fun hon => Nat.le_of_not_lt fun hlt => h12 ⟨hon, hlt⟩
  have hkstream : recvKs cfg m' buf' pr.toAwgProfile ks = recvKs cfg m buf pr.toAwgProfile ks := by
    rw [recvKs, recvKs]
    by_cases hon : pr.hpOn = true
    · rw [if_pos hon, if_pos hon, h.hpRecvKs cfg ks (hnonce hon)]
    · rw [if_neg hon, if_neg hon]
  have hres := transformInboundProfile_eq cfg ks (by omega : 4 ≤ n) hfast hnonce
  have hres' := transformInboundProfile_eq cfg ks (by omega : 4 ≤ n) hfast' hnonce
  rw [InboundResult.outcome, InboundResult.outcome, hres, hres', hkstream]
  refine inboundAt_dispatch h cfg pr fun hsome => ?_
  rw [recvKs] at hsome
  by_cases hon : pr.hpOn = true
  · exact hnonce hon
  · rw [if_neg hon] at hsome
    contradiction

/-! ### The packet function -/

/-- What the packet function of normal mode does with the datagram of `n` bytes at `pkt`: it
changes no byte outside of it, and queues nothing or the message `o`, which lies in it. -/
structure QueuesAt (p p' : Proxy) (pkt : Ptr PktBuf) (n : ℕ) (o : Option Bytes) : Prop where
  changes : p.mem.ChangesIn p'.mem pkt n
  rest : ∃ w, p' = { p with
    mem := p'.mem, queue := p'.queue, cfg := { p.cfg with udpWindow := w } }
  queue : ∃ i, p'.queue =
      p.queue ++ (o.map fun b => SendEntry.mk (pkt.add i) b.length p.clientAddr).toList ∧
    ∀ b ∈ o, i + b.length ≤ n ∧ p'.mem.read (pkt.add i) b.length = b

/-- What the packet function finds in the datagram, by its fast path or the decoder. -/
def normalOutcome (p : Proxy) (pkt : Ptr PktBuf) (n : ℕ) : Mem PktBuf × Option (Ptr PktBuf × ℕ) :=
  if normalChecksTransport p.cfg n && hrangeContains p.cfg.h4
      (read32Le p.mem (pkt.add p.cfg.s4.toNat) ^^^ typeMask (normalKs p pkt n)) then
    (openTransport p.mem (pkt.add p.cfg.s4.toNat) (normalKs p pkt n),
      some (pkt.add p.cfg.s4.toNat, n - p.cfg.s4.toNat))
  else
    (transformInboundProfile p.mem pkt n p.cfg (configActiveProfile p.cfg)
      (normalKs p pkt n)).outcome

/-- What the packet function finds, it queues. -/
theorem queuesAt_of_inboundAt {p : Proxy} {pkt : Ptr PktBuf} {o : Option (ℕ × Bytes)}
    (h : InboundAt p.mem pkt n (normalOutcome p pkt n) o) :
    QueuesAt p (processS2cPktNormal p pkt n) pkt n (o.map Prod.snd) := by
  obtain ⟨w, hw⟩ := awgWindowNote_eq p.cfg n
  have hkeep : p.cfg = { p.cfg with udpWindow := p.cfg.udpWindow } := rfl
  -- the state in which `r` is queued under the window `v`
  have hqueue : ∀ (v : UInt32) (m : Mem PktBuf) (ob : Option (ℕ × Bytes)),
      InboundAt p.mem pkt n (m, ob.map fun ib => (pkt.add ib.1, ib.2.length)) ob →
      QueuesAt p
        { p with
          mem := m
          cfg := { p.cfg with udpWindow := v }
          queue := p.queue ++ (ob.map fun ib =>
            SendEntry.mk (pkt.add ib.1) ib.2.length p.clientAddr).toList }
        pkt n (ob.map Prod.snd) := by
    intro v m ob hob
    cases ob with
    | none => exact ⟨hob.changes, ⟨v, rfl⟩, 0, rfl, nofun⟩
    | some ib =>
        refine ⟨hob.changes, ⟨v, rfl⟩, ib.1, rfl, fun b hb => ?_⟩
        obtain rfl := Option.some.inj hb
        exact hob.message ib rfl
  obtain ⟨hchg, hout, hmsg⟩ := h
  rw [processS2cPktNormal_eq, hw]
  rw [normalOutcome] at hchg hout hmsg
  by_cases htake : (normalChecksTransport p.cfg n && hrangeContains p.cfg.h4
      (read32Le p.mem (pkt.add p.cfg.s4.toNat) ^^^ typeMask (normalKs p pkt n))) = true
  · rw [if_pos htake] at hchg hout hmsg ⊢
    cases o with
    | none => contradiction
    | some ib =>
        dsimp only at hchg hout hmsg
        generalize openTransport p.mem (pkt.add p.cfg.s4.toNat) (normalKs p pkt n) = m
          at hchg hmsg ⊢
        obtain ⟨hbase, hlen⟩ := Prod.mk.inj (Option.some.inj hout)
        rw [hbase, hlen]
        exact hqueue w m (some ib) ⟨hchg, rfl, hmsg⟩
  · rw [if_neg htake] at hchg hout hmsg ⊢
    generalize transformInboundProfile p.mem pkt n p.cfg (configActiveProfile p.cfg)
      (normalKs p pkt n) = r at hchg hout hmsg ⊢
    dsimp only [InboundResult.outcome] at hchg hout hmsg ⊢
    rw [hout]
    cases o with
    | none =>
        have hq := hqueue p.cfg.udpWindow r.mem none ⟨hchg, rfl, hmsg⟩
        rw [Option.map_none, Option.toList_none, List.append_nil] at hq
        exact hq
    | some ib => exact hqueue p.cfg.udpWindow r.mem (some ib) ⟨hchg, rfl, hmsg⟩

/-- The size check asks for a padded message of transport data. -/
theorem le_of_normalChecksTransport {cfg : AwgConfig} (h : normalChecksTransport cfg n = true) :
    cfg.s4 + 32 ≤ n := by
  rw [normalChecksTransport, Bool.and_eq_true, decide_eq_true_eq] at h
  exact h.1

/-- The packet function finds the same in two copies of a datagram. -/
theorem normalOutcome_congr {p p' : Proxy} {pkt pkt' : Ptr PktBuf} {pr : AcceptedProfile}
    (hact : configActiveProfile p.cfg = pr.toAwgProfile) (hmir : p.cfg.Mirrored)
    {w : UInt32} (hcfg : p'.cfg = { p.cfg with udpWindow := w })
    (h : SameDatagram p.mem pkt p'.mem pkt' n) :
    ∃ o, InboundAt p.mem pkt n (normalOutcome p pkt n) o ∧
      InboundAt p'.mem pkt' n (normalOutcome p' pkt' n) o := by
  have hflat : p.cfg.toAwgProfile = pr.toAwgProfile := hmir.trans hact
  have hs4 : 0 ≤ p.cfg.s4 := hflat ▸ pr.valid.s4_mem.1
  have hchk' : normalChecksTransport p'.cfg n = normalChecksTransport p.cfg n := by
    rw [hcfg]
    rfl
  have hks' : normalKs p' pkt' n = normalKs p pkt n := by
    rw [normalKs, normalKs, hchk', hcfg]
    dsimp only
    split
    · rename_i hon
      have hlen := le_of_normalChecksTransport (Bool.and_eq_true_iff.mp hon).1
      exact congrArg some (h.hpRecvKs p.cfg none (by omega))
    · rfl
  have hdec : ∀ ks, transformInboundProfile p'.mem pkt' n p'.cfg (configActiveProfile p'.cfg) ks =
      transformInboundProfile p'.mem pkt' n p.cfg pr.toAwgProfile ks := by
    intro ks
    rw [hcfg, ← hact]
    rfl
  rw [normalOutcome, normalOutcome, hchk', hks', hdec, hact]
  have hs4' : p'.cfg.s4 = p.cfg.s4 := by rw [hcfg]
  have hh4' : p'.cfg.h4 = p.cfg.h4 := by rw [hcfg]
  rw [hs4', hh4']
  by_cases hchk : normalChecksTransport p.cfg n = true
  · have hlen := le_of_normalChecksTransport hchk
    rw [h.read32Le (i := p.cfg.s4.toNat) (by omega)]
    split
    · obtain ⟨o, ho, ho', -⟩ := inboundAt_transport h (normalKs p pkt n) (i := p.cfg.s4.toNat)
        (l := n - p.cfg.s4.toNat) (by omega) (by omega)
      exact ⟨o, ho, ho'⟩
    · exact inboundAt_congr h p.cfg pr _
  · rw [Bool.not_eq_true] at hchk
    rw [hchk, Bool.false_and, Bool.false_and, if_neg Bool.false_ne_true]
    exact inboundAt_congr h p.cfg pr _

/-- A memory of nothing but the datagram `d`. -/
def aloneMem (d : Bytes) : Mem PktBuf :=
  fun _ => d

/-- What the client gets for the datagram `d`. -/
def normalDecode (cfg : AwgConfig) (d : Bytes) : Option Bytes :=
  let p := processS2cPktNormal (.zeroed cfg (aloneMem d)) ⟨.gro, 0⟩ d.length
  p.queue.head?.map fun e => p.mem.read e.base e.len

theorem normalDecode_of_inboundAt {cfg : AwgConfig} {d : Bytes} {o : Option (ℕ × Bytes)}
    (h : InboundAt (aloneMem d) ⟨.gro, 0⟩ d.length
      (normalOutcome (.zeroed cfg (aloneMem d)) ⟨.gro, 0⟩ d.length) o) :
    normalDecode cfg d = o.map Prod.snd := by
  obtain ⟨i, hqueue, hmsg⟩ := (queuesAt_of_inboundAt (p := .zeroed cfg (aloneMem d)) h).queue
  rw [normalDecode, hqueue]
  cases o with
  | none => rfl
  | some ib => exact congrArg some (hmsg _ rfl).2

/-- A datagram and its copy alone. -/
theorem sameDatagram_aloneMem {m : Mem PktBuf} {pkt : Ptr PktBuf} (hf : m.Fits pkt n) :
    SameDatagram m pkt (aloneMem (m.read pkt n)) ⟨.gro, 0⟩ n := by
  have hlen := Mem.length_read hf
  refine ⟨hf, ?_, ?_⟩
  · simp only [Mem.Fits, aloneMem, hlen, Nat.zero_add, le_refl]
  · have hwhole := Bytes.slice_zero_length (m.read pkt n)
    rwa [hlen] at hwhole

/-- **The packet function of normal mode** queues what the client gets for the bytes of the
datagram. -/
theorem processS2cPktNormal_spec {p : Proxy} {pkt : Ptr PktBuf} {pr : AcceptedProfile}
    (hact : configActiveProfile p.cfg = pr.toAwgProfile) (hmir : p.cfg.Mirrored)
    (hf : p.mem.Fits pkt n) :
    QueuesAt p (processS2cPktNormal p pkt n) pkt n
      (normalDecode p.cfg (p.mem.read pkt n)) := by
  have hlen := Mem.length_read hf
  have hcfg : (Proxy.zeroed p.cfg (aloneMem (p.mem.read pkt n))).cfg =
      { p.cfg with udpWindow := p.cfg.udpWindow } := rfl
  obtain ⟨o, ho, ho'⟩ := normalOutcome_congr hact hmir hcfg (sameDatagram_aloneMem hf)
  have hdec : normalDecode p.cfg (p.mem.read pkt n) = o.map Prod.snd :=
    normalDecode_of_inboundAt (by rw [hlen]; exact ho')
  rw [hdec]
  exact queuesAt_of_inboundAt ho

/-- The window of trailers is no part of what the client gets. -/
theorem normalDecode_udpWindow {cfg : AwgConfig} {pr : AcceptedProfile}
    (hact : configActiveProfile cfg = pr.toAwgProfile) (hmir : cfg.Mirrored) (w : UInt32)
    (d : Bytes) : normalDecode { cfg with udpWindow := w } d = normalDecode cfg d := by
  have hfits : (aloneMem d).Fits (⟨.gro, 0⟩ : Ptr PktBuf) d.length := (Nat.zero_add _).le
  have hcfg : (Proxy.zeroed { cfg with udpWindow := w } (aloneMem d)).cfg =
      { (Proxy.zeroed cfg (aloneMem d)).cfg with udpWindow := w } := rfl
  obtain ⟨o, ho, ho'⟩ := normalOutcome_congr (p := .zeroed cfg (aloneMem d)) hact hmir hcfg
    ⟨hfits, hfits, rfl⟩
  rw [normalDecode_of_inboundAt ho, normalDecode_of_inboundAt ho']

/-- An empty datagram brings the client nothing. -/
theorem normalDecode_nil {cfg : AwgConfig} (hs4 : 0 ≤ cfg.s4) : normalDecode cfg [] = none := by
  have hchk : normalChecksTransport cfg 0 = false := by
    rw [← Bool.not_eq_true]
    intro h
    have := le_of_normalChecksTransport h
    omega
  have hnone : normalOutcome (.zeroed cfg (aloneMem [])) ⟨.gro, 0⟩ 0 = (aloneMem [], none) := by
    have hc : normalChecksTransport (Proxy.zeroed cfg (aloneMem [])).cfg 0 = false := hchk
    rw [normalOutcome, hc, Bool.false_and, if_neg Bool.false_ne_true, transformInboundProfile,
      if_pos (by decide)]
    rfl
  refine normalDecode_of_inboundAt (o := none) ?_
  rw [List.length_nil, hnone]
  exact .none _ _ _

end AwgProxy
