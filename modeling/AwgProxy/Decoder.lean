import AwgProxy.Transform

/-!
# The Decoder

`transform_inbound_profile` as a choice among four messages, three kinds of handshake and
transport data, each found by a size and a header range (`matchesKind`,
`matchesTransport`) and opened in place (`openAs`, `openTransport`).

* `transformInboundProfile_eq` — the decoder is the fast path for unchanged transport data
  followed by this choice under the keystream block of the datagram.
* `openAs_spec`, `openTransport_spec` — what the region of an opened message holds, and
  that nothing outside it changes.
-/

namespace AwgProxy

variable {m : Mem PktBuf} {buf : Ptr PktBuf} {n : ℕ} {cfg : AwgConfig} {pr : AwgProfile}

/-! ### The choice of a message -/

/-- The first keystream word, which masks the type word. -/
def typeMask (kstream : Option Bytes) : UInt32 :=
  kstream.elim 0 fun k => load32Le k 0

/-- The datagram has a size and a header of the kind. -/
def matchesKind (m : Mem PktBuf) (buf : Ptr PktBuf) (n : ℕ) (pr : AwgProfile)
    (kstream : Option Bytes) (k : HandshakeKind) : Bool :=
  sizeMatches pr n (k.total pr) &&
    hrangeContains (k.header pr)
      (read32Le m (buf.add (k.pad pr).toNat) ^^^ typeMask kstream)

/-- The datagram has a size and a header of transport data. -/
def matchesTransport (m : Mem PktBuf) (buf : Ptr PktBuf) (n : ℕ) (pr : AwgProfile)
    (kstream : Option Bytes) : Bool :=
  (n : ℤ) ≥ pr.s4 + wgTransportMin &&
    hrangeContains pr.h4 (read32Le m (buf.add pr.s4.toNat) ^^^ typeMask kstream)

/-- The memory with a handshake opened in place. -/
def openAs (m : Mem PktBuf) (buf : Ptr PktBuf) (cfg : AwgConfig) (pr : AwgProfile)
    (kstream : Option Bytes) (k : HandshakeKind) : Mem PktBuf :=
  let p := buf.add (k.pad pr).toNat
  let m := openHandshake m buf cfg kstream (k.pad pr).toNat k.size k.type
  k.macOff.elim m fun off => cfg.mac1keyIn.elim m fun key => recomputeMac1At off m p key

/-- The memory with transport data opened in place. -/
def openTransport (m : Mem PktBuf) (p : Ptr PktBuf) (kstream : Option Bytes) : Mem PktBuf :=
  let m := kstream.elim m fun k => m.write p (chacha20XorKs (m.read p awgHpTransportHdr) k)
  write32Le m p wgTransportData

/-- A handshake as the dispatch returns it. -/
def inboundKind (m : Mem PktBuf) (buf : Ptr PktBuf) (cfg : AwgConfig) (pr : AwgProfile)
    (kstream : Option Bytes) (k : HandshakeKind) : Mem PktBuf × Option (Ptr PktBuf × ℕ) :=
  (openAs m buf cfg pr kstream k, some (buf.add (k.pad pr).toNat, k.size))

/-- Transport data as the dispatch returns it. -/
def inboundTransport (m : Mem PktBuf) (buf : Ptr PktBuf) (n : ℕ) (pr : AwgProfile)
    (kstream : Option Bytes) : Mem PktBuf × Option (Ptr PktBuf × ℕ) :=
  (openTransport m (buf.add pr.s4.toNat) kstream,
    some (buf.add pr.s4.toNat, n - pr.s4.toNat))

/-- The dispatch as a choice among four messages. -/
theorem inboundDispatch_eq (kstream : Option Bytes) :
    inboundDispatch m buf n cfg pr kstream =
      if matchesKind m buf n pr kstream .init then inboundKind m buf cfg pr kstream .init
      else if matchesKind m buf n pr kstream .response then
        inboundKind m buf cfg pr kstream .response
      else if matchesKind m buf n pr kstream .cookie then
        inboundKind m buf cfg pr kstream .cookie
      else if matchesTransport m buf n pr kstream then inboundTransport m buf n pr kstream
      else (m, none) :=
  rfl

/-- The place of a kind in the order in which the dispatch tries them. -/
def HandshakeKind.rank : HandshakeKind → ℕ
  | init => 0
  | response => 1
  | cookie => 2

/-- A kind is chosen when it matches and none before it does. -/
theorem inboundDispatch_of_first {kstream : Option Bytes} {k : HandshakeKind}
    (hk : matchesKind m buf n pr kstream k = true)
    (hbefore : ∀ j : HandshakeKind, j.rank < k.rank →
      matchesKind m buf n pr kstream j = false) :
    inboundDispatch m buf n cfg pr kstream = inboundKind m buf cfg pr kstream k := by
  rw [inboundDispatch_eq]
  cases k with
  | init => rw [if_pos hk]
  | response => rw [hbefore .init (by decide), if_neg Bool.false_ne_true, if_pos hk]
  | cookie =>
      rw [hbefore .init (by decide), hbefore .response (by decide),
        if_neg Bool.false_ne_true, if_neg Bool.false_ne_true, if_pos hk]

/-- Where some kind matches, one matches and none before it does. -/
theorem exists_first_of_matchesKind {kstream : Option Bytes} {j : HandshakeKind}
    (hj : matchesKind m buf n pr kstream j = true) :
    ∃ i, i.rank ≤ j.rank ∧ matchesKind m buf n pr kstream i = true ∧
      ∀ l : HandshakeKind, l.rank < i.rank → matchesKind m buf n pr kstream l = false := by
  induction hr : j.rank using Nat.strong_induction_on generalizing j with
  | _ r ih =>
      by_cases hl : ∃ l : HandshakeKind, l.rank < j.rank ∧
          matchesKind m buf n pr kstream l = true
      · obtain ⟨l, hlt, hl⟩ := hl
        obtain ⟨i, hi, hfirst⟩ := ih l.rank (hr ▸ hlt) hl rfl
        exact ⟨i, by omega, hfirst⟩
      · refine ⟨j, hr.le, hj, fun l hlt => ?_⟩
        rw [← Bool.not_eq_true]
        exact fun h => hl ⟨l, hlt, h⟩

/-- Without a matching handshake the dispatch looks for transport data. -/
theorem inboundDispatch_of_not_matchesKind {kstream : Option Bytes}
    (hother : ∀ j, matchesKind m buf n pr kstream j = false) :
    inboundDispatch m buf n cfg pr kstream =
      if matchesTransport m buf n pr kstream then inboundTransport m buf n pr kstream
      else (m, none) := by
  rw [inboundDispatch_eq, hother .init, hother .response, hother .cookie,
    if_neg Bool.false_ne_true, if_neg Bool.false_ne_true, if_neg Bool.false_ne_true]

/-- The dispatch finds a handshake that matches, or looks for transport data. -/
theorem inboundDispatch_cases (kstream : Option Bytes) :
    (∃ k, matchesKind m buf n pr kstream k = true ∧
        inboundDispatch m buf n cfg pr kstream = inboundKind m buf cfg pr kstream k) ∨
      (∀ k, matchesKind m buf n pr kstream k = false) ∧
        inboundDispatch m buf n cfg pr kstream =
          if matchesTransport m buf n pr kstream then inboundTransport m buf n pr kstream
          else (m, none) := by
  rw [inboundDispatch_eq]
  rcases Bool.eq_false_or_eq_true (matchesKind m buf n pr kstream .init) with hi | hi
  · exact Or.inl ⟨.init, hi, by rw [if_pos hi]⟩
  rcases Bool.eq_false_or_eq_true (matchesKind m buf n pr kstream .response) with hr | hr
  · exact Or.inl ⟨.response, hr, by rw [hi, if_neg Bool.false_ne_true, if_pos hr]⟩
  rcases Bool.eq_false_or_eq_true (matchesKind m buf n pr kstream .cookie) with hc | hc
  · exact Or.inl ⟨.cookie, hc, by
      rw [hi, hr, if_neg Bool.false_ne_true, if_neg Bool.false_ne_true, if_pos hc]⟩
  refine Or.inr ⟨?_, ?_⟩
  · rintro (_ | _ | _)
    · exact hi
    · exact hr
    · exact hc
  · rw [hi, hr, hc, if_neg Bool.false_ne_true, if_neg Bool.false_ne_true,
      if_neg Bool.false_ne_true]

/-- The keystream block the decoder works with. -/
def recvKs (cfg : AwgConfig) (m : Mem PktBuf) (buf : Ptr PktBuf) (pr : AwgProfile)
    (ks : Option Bytes) : Option Bytes :=
  if pr.hpOn then some (hpRecvKs cfg m buf ks) else none

/-- The fast path of the decoder is taken. -/
abbrev fastPath (m : Mem PktBuf) (buf : Ptr PktBuf) (n : ℕ) (pr : AwgProfile) : Prop :=
  pr.h4Noop = true ∧ read32Le m buf = wgTransportData ∧ n ≥ wgTransportMin

/-- Where transport data does not pass unchanged there is no fast path. -/
theorem not_fastPath_of_h4Noop (hnoop : pr.h4Noop = false) : ¬ fastPath m buf n pr := by
  rintro ⟨hon, -⟩
  rw [hnoop] at hon
  contradiction

/-- The fast path returns the datagram as it is. -/
theorem transformInboundProfile_of_fastPath {ks : Option Bytes}
    (h : fastPath m buf n pr) :
    transformInboundProfile m buf n cfg pr ks = ⟨m, some (buf, n), ks⟩ := by
  have h32 := h.2.2
  simp only [wgTransportMin] at h32
  rw [transformInboundProfile, if_neg (by omega), if_pos h]

/-- Beside the fast path the decoder is the dispatch. -/
theorem transformInboundProfile_eq (cfg : AwgConfig) (ks : Option Bytes) (h4 : 4 ≤ n)
    (hfast : ¬ fastPath m buf n pr) (h12 : pr.hpOn = true → 12 ≤ n) :
    ((transformInboundProfile m buf n cfg pr ks).mem,
      (transformInboundProfile m buf n cfg pr ks).out) =
      inboundDispatch m buf n cfg pr (recvKs cfg m buf pr ks) := by
  rw [transformInboundProfile, if_neg (by omega), if_neg hfast, recvKs]
  cases hon : pr.hpOn with
  | false => simp
  | true =>
      have hlen := h12 hon
      simp only [if_true, awgHpMinPadding]
      rw [if_neg (by omega)]

/-! ### The cached keystream block -/

/-- A cached keystream block is the one of the datagram. -/
def KsValid (cfg : AwgConfig) (m : Mem PktBuf) (buf : Ptr PktBuf) (ks : Option Bytes) : Prop :=
  ∀ k, ks = some k → k = chacha20Block cfg.hpKey (m.read buf 12) 0

/-- With a valid cache, or none, the decoder works with the block of the datagram. -/
theorem recvKs_eq {cfg : AwgConfig} {m : Mem PktBuf} {buf : Ptr PktBuf} {ks : Option Bytes}
    (pr : AwgProfile) (hks : KsValid cfg m buf ks) :
    recvKs cfg m buf pr ks =
      if pr.hpOn then some (chacha20Block cfg.hpKey (m.read buf 12) 0) else none := by
  have hrecv : hpRecvKs cfg m buf ks = chacha20Block cfg.hpKey (m.read buf 12) 0 := by
    cases ks with
    | none => rfl
    | some k => exact hks k rfl
  rw [recvKs, hrecv]

/-! ### What is opened -/

/-- A handshake with its protection undone. -/
def unprotect (cfg : AwgConfig) (kstream : Option Bytes) (nonce d : Bytes) : Bytes :=
  if kstream.isSome then chacha20Xor cfg.hpKey nonce d else d

@[simp] theorem length_unprotect (cfg : AwgConfig) (kstream : Option Bytes) (nonce d : Bytes) :
    (unprotect cfg kstream nonce d).length = d.length := by
  unfold unprotect
  split <;> simp

/-- An opened handshake: unprotected, under its WireGuard type. -/
theorem openHandshake_spec (cfg : AwgConfig) (kstream : Option Bytes) {s size : ℕ}
    (type : UInt32) (hf : m.Fits (buf.add s) size) (h4 : 4 ≤ size) :
    (openHandshake m buf cfg kstream s size type).read (buf.add s) size =
      retype type (unprotect cfg kstream (m.read buf 12) (m.read (buf.add s) size)) ∧
    m.ChangesIn (openHandshake m buf cfg kstream s size type) (buf.add s) size := by
  cases kstream with
  | none => exact ⟨read_write32Le type hf h4, changesIn_write32Le type hf h4⟩
  | some k =>
      have hlen : (chacha20Xor cfg.hpKey (m.read buf 12) (m.read (buf.add s) size)).length =
          size := by
        rw [length_chacha20Xor, Mem.length_read hf]
      have hxor : (m.write (buf.add s)
          (chacha20Xor cfg.hpKey (m.read buf 12) (m.read (buf.add s) size))).read (buf.add s)
            size = chacha20Xor cfg.hpKey (m.read buf 12) (m.read (buf.add s) size) := by
        have hself := Mem.read_write_self (p := buf.add s) (m := m)
          (d := chacha20Xor cfg.hpKey (m.read buf 12) (m.read (buf.add s) size))
          (by rw [hlen]; exact hf)
        rwa [hlen] at hself
      have hchg := Mem.ChangesIn.write (i := 0) hf (d := chacha20Xor cfg.hpKey (m.read buf 12)
        (m.read (buf.add s) size)) (by rw [hlen]; omega)
      rw [Ptr.add_zero] at hchg
      have hf' := hchg.shape.fits_iff.mpr hf
      refine ⟨?_, hchg.trans (changesIn_write32Le type hf' h4)⟩
      have hret := read_write32Le type hf' h4
      rw [hxor] at hret
      exact hret

/-- An opened handshake with its sum recomputed under the receiver's key. -/
theorem openAs_spec (cfg : AwgConfig) (kstream : Option Bytes) {k : HandshakeKind}
    (hf : m.Fits (buf.add (k.pad pr).toNat) k.size) :
    (openAs m buf cfg pr kstream k).read (buf.add (k.pad pr).toNat) k.size =
      k.putMac cfg.mac1keyIn (retype k.type (unprotect cfg kstream (m.read buf 12)
        (m.read (buf.add (k.pad pr).toNat) k.size))) ∧
    m.ChangesIn (openAs m buf cfg pr kstream k) (buf.add (k.pad pr).toNat) k.size := by
  obtain ⟨hread, hchg⟩ := openHandshake_spec cfg kstream k.type hf k.four_le_size
  have hf' := hchg.shape.fits_iff.mpr hf
  have hmac : ∀ off key, off + 16 ≤ k.size →
      (recomputeMac1At off (openHandshake m buf cfg kstream (k.pad pr).toNat k.size k.type)
        (buf.add (k.pad pr).toNat) key).read (buf.add (k.pad pr).toNat) k.size =
        putMac1 off (some key) (retype k.type (unprotect cfg kstream (m.read buf 12)
          (m.read (buf.add (k.pad pr).toNat) k.size))) ∧
      m.ChangesIn (recomputeMac1At off
        (openHandshake m buf cfg kstream (k.pad pr).toNat k.size k.type)
        (buf.add (k.pad pr).toNat) key) (buf.add (k.pad pr).toNat) k.size := by
    intro off key hoff
    rw [read_recomputeMac1At key hf' hoff, hread]
    exact ⟨rfl, hchg.trans (changesIn_recomputeMac1At key hf' hoff)⟩
  rcases hin : cfg.mac1keyIn with _ | key
  · simp only [openAs, hin, Option.elim_none]
    cases k <;> exact ⟨hread, hchg⟩
  · simp only [openAs, hin, Option.elim_some]
    cases k with
    | init => exact hmac 116 key (by decide)
    | response => exact hmac 60 key (by decide)
    | cookie => exact ⟨hread, hchg⟩

/-- Transport data with the protection of its header undone. -/
def unprotectHeader (kstream : Option Bytes) (d : Bytes) : Bytes :=
  kstream.elim d fun k => d.patch 0 (chacha20XorKs (d.take awgHpTransportHdr) k)

/-- Opened transport data: its header unprotected, under its WireGuard type. -/
theorem openTransport_spec {p : Ptr PktBuf} (kstream : Option Bytes) {l : ℕ}
    (hf : m.Fits p l) (hl : 32 ≤ l) :
    (openTransport m p kstream).read p l =
      retype wgTransportData (unprotectHeader kstream (m.read p l)) ∧
    m.ChangesIn (openTransport m p kstream) p l := by
  cases kstream with
  | none =>
      exact ⟨read_write32Le wgTransportData hf (by omega),
        changesIn_write32Le wgTransportData hf (by omega)⟩
  | some k =>
      have h16 : awgHpTransportHdr = 16 := rfl
      have hhdr : m.read p awgHpTransportHdr = (m.read p l).take awgHpTransportHdr := by
        have hslice := m.read_add_eq_slice p (i := 0) (n := awgHpTransportHdr) (k := l)
          (by omega)
        rwa [Ptr.add_zero, Bytes.slice, List.drop_zero] at hslice
      have hlen : (chacha20XorKs (m.read p awgHpTransportHdr) k).length ≤ 16 := by
        rw [chacha20XorKs, Bytes.length_xorBytes, hhdr, List.length_take]
        omega
      have hread : (m.write p (chacha20XorKs (m.read p awgHpTransportHdr) k)).read p l =
          unprotectHeader (some k) (m.read p l) := by
        have hsub := Mem.read_write_of_subset (p := p) (i := 0) hf
          (d := chacha20XorKs (m.read p awgHpTransportHdr) k) (by omega)
        rw [Ptr.add_zero] at hsub
        rw [hsub, hhdr]
        rfl
      have hchg := Mem.ChangesIn.write (i := 0) hf
        (d := chacha20XorKs (m.read p awgHpTransportHdr) k) (by omega)
      rw [Ptr.add_zero] at hchg
      have hf' := hchg.shape.fits_iff.mpr hf
      refine ⟨?_, hchg.trans (changesIn_write32Le wgTransportData hf' (by omega))⟩
      have hret := read_write32Le wgTransportData hf' (by omega)
      rw [hread] at hret
      exact hret

/-! ### What a profile finds in a datagram -/

/-- What the decoder takes a datagram for. -/
inductive InboundMessage
  /-- A handshake. -/
  | handshake (k : HandshakeKind)
  /-- Transport data. -/
  | transport
  deriving DecidableEq

/-- The type word of the message. -/
def InboundMessage.type : InboundMessage → UInt32
  | .handshake k => k.type
  | .transport => wgTransportData

/-- What the decoder finds in the datagram of `n` bytes at `buf` under a profile. -/
def inboundMessage? (m : Mem PktBuf) (buf : Ptr PktBuf) (n : ℕ) (cfg : AwgConfig)
    (pr : AwgProfile) : Option InboundMessage :=
  let ks := recvKs cfg m buf pr none
  if n < 4 then none
  else if fastPath m buf n pr then some .transport
  else if pr.hpOn ∧ n < awgHpMinPadding then none
  else if matchesKind m buf n pr ks .init then some (.handshake .init)
  else if matchesKind m buf n pr ks .response then some (.handshake .response)
  else if matchesKind m buf n pr ks .cookie then some (.handshake .cookie)
  else if matchesTransport m buf n pr ks then some .transport
  else none

section

variable {ks : Option Bytes}

/-- A valid cache makes no difference to the keystream. -/
theorem recvKs_eq_of_ksValid (pr : AwgProfile) (hks : KsValid cfg m buf ks) :
    recvKs cfg m buf pr ks = recvKs cfg m buf pr none := by
  have hnone : KsValid cfg m buf none := fun _ h => nomatch h
  rw [recvKs_eq pr hks, recvKs_eq pr hnone]

/-- The keystream block the decoder leaves in the cache is the one of the datagram. -/
theorem KsValid.transformInboundProfile (hks : KsValid cfg m buf ks) (n : ℕ) (pr : AwgProfile) :
    KsValid cfg m buf (transformInboundProfile m buf n cfg pr ks).ks := by
  have hcomputed : KsValid cfg m buf (some (hpRecvKs cfg m buf ks)) := by
    intro k hk
    obtain rfl := Option.some.inj hk
    cases ks with
    | none => rfl
    | some k => exact hks k rfl
  rw [AwgProxy.transformInboundProfile]
  split
  · exact hks
  split
  · exact hks
  split
  · split
    · exact hks
    · exact hcomputed
  · exact hks

/-- Without enough bytes for a nonce there is no message under header protection. -/
theorem transformInboundProfile_of_short (hon : pr.hpOn = true) (h12 : n < awgHpMinPadding)
    (hfast : ¬ fastPath m buf n pr) :
    transformInboundProfile m buf n cfg pr ks = ⟨m, none, ks⟩ := by
  rw [transformInboundProfile]
  by_cases h4 : n < 4
  · rw [if_pos h4]
  · rw [if_neg h4, if_neg hfast, if_pos hon, if_pos h12]

/-- A datagram in which nothing is found is dropped as it is. -/
theorem transformInboundProfile_of_none (hks : KsValid cfg m buf ks)
    (h : inboundMessage? m buf n cfg pr = none) :
    (transformInboundProfile m buf n cfg pr ks).mem = m ∧
      (transformInboundProfile m buf n cfg pr ks).out = none := by
  rw [inboundMessage?] at h
  by_cases h4 : n < 4
  · rw [transformInboundProfile, if_pos h4]
    exact ⟨rfl, rfl⟩
  rw [if_neg h4] at h
  by_cases hfast : fastPath m buf n pr
  · rw [if_pos hfast] at h
    contradiction
  rw [if_neg hfast] at h
  by_cases h12 : pr.hpOn = true ∧ n < awgHpMinPadding
  · rw [transformInboundProfile_of_short h12.1 h12.2 hfast]
    exact ⟨rfl, rfl⟩
  rw [if_neg h12, ← recvKs_eq_of_ksValid pr hks] at h
  have hres := transformInboundProfile_eq cfg ks (by omega : 4 ≤ n) hfast
    fun hon => Nat.le_of_not_lt fun hlt => h12 ⟨hon, hlt⟩
  rw [inboundDispatch_eq] at hres
  split at h
  · contradiction
  split at h
  · contradiction
  split at h
  · contradiction
  split at h
  · contradiction
  rw [if_neg ‹_›, if_neg ‹_›, if_neg ‹_›, if_neg ‹_›] at hres
  exact Prod.mk.inj hres

/-- A handshake that matches lies in the datagram. -/
theorem fits_of_matchesKind {pr : AcceptedProfile} {kstream : Option Bytes} {k : HandshakeKind}
    (hf : m.Fits buf n) (h : matchesKind m buf n pr.toAwgProfile kstream k = true) :
    m.Fits (buf.add (k.pad pr.toAwgProfile).toNat) k.size := by
  have hpad := (HandshakeKind.pad_mem pr.valid k).1
  rw [matchesKind, Bool.and_eq_true, sizeMatches, Bool.or_eq_true, Bool.and_eq_true,
    decide_eq_true_eq, decide_eq_true_eq, k.total_eq] at h
  refine hf.add ?_
  rcases h.1 with h | ⟨-, h⟩ <;> omega

/-- An opened handshake has its WireGuard type. -/
theorem read32Le_openAs {kstream : Option Bytes} {k : HandshakeKind}
    (hf : m.Fits (buf.add (k.pad pr).toNat) k.size) :
    read32Le (openAs m buf cfg pr kstream k) (buf.add (k.pad pr).toNat) = k.type := by
  have h4 := k.four_le_size
  have hlen : (unprotect cfg kstream (m.read buf 12)
      (m.read (buf.add (k.pad pr).toNat) k.size)).length = k.size := by
    rw [length_unprotect, Mem.length_read hf]
  rw [read32Le_eq _ _ h4, (openAs_spec cfg kstream hf).1,
    HandshakeKind.load32Le_putMac (by rw [length_retype (by omega), hlen]),
    load32Le_retype (by omega)]

/-- Opened transport data has its WireGuard type. -/
theorem read32Le_openTransport {p : Ptr PktBuf} {kstream : Option Bytes} {l : ℕ}
    (hf : m.Fits p l) (hl : 32 ≤ l) :
    read32Le (openTransport m p kstream) p = wgTransportData := by
  have h16 : awgHpTransportHdr = 16 := rfl
  have hlen := Mem.length_read hf
  rw [read32Le_eq _ _ (by omega : 4 ≤ l), (openTransport_spec kstream hf hl).1, load32Le_retype]
  cases kstream with
  | none =>
      rw [unprotectHeader, Option.elim_none, hlen]
      omega
  | some k =>
      rw [unprotectHeader, Option.elim_some, Bytes.length_patch, hlen]
      · omega
      · rw [chacha20XorKs, Bytes.length_xorBytes, List.length_take]
        omega

/-- What the decoder returns begins with the type of what it found. -/
theorem transformInboundProfile_of_some {pr : AcceptedProfile} (hks : KsValid cfg m buf ks)
    (hf : m.Fits buf n) {msg : InboundMessage}
    (h : inboundMessage? m buf n cfg pr.toAwgProfile = some msg) :
    ∃ q l, (transformInboundProfile m buf n cfg pr.toAwgProfile ks).out = some (q, l) ∧
      read32Le (transformInboundProfile m buf n cfg pr.toAwgProfile ks).mem q = msg.type ∧
      ∀ k, msg = .handshake k → l = k.size := by
  rw [inboundMessage?] at h
  by_cases h4 : n < 4
  · rw [if_pos h4] at h
    contradiction
  rw [if_neg h4] at h
  by_cases hfast : fastPath m buf n pr.toAwgProfile
  · rw [if_pos hfast] at h
    obtain rfl := Option.some.inj h
    rw [transformInboundProfile_of_fastPath hfast]
    exact ⟨buf, n, rfl, hfast.2.1, fun _ hk => nomatch hk⟩
  rw [if_neg hfast] at h
  by_cases h12 : pr.hpOn = true ∧ n < awgHpMinPadding
  · rw [if_pos h12] at h
    contradiction
  rw [if_neg h12, ← recvKs_eq_of_ksValid pr.toAwgProfile hks] at h
  have hres := transformInboundProfile_eq cfg ks (by omega : 4 ≤ n) hfast
    fun hon => Nat.le_of_not_lt fun hlt => h12 ⟨hon, hlt⟩
  generalize transformInboundProfile m buf n cfg pr.toAwgProfile ks = r at hres ⊢
  generalize recvKs cfg m buf pr.toAwgProfile ks = kstream at h hres
  have hkind : ∀ k, matchesKind m buf n pr.toAwgProfile kstream k = true →
      (r.mem, r.out) = inboundKind m buf cfg pr.toAwgProfile kstream k →
      some (.handshake k) = some msg →
      ∃ q l, r.out = some (q, l) ∧ read32Le r.mem q = msg.type ∧
        ∀ k, msg = .handshake k → l = k.size := by
    intro k hk hres hmsg
    obtain rfl := Option.some.inj hmsg
    obtain ⟨hmem, hout⟩ := Prod.mk.inj hres
    refine ⟨_, _, hout, ?_, fun j hj => by rw [InboundMessage.handshake.inj hj]⟩
    rw [hmem]
    exact read32Le_openAs (fits_of_matchesKind hf hk)
  rw [inboundDispatch_eq] at hres
  by_cases hi : matchesKind m buf n pr.toAwgProfile kstream .init = true
  · rw [if_pos hi] at h hres
    exact hkind .init hi hres h
  rw [if_neg hi] at h hres
  by_cases hr : matchesKind m buf n pr.toAwgProfile kstream .response = true
  · rw [if_pos hr] at h hres
    exact hkind .response hr hres h
  rw [if_neg hr] at h hres
  by_cases hc : matchesKind m buf n pr.toAwgProfile kstream .cookie = true
  · rw [if_pos hc] at h hres
    exact hkind .cookie hc hres h
  rw [if_neg hc] at h hres
  by_cases ht : matchesTransport m buf n pr.toAwgProfile kstream = true
  · rw [if_pos ht] at h hres
    obtain rfl := Option.some.inj h
    obtain ⟨hmem, hout⟩ := Prod.mk.inj hres
    rw [matchesTransport, Bool.and_eq_true, decide_eq_true_eq] at ht
    have hs0 := pr.valid.s4_mem.1
    have h32 : (32 : ℤ) = wgTransportMin := rfl
    refine ⟨_, _, hout, ?_, fun _ hk => nomatch hk⟩
    rw [hmem]
    exact read32Le_openTransport (l := n - pr.s4.toNat) (hf.add (by omega)) (by omega)
  · rw [if_neg ht] at h
    contradiction

end

end AwgProxy
