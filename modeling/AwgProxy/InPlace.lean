import AwgProxy.GroSplit
import AwgProxy.Lib.Window

/-!
# Decoding in Place

The segments of a coalesced read lie next to each other in one buffer, and each is decoded
where it lies, before the next one is looked at. The decoder and the packet function once more,
on accesses that fail outside the datagram they are given: the source has no such checks, and
relies on the sizes it compares the datagram with.

* `transformInboundProfileIn?_eq_some`, `processS2cPktNormalIn?_eq_some` — under an accepted
  profile every access passes.
* `decodesInPlace` — neither touches a byte outside the datagram, what they return lies in it,
  and the client gets for a coalesced read what it gets for copies of the segments.
-/

namespace AwgProxy

/-! ### The checked decoder -/

/-- `read32_le` inside the window. -/
def read32LeIn? (w : Window PktBuf) (m : Mem PktBuf) (p : Ptr PktBuf) : Option UInt32 := do
  let d ← m.readIn? w p 4
  some (UInt32.ofNat (Bytes.leNat d))

/-- `write32_le` inside the window. -/
def write32LeIn? (w : Window PktBuf) (m : Mem PktBuf) (p : Ptr PktBuf) (v : UInt32) :
    Option (Mem PktBuf) :=
  m.writeIn? w p (Bytes.leBytes 4 v.toNat)

/-- `recompute_mac1` and `recompute_mac1_response` inside the window. -/
def recomputeMac1AtIn? (w : Window PktBuf) (off : ℕ) (m : Mem PktBuf) (buf : Ptr PktBuf)
    (key : Bytes) : Option (Mem PktBuf) := do
  let d ← m.readIn? w buf off
  m.writeIn? w (buf.add off) (blake2s128mac key d)

/-- `hp_recv_ks` inside the window. -/
def hpRecvKsIn? (w : Window PktBuf) (cfg : AwgConfig) (m : Mem PktBuf) (pkt : Ptr PktBuf)
    (ks : Option Bytes) : Option Bytes :=
  ks.elim (do
      let nonce ← m.readIn? w pkt 12
      some (chacha20Block cfg.hpKey nonce 0))
    some

/-- `chacha20_xor` over `n` bytes at `p` under the nonce at `buf`, inside the window. -/
def chacha20XorIn? (w : Window PktBuf) (m : Mem PktBuf) (key : Bytes) (buf p : Ptr PktBuf)
    (n : ℕ) : Option (Mem PktBuf) := do
  let nonce ← m.readIn? w buf 12
  let d ← m.readIn? w p n
  m.writeIn? w p (chacha20Xor key nonce d)

/-- A handshake found at padding `s`, opened inside the window. -/
def openHandshakeIn? (w : Window PktBuf) (m : Mem PktBuf) (buf : Ptr PktBuf) (cfg : AwgConfig)
    (kstream : Option Bytes) (s size : ℕ) (type : UInt32) : Option (Mem PktBuf) := do
  let p := buf.add s
  let m ← if kstream.isSome then chacha20XorIn? w m cfg.hpKey buf p size else some m
  write32LeIn? w m p type

/-- A handshake opened in place and its sum recomputed, inside the window. -/
def openAsIn? (w : Window PktBuf) (m : Mem PktBuf) (buf : Ptr PktBuf) (cfg : AwgConfig)
    (pr : AwgProfile) (kstream : Option Bytes) (k : HandshakeKind) : Option (Mem PktBuf) := do
  let p := buf.add (k.pad pr).toNat
  let m ← openHandshakeIn? w m buf cfg kstream (k.pad pr).toNat k.size k.type
  k.macOff.elim (some m) fun off =>
    cfg.mac1keyIn.elim (some m) fun key => recomputeMac1AtIn? w off m p key

/-- A handshake branch of the decoder inside the window: the header is read when the size
matches, and the message opened when the header does. `some none` goes on to the next
branch. -/
def inboundKindIn? (w : Window PktBuf) (m : Mem PktBuf) (buf : Ptr PktBuf) (n : ℕ)
    (cfg : AwgConfig) (pr : AwgProfile) (kstream : Option Bytes) (k : HandshakeKind) :
    Option (Option (Mem PktBuf × Option (Ptr PktBuf × ℕ))) :=
  let p := buf.add (k.pad pr).toNat
  if sizeMatches pr n (k.total pr) then do
    let h ← read32LeIn? w m p
    if hrangeContains (k.header pr) (h ^^^ typeMask kstream) then do
      let m ← openAsIn? w m buf cfg pr kstream k
      some (some (m, some (p, k.size)))
    else some none
  else some none

/-- Transport data opened in place, inside the window. -/
def openTransportIn? (w : Window PktBuf) (m : Mem PktBuf) (p : Ptr PktBuf)
    (kstream : Option Bytes) : Option (Mem PktBuf) := do
  let m ← kstream.elim (some m) fun k => do
    let d ← m.readIn? w p awgHpTransportHdr
    m.writeIn? w p (chacha20XorKs d k)
  write32LeIn? w m p wgTransportData

/-- The transport branch of the decoder inside the window. -/
def inboundTransportIn? (w : Window PktBuf) (m : Mem PktBuf) (buf : Ptr PktBuf) (n : ℕ)
    (pr : AwgProfile) (kstream : Option Bytes) : Option (Mem PktBuf × Option (Ptr PktBuf × ℕ)) :=
  let p := buf.add pr.s4.toNat
  if (n : ℤ) ≥ pr.s4 + wgTransportMin then do
    let h ← read32LeIn? w m p
    if hrangeContains pr.h4 (h ^^^ typeMask kstream) then do
      let m ← openTransportIn? w m p kstream
      some (m, some (p, n - pr.s4.toNat))
    else some (m, none)
  else some (m, none)

/-- The dispatch of `transform_inbound_profile` inside the window. -/
def inboundDispatchIn? (w : Window PktBuf) (m : Mem PktBuf) (buf : Ptr PktBuf) (n : ℕ)
    (cfg : AwgConfig) (pr : AwgProfile) (kstream : Option Bytes) :
    Option (Mem PktBuf × Option (Ptr PktBuf × ℕ)) := do
  let init ← inboundKindIn? w m buf n cfg pr kstream .init
  if let some r := init then return r
  let response ← inboundKindIn? w m buf n cfg pr kstream .response
  if let some r := response then return r
  let cookie ← inboundKindIn? w m buf n cfg pr kstream .cookie
  if let some r := cookie then return r
  inboundTransportIn? w m buf n pr kstream

/-- The check of the decoder for transport data that passes unchanged, inside the window. -/
def passesIn? (w : Window PktBuf) (m : Mem PktBuf) (buf : Ptr PktBuf) (n : ℕ) (pr : AwgProfile) :
    Option Bool :=
  if pr.h4Noop then do
    let v ← read32LeIn? w m buf
    some (v = wgTransportData ∧ n ≥ wgTransportMin)
  else some false

/-- `transform_inbound_profile` with every access inside the window. -/
def transformInboundProfileIn? (w : Window PktBuf) (m : Mem PktBuf) (buf : Ptr PktBuf) (n : ℕ)
    (cfg : AwgConfig) (pr : AwgProfile) (ks : Option Bytes) : Option InboundResult :=
  if n < 4 then some ⟨m, none, ks⟩
  else do
    let passes ← passesIn? w m buf n pr
    if passes then some ⟨m, some (buf, n), ks⟩
    else if pr.hpOn then
      if n < awgHpMinPadding then some ⟨m, none, ks⟩
      else do
        let kstream ← hpRecvKsIn? w cfg m buf ks
        let (m, out) ← inboundDispatchIn? w m buf n cfg pr (some kstream)
        some ⟨m, out, some kstream⟩
    else do
      let (m, out) ← inboundDispatchIn? w m buf n cfg pr none
      some ⟨m, out, ks⟩

/-- The keystream block the packet function computes for the fast path, inside the window. -/
def normalKsIn? (w : Window PktBuf) (p : Proxy) (pkt : Ptr PktBuf) : Option (Option Bytes) :=
  if p.cfg.hpOn then (hpRecvKsIn? w p.cfg p.mem pkt none).map some else some none

/-- The check of the packet function for the fast path, inside the window, with the keystream
block it computes for it. -/
def takesFastPathIn? (w : Window PktBuf) (p : Proxy) (pkt : Ptr PktBuf) (n : ℕ) :
    Option (Bool × Option Bytes) :=
  if normalChecksTransport p.cfg n then do
    let h ← read32LeIn? w p.mem (pkt.add p.cfg.s4.toNat)
    let ks ← normalKsIn? w p pkt
    some (hrangeContains p.cfg.h4 (h ^^^ typeMask ks), ks)
  else some (false, none)

/-- What the decoder returned is queued, after its type word was read for the log, inside the
window. -/
def queueInboundIn? (w : Window PktBuf) (p : Proxy) (r : InboundResult) : Option Proxy :=
  match r.out with
  | none => some { p with mem := r.mem }
  | some (out, outLen) => do
      let _ ← if outLen ≥ 4 then r.mem.readIn? w out 4 else some []
      some (({ p with mem := r.mem }).queueSend out outLen p.clientAddr)

/-- `process_s2c_pkt_normal` with every access inside the window. -/
def processS2cPktNormalIn? (w : Window PktBuf) (p : Proxy) (pkt : Ptr PktBuf) (n : ℕ) :
    Option Proxy := do
  let cfg := p.cfg
  let data := pkt.add cfg.s4.toNat
  let (fast, ks) ← takesFastPathIn? w p pkt n
  if fast then do
    let m ← openTransportIn? w p.mem data ks
    some (({ p with mem := m, cfg := awgWindowNote cfg n }).queueSend data (n - cfg.s4.toNat)
      p.clientAddr)
  else do
    let r ← transformInboundProfileIn? w p.mem pkt n cfg (configActiveProfile cfg) ks
    queueInboundIn? w p r

/-- The loop over the segments of a coalesced read, each of them decoded inside its own
window. -/
def groSplitIn? (n seg : ℕ) : ℕ → Proxy → ℕ → Option (Proxy × ℕ)
  | 0, p, off => some (p, off)
  | fuel + 1, p, off =>
      if off < n ∧ p.queue.length < batchSize then do
        let p ← processS2cPktNormalIn? ⟨⟨.gro, off⟩, min seg (n - off)⟩ p ⟨.gro, off⟩
          (min seg (n - off))
        groSplitIn? n seg fuel p (off + seg)
      else some (p, off)

/-! ### The checks pass -/

section

variable {m : Mem PktBuf} {buf p : Ptr PktBuf} {n i : ℕ} {w : Window PktBuf} {cfg : AwgConfig}
  {kstream : Option Bytes}

theorem read32LeIn?_eq_some (h : w.Holds p 4) : read32LeIn? w m p = some (read32Le m p) := by
  rw [read32LeIn?, Mem.readIn?_eq_some m h]
  rfl

theorem write32LeIn?_eq_some (v : UInt32) (h : w.Holds p 4) :
    write32LeIn? w m p v = some (write32Le m p v) :=
  Mem.writeIn?_eq_some m (by rwa [Bytes.length_leBytes])

/-- A read is no longer than asked for. -/
theorem length_read_le (m : Mem PktBuf) (p : Ptr PktBuf) (n : ℕ) : (m.read p n).length ≤ n :=
  List.length_take_le _ _

theorem recomputeMac1AtIn?_eq_some {off : ℕ} (key : Bytes) (h : i + (off + 16) ≤ n) :
    recomputeMac1AtIn? ⟨buf, n⟩ off m (buf.add i) key =
      some (recomputeMac1At off m (buf.add i) key) := by
  have hmac : Window.Holds ⟨buf, n⟩ (buf.add (i + off))
      (blake2s128mac key (m.read (buf.add i) off)).length := by
    rw [length_blake2s128mac]
    exact Window.holds_add (by omega)
  have hptr : (buf.add i).add off = buf.add (i + off) :=
    Ptr.ext rfl (Nat.add_assoc buf.off i off)
  rw [recomputeMac1AtIn?, Mem.readIn?_eq_some m (Window.holds_add (by omega)), hptr,
    Option.bind_eq_bind, Option.bind_some, Mem.writeIn?_eq_some m hmac, ← hptr]
  rfl

theorem hpRecvKsIn?_eq_some (cfg : AwgConfig) (ks : Option Bytes) (h12 : 12 ≤ n) :
    hpRecvKsIn? ⟨buf, n⟩ cfg m buf ks = some (hpRecvKs cfg m buf ks) := by
  cases ks with
  | none =>
      rw [hpRecvKsIn?, Option.elim_none, Mem.readIn?_eq_some m (Window.holds_base h12)]
      rfl
  | some k => rfl

theorem chacha20XorIn?_eq_some (key : Bytes) {l : ℕ} (h12 : 12 ≤ n) (h : i + l ≤ n) :
    chacha20XorIn? ⟨buf, n⟩ m key buf (buf.add i) l =
      some (m.write (buf.add i) (chacha20Xor key (m.read buf 12) (m.read (buf.add i) l))) := by
  have hlen := length_read_le m (buf.add i) l
  rw [chacha20XorIn?, Mem.readIn?_eq_some m (Window.holds_base h12),
    Mem.readIn?_eq_some m (Window.holds_add h)]
  refine Mem.writeIn?_eq_some m (Window.holds_add ?_)
  rw [length_chacha20Xor]
  omega

theorem openHandshakeIn?_eq_some {size : ℕ} (type : UInt32) (h12 : kstream.isSome → 12 ≤ n)
    (h4 : 4 ≤ size) (h : i + size ≤ n) :
    openHandshakeIn? ⟨buf, n⟩ m buf cfg kstream i size type =
      some (openHandshake m buf cfg kstream i size type) := by
  have hword : Window.Holds ⟨buf, n⟩ (buf.add i) 4 := Window.holds_add (by omega)
  cases kstream with
  | none => exact write32LeIn?_eq_some type hword
  | some k =>
      rw [openHandshakeIn?, if_pos Option.isSome_some, chacha20XorIn?_eq_some cfg.hpKey (h12 rfl) h]
      exact write32LeIn?_eq_some type hword

theorem openAsIn?_eq_some {pr : AwgProfile} {k : HandshakeKind} (h12 : kstream.isSome → 12 ≤ n)
    (h : (k.pad pr).toNat + k.size ≤ n) :
    openAsIn? ⟨buf, n⟩ m buf cfg pr kstream k = some (openAs m buf cfg pr kstream k) := by
  have hmac : ∀ (m : Mem PktBuf) (off : ℕ) (key : Bytes), off + 16 ≤ k.size →
      recomputeMac1AtIn? ⟨buf, n⟩ off m (buf.add (k.pad pr).toNat) key =
        some (recomputeMac1At off m (buf.add (k.pad pr).toNat) key) :=
    fun m off key hoff => recomputeMac1AtIn?_eq_some key (by omega)
  rw [openAsIn?, openHandshakeIn?_eq_some k.type h12 k.four_le_size h, openAs,
    Option.bind_eq_bind, Option.bind_some]
  rcases cfg.mac1keyIn with _ | key
  · cases k <;> rfl
  · cases k with
    | init => exact hmac _ 116 key (by decide)
    | response => exact hmac _ 60 key (by decide)
    | cookie => rfl

theorem openTransportIn?_eq_some (kstream : Option Bytes) (h : i + 32 ≤ n) :
    openTransportIn? ⟨buf, n⟩ m (buf.add i) kstream =
      some (openTransport m (buf.add i) kstream) := by
  have h16 : awgHpTransportHdr = 16 := rfl
  have hword : Window.Holds ⟨buf, n⟩ (buf.add i) 4 := Window.holds_add (by omega)
  cases kstream with
  | none => exact write32LeIn?_eq_some wgTransportData hword
  | some k =>
      have hlen := length_read_le m (buf.add i) awgHpTransportHdr
      have hxor : Window.Holds ⟨buf, n⟩ (buf.add i)
          (chacha20XorKs (m.read (buf.add i) awgHpTransportHdr) k).length := by
        refine Window.holds_add ?_
        rw [chacha20XorKs, Bytes.length_xorBytes]
        omega
      simp only [openTransportIn?, Option.elim_some, Option.bind_eq_bind, Option.bind_some,
        Mem.readIn?_eq_some m (Window.holds_add (by omega : i + awgHpTransportHdr ≤ n)),
        Mem.writeIn?_eq_some m hxor]
      exact write32LeIn?_eq_some wgTransportData hword

/-- A size that qualifies leaves room for the padded handshake. -/
theorem pad_add_size_le {pr : AcceptedProfile} {k : HandshakeKind}
    (h : sizeMatches pr.toAwgProfile n (k.total pr.toAwgProfile) = true) :
    (k.pad pr.toAwgProfile).toNat + k.size ≤ n := by
  have hpad := (HandshakeKind.pad_mem pr.valid k).1
  rw [sizeMatches, Bool.or_eq_true, Bool.and_eq_true, decide_eq_true_eq, decide_eq_true_eq,
    k.total_eq] at h
  rcases h with h | ⟨-, h⟩ <;> omega

/-- A handshake branch: the dispatch returns here or goes on. -/
theorem inboundKindIn?_eq_some (cfg : AwgConfig) (pr : AcceptedProfile)
    (h12 : kstream.isSome → 12 ≤ n) (k : HandshakeKind) :
    inboundKindIn? ⟨buf, n⟩ m buf n cfg pr.toAwgProfile kstream k =
      some (if matchesKind m buf n pr.toAwgProfile kstream k then
        some (inboundKind m buf cfg pr.toAwgProfile kstream k) else none) := by
  rw [inboundKindIn?, matchesKind]
  cases hsz : sizeMatches pr.toAwgProfile n (k.total pr.toAwgProfile) with
  | false => rfl
  | true =>
      have hin := pad_add_size_le hsz
      have h4 := k.four_le_size
      rw [if_pos rfl, Bool.true_and, read32LeIn?_eq_some (Window.holds_add (by omega)),
        Option.bind_eq_bind, Option.bind_some]
      split
      · rw [openAsIn?_eq_some h12 hin]
        rfl
      · rfl

/-- The transport branch, the last one. -/
theorem inboundTransportIn?_eq_some (pr : AcceptedProfile) :
    inboundTransportIn? ⟨buf, n⟩ m buf n pr.toAwgProfile kstream =
      some (if matchesTransport m buf n pr.toAwgProfile kstream then
        inboundTransport m buf n pr.toAwgProfile kstream else (m, none)) := by
  rw [inboundTransportIn?, matchesTransport]
  by_cases hlen : (n : ℤ) ≥ pr.s4 + wgTransportMin
  swap
  · rw [if_neg hlen, decide_eq_false hlen]
    rfl
  have hs4 := pr.valid.s4_mem.1
  have h32 : (32 : ℤ) = wgTransportMin := rfl
  have hin : pr.s4.toNat + 32 ≤ n := by omega
  rw [if_pos hlen, decide_eq_true hlen, Bool.true_and,
    read32LeIn?_eq_some (Window.holds_add (by omega)), Option.bind_eq_bind, Option.bind_some]
  split
  · rw [openTransportIn?_eq_some kstream hin]
    rfl
  · rfl

theorem inboundDispatchIn?_eq_some (cfg : AwgConfig) (pr : AcceptedProfile)
    (h12 : kstream.isSome → 12 ≤ n) :
    inboundDispatchIn? ⟨buf, n⟩ m buf n cfg pr.toAwgProfile kstream =
      some (inboundDispatch m buf n cfg pr.toAwgProfile kstream) := by
  rw [inboundDispatchIn?, inboundDispatch_eq, inboundKindIn?_eq_some cfg pr h12,
    inboundKindIn?_eq_some cfg pr h12, inboundKindIn?_eq_some cfg pr h12,
    inboundTransportIn?_eq_some]
  split
  · rfl
  split
  · rfl
  split
  · rfl
  · rfl

theorem passesIn?_eq_some (pr : AwgProfile) (h4 : 4 ≤ n) :
    passesIn? ⟨buf, n⟩ m buf n pr =
      some (decide (pr.h4Noop = true ∧ read32Le m buf = wgTransportData ∧ n ≥ wgTransportMin)) := by
  rw [passesIn?, read32LeIn?_eq_some (Window.holds_base h4)]
  cases pr.h4Noop with
  | false => rfl
  | true => simp only [true_and, if_true, Option.bind_eq_bind, Option.bind_some]

/-- **The decoder inside its datagram.** Under an accepted profile every access passes. -/
theorem transformInboundProfileIn?_eq_some (m : Mem PktBuf) (buf : Ptr PktBuf) (n : ℕ)
    (cfg : AwgConfig) (pr : AcceptedProfile) (ks : Option Bytes) :
    transformInboundProfileIn? ⟨buf, n⟩ m buf n cfg pr.toAwgProfile ks =
      some (transformInboundProfile m buf n cfg pr.toAwgProfile ks) := by
  rw [transformInboundProfileIn?, transformInboundProfile]
  by_cases h4 : n < 4
  · rw [if_pos h4, if_pos h4]
  rw [if_neg h4, if_neg h4, passesIn?_eq_some pr.toAwgProfile (Nat.not_lt.mp h4),
    Option.bind_eq_bind, Option.bind_some]
  by_cases hpass : pr.h4Noop = true ∧ read32Le m buf = wgTransportData ∧ n ≥ wgTransportMin
  · rw [if_pos hpass, if_pos (decide_eq_true hpass)]
  rw [if_neg hpass, decide_eq_false hpass, if_neg Bool.false_ne_true]
  cases hon : pr.hpOn with
  | false =>
      have hnone : (none : Option Bytes).isSome → 12 ≤ n := fun h => absurd h Bool.false_ne_true
      rw [if_neg Bool.false_ne_true, if_neg Bool.false_ne_true,
        inboundDispatchIn?_eq_some cfg pr hnone]
      rfl
  | true =>
      rw [if_pos rfl, if_pos rfl]
      by_cases h12 : n < awgHpMinPadding
      · rw [if_pos h12, if_pos h12]
      · have hnonce : 12 ≤ n := Nat.not_lt.mp h12
        rw [if_neg h12, if_neg h12, hpRecvKsIn?_eq_some cfg ks hnonce, Option.bind_eq_bind,
          Option.bind_some, inboundDispatchIn?_eq_some cfg pr fun _ => hnonce]
        rfl

theorem takesFastPathIn?_eq_some {p : Proxy} {pkt : Ptr PktBuf} (hs4 : 0 ≤ p.cfg.s4) :
    takesFastPathIn? ⟨pkt, n⟩ p pkt n =
      some (normalChecksTransport p.cfg n && hrangeContains p.cfg.h4
        (read32Le p.mem (pkt.add p.cfg.s4.toNat) ^^^ typeMask (normalKs p pkt n)),
        normalKs p pkt n) := by
  rw [takesFastPathIn?, normalKs]
  cases hchk : normalChecksTransport p.cfg n with
  | false => rfl
  | true =>
      have hlen := le_of_normalChecksTransport hchk
      rw [if_pos rfl, Bool.true_and, Bool.true_and, normalKsIn?,
        read32LeIn?_eq_some (Window.holds_add (by omega)),
        hpRecvKsIn?_eq_some p.cfg none (by omega)]
      cases p.cfg.hpOn <;> rfl

/-- What the decoder returns lies in the datagram. -/
theorem holds_out {r : Mem PktBuf × Option (Ptr PktBuf × ℕ)} {o : Option (ℕ × Bytes)}
    (h : InboundAt m buf n r o) : ∀ out ∈ r.2, Window.Holds ⟨buf, n⟩ out.1 out.2 := by
  intro out hout
  rw [h.out] at hout
  obtain ⟨ib, hib, rfl⟩ := Option.map_eq_some_iff.mp hout
  exact Window.holds_add (h.message ib hib).1

/-- **The packet function inside its datagram.** Under an accepted profile every access
passes. -/
theorem processS2cPktNormalIn?_eq_some {p : Proxy} {pr : AcceptedProfile}
    (hact : configActiveProfile p.cfg = pr.toAwgProfile) (hmir : p.cfg.Mirrored)
    {pkt : Ptr PktBuf} (hf : p.mem.Fits pkt n) :
    processS2cPktNormalIn? ⟨pkt, n⟩ p pkt n = some (processS2cPktNormal p pkt n) := by
  have hflat : p.cfg.toAwgProfile = pr.toAwgProfile := hmir.trans hact
  have hs4 : 0 ≤ p.cfg.s4 := hflat ▸ pr.valid.s4_mem.1
  rw [processS2cPktNormalIn?, processS2cPktNormal_eq, takesFastPathIn?_eq_some hs4,
    Option.bind_eq_bind, Option.bind_some]
  dsimp only
  split
  · rename_i htake
    have hlen := le_of_normalChecksTransport (Bool.and_eq_true_iff.mp htake).1
    rw [openTransportIn?_eq_some _ (by omega)]
    rfl
  obtain ⟨o, ho, -⟩ := inboundAt_congr ⟨hf, hf, rfl⟩ p.cfg pr (normalKs p pkt n)
  have hout := holds_out ho
  rw [hact, transformInboundProfileIn?_eq_some, Option.bind_eq_bind, Option.bind_some,
    queueInboundIn?]
  generalize transformInboundProfile p.mem pkt n p.cfg pr.toAwgProfile (normalKs p pkt n) = r
    at hout ⊢
  obtain ⟨m₁, _ | ⟨out, outLen⟩, ks⟩ := r
  · rfl
  · have hin := hout (out, outLen) rfl
    by_cases h4 : outLen ≥ 4
    · have hword : Window.Holds ⟨pkt, n⟩ out 4 :=
        ⟨hin.1, hin.2.1, (Nat.add_le_add_left h4 _).trans hin.2.2⟩
      simp only [if_pos h4, Mem.readIn?_eq_some m₁ hword]
      rfl
    · simp only [if_neg h4]
      rfl

end

/-- **The loop over a coalesced read.** Every segment is decoded inside its own window. -/
theorem groSplitIn?_eq_some {n seg : ℕ} (hn : n ≤ groBufSize) (fuel : ℕ) {p : Proxy} {off : ℕ}
    (h : S2cReady p) : groSplitIn? n seg fuel p off = some (groSplit n seg fuel p off) := by
  induction fuel generalizing p off with
  | zero => rfl
  | succ fuel ih =>
      rw [groSplitIn?, groSplit]
      by_cases hgo : off < n ∧ p.queue.length < batchSize
      · have hf : p.mem.Fits (⟨.gro, off⟩ : Ptr PktBuf) (min seg (n - off)) := by
          rw [Mem.Fits, h.gro]
          dsimp only
          omega
        obtain ⟨pr, hact⟩ := h.accepted
        obtain ⟨hframe, -⟩ := pktFrame_processS2cPktNormal h hf
        rw [if_pos hgo, if_pos hgo, processS2cPktNormalIn?_eq_some hact h.mirrored hf]
        exact ih hframe.ready
      · rw [if_neg hgo, if_neg hgo]

/-! ### Copies of the segments -/

/-- A copy of a datagram, anywhere in a memory. -/
structure DatagramCopy (d : Bytes) where
  mem : Mem PktBuf
  ptr : Ptr PktBuf
  fits : mem.Fits ptr d.length
  read : mem.read ptr d.length = d

/-- What the client gets when the copy is decoded. -/
def decodeCopy (p : Proxy) {d : Bytes} (c : DatagramCopy d) : List (Bytes × CliAddr) :=
  (processS2cPktNormal { p with mem := c.mem, queue := [] } c.ptr d.length).toClient

/-- It is what the client gets for the datagram. -/
theorem decodeCopy_eq {p : Proxy} (h : S2cReady p) {d : Bytes} (c : DatagramCopy d) :
    decodeCopy p c = clientGets p.cfg p.clientAddr [d] := by
  obtain ⟨pr, hact⟩ := h.accepted
  obtain ⟨-, -, i, hqueue, hmsg⟩ := processS2cPktNormal_spec
    (p := { p with mem := c.mem, queue := [] }) hact h.mirrored c.fits
  rw [c.read] at hqueue hmsg
  rw [decodeCopy, Proxy.toClient, hqueue, clientGets_singleton]
  cases hd : normalDecode p.cfg d with
  | none => rfl
  | some b =>
      rw [hd] at hmsg
      have hread := (hmsg b rfl).2
      simp only [Option.map_some, Option.toList_some, List.nil_append, List.map_cons, List.map_nil,
        hread]

/-- What the client gets for datagrams is what it gets for each. -/
theorem clientGets_eq_flatMap (cfg : AwgConfig) (a : CliAddr) (ds : List Bytes) :
    clientGets cfg a ds = ds.flatMap fun d => clientGets cfg a [d] := by
  induction ds with
  | nil => rfl
  | cons d ds ih => rw [List.flatMap_cons, ← ih, ← clientGets_append, List.singleton_append]

/-! ### The turns over a coalesced read -/

/-- The turns of the GRO branch on `n` bytes in segments of `seg`, until none are pending. -/
def S2cLoop.forwardRead (c : ℕ) : ℕ → S2cLoop → ℕ → ℕ → S2cLoop
  | 0, s, n, seg => s.groForward c n seg
  | fuel + 1, s, n, seg =>
      let s := s.groForward c n seg
      if s.groPendOff < s.groPendTotal then
        S2cLoop.forwardRead c fuel s s.groPendTotal s.groPendSeg
      else s

/-- The loop with a coalesced read in hand, before a turn. -/
structure ReadInHand (s : S2cLoop) (n seg : ℕ) : Prop where
  ready : S2cReady s.proxy
  client : s.proxy.hasClient = true
  queue : s.proxy.queue = []
  seg_mem : 0 < seg ∧ seg < n
  size_le : n ≤ groBufSize
  pending : s.groPendOff < n

/-- The segments of the read in hand that were not processed yet. -/
def S2cLoop.segments (s : S2cLoop) (n seg : ℕ) : List Bytes :=
  groSegments s.proxy.mem n seg (n - s.groPendOff) s.groPendOff

/-- There is one at least. -/
theorem ReadInHand.segments_ne_nil {s : S2cLoop} {n seg : ℕ} (h : ReadInHand s n seg) :
    s.segments n seg ≠ [] := by
  have hpend := h.pending
  obtain ⟨k, hk⟩ : ∃ k, n - s.groPendOff = k + 1 := ⟨n - s.groPendOff - 1, by omega⟩
  rw [S2cLoop.segments, hk, groSegments, if_pos hpend]
  exact List.cons_ne_nil _ _

/-- **A turn** brings the client the first segments, at least one, and leaves the others as
they were read. -/
theorem ReadInHand.turn {s : S2cLoop} {n seg : ℕ} (h : ReadInHand s n seg) (c : ℕ) :
    let s' := s.groForward c n seg
    ∃ ds, ds ≠ [] ∧
      s'.delivered = s.delivered ++ clientGets s.proxy.cfg s.proxy.clientAddr ds ∧
      (∃ w, s'.proxy.cfg = { s.proxy.cfg with udpWindow := w }) ∧
      s'.proxy.clientAddr = s.proxy.clientAddr ∧
      (if s'.groPendOff < s'.groPendTotal then
        s.segments n seg = ds ++ s'.segments s'.groPendTotal s'.groPendSeg ∧
          ReadInHand s' s'.groPendTotal s'.groPendSeg
      else s.segments n seg = ds) := by
  intro s'
  have hroom : s.proxy.queue.length < batchSize := by
    rw [h.queue]
    decide
  have hbelow : QueuedBelow s.proxy s.groPendOff := by
    rw [QueuedBelow, h.queue]
    exact List.forall_mem_nil _
  have hempty : s.proxy.toClient = [] := by
    rw [Proxy.toClient, h.queue]
    rfl
  obtain ⟨ds, hds, hfwd, hne⟩ := groSplit_spec h.seg_mem.1 h.size_le h.ready hbelow le_rfl
  obtain ⟨hsend, -⟩ := sends_groForward_split (c := c) h.client h.seg_mem
  obtain ⟨-, hcur, -⟩ := groForward_split (c := c) h.client h.seg_mem
  rw [← groSplit_eq_walk] at hcur
  generalize groSplit n seg (n - s.groPendOff) s.proxy s.groPendOff = r at hds hfwd hsend hcur
  have hproxy : s'.proxy = { r.1 with queue := [] } := hsend.proxy
  refine ⟨ds, hne h.pending hroom, ?_, ?_, ?_, ?_⟩
  · rw [hsend.delivered, hfwd.queued, hempty, List.nil_append]
  · rw [hproxy]
    exact hfwd.cfg
  · rw [hproxy]
    exact hfwd.client.1
  by_cases hend : r.2 < n
  · rw [if_pos hend] at hcur
    obtain ⟨hoff, htotal, hseg⟩ := hcur
    have hp : s'.groPendOff < s'.groPendTotal := by
      rwa [hoff, htotal]
    rw [if_pos hp, S2cLoop.segments, S2cLoop.segments, htotal, hseg, hoff, hproxy]
    refine ⟨hds, ⟨?_, ?_, ?_, h.seg_mem, h.size_le, ?_⟩⟩
    · rw [hproxy]
      exact ⟨hfwd.ready.accepted, hfwd.ready.mirrored, hfwd.ready.gro, hfwd.ready.recv⟩
    · rw [hproxy]
      exact hfwd.client.2.trans h.client
    · rw [hproxy]
    · rwa [hoff]
  · rw [if_neg hend] at hcur
    have hp : ¬ s'.groPendOff < s'.groPendTotal := by
      rw [hcur.1, hcur.2]
      exact Nat.lt_irrefl 0
    rw [if_neg hp, S2cLoop.segments, hds, groSegments_of_le _ _ _ (Nat.not_lt.mp hend),
      List.append_nil]

/-- Fuel bounds the number of segments. -/
theorem length_groSegments_le (m : Mem PktBuf) (n seg fuel off : ℕ) :
    (groSegments m n seg fuel off).length ≤ fuel := by
  induction fuel generalizing off with
  | zero => exact le_rfl
  | succ fuel ih =>
      rw [groSegments]
      split
      · exact Nat.succ_le_succ (ih (off + seg))
      · exact Nat.zero_le _

/-- **The turns over a read** bring the client what each of its segments brings. -/
theorem ReadInHand.forwardRead (c : ℕ) {fuel : ℕ} {s : S2cLoop} {n seg : ℕ}
    (h : ReadInHand s n seg) (hfuel : (s.segments n seg).length ≤ fuel + 1) :
    let s' := S2cLoop.forwardRead c fuel s n seg
    ¬ s'.groPendOff < s'.groPendTotal ∧ s'.delivered = s.delivered ++
      clientGets s.proxy.cfg s.proxy.clientAddr (s.segments n seg) := by
  induction fuel generalizing s n seg with
  | zero =>
      obtain ⟨ds, hne, hdel, -, -, hrest⟩ := h.turn c
      have hpos := List.length_pos_of_ne_nil hne
      rw [S2cLoop.forwardRead]
      split at hrest
      · -- one segment is left, and the turn took it
        rename_i hp
        obtain ⟨hds, hnext⟩ := hrest
        have hleft : (s.groForward c n seg).segments _ _ ≠ [] := hnext.segments_ne_nil
        have hlen := congrArg List.length hds
        have := List.length_pos_of_ne_nil hleft
        rw [List.length_append] at hlen
        omega
      · rename_i hp
        exact ⟨hp, hrest ▸ hdel⟩
  | succ fuel ih =>
      obtain ⟨ds, hne, hdel, ⟨w, hcfg⟩, haddr, hrest⟩ := h.turn c
      have hpos := List.length_pos_of_ne_nil hne
      rw [S2cLoop.forwardRead]
      dsimp only
      split at hrest
      · rename_i hp
        obtain ⟨hds, hnext⟩ := hrest
        have hlen := congrArg List.length hds
        rw [List.length_append] at hlen
        obtain ⟨hdone, hdel'⟩ := ih hnext (by omega)
        rw [if_pos hp]
        refine ⟨hdone, ?_⟩
        rw [hdel', hdel, hds, clientGets_append, clientGets_udpWindow h.ready hcfg, haddr,
          List.append_assoc]
      · rename_i hp
        rw [if_neg hp]
        exact ⟨hp, hrest ▸ hdel⟩

/-- **Decoding in place.** For every accepted profile, and a datagram of `n` bytes anywhere in a
buffer: the decoder, with any configuration and cached block, and the packet function make no
access outside of the `n` bytes and change no others; what they return lies in them; and the
decoder finds the same message at the same place in every copy of the datagram. So the turns
over a coalesced read, which keep every segment to itself, bring the client what separate copies
of the segments bring, wherever these lie. -/
theorem decodesInPlace :
    (∀ (cfg : AwgConfig) (pr : AcceptedProfile) (ks : Option Bytes) (m : Mem PktBuf)
        (buf : Ptr PktBuf) (n : ℕ), m.Fits buf n →
      let r := transformInboundProfile m buf n cfg pr.toAwgProfile ks
      transformInboundProfileIn? ⟨buf, n⟩ m buf n cfg pr.toAwgProfile ks = some r ∧
      m.ChangesIn r.mem buf n ∧
      (∀ out ∈ r.out, Window.Holds ⟨buf, n⟩ out.1 out.2) ∧
      ∀ m' buf', SameDatagram m buf m' buf' n → ∃ o, InboundAt m buf n r.outcome o ∧
        InboundAt m' buf' n (transformInboundProfile m' buf' n cfg pr.toAwgProfile ks).outcome o) ∧
    (∀ (p : Proxy) (pr : AcceptedProfile) (pkt : Ptr PktBuf) (n : ℕ),
      configActiveProfile p.cfg = pr.toAwgProfile → p.cfg.Mirrored → p.mem.Fits pkt n →
      let p' := processS2cPktNormal p pkt n
      processS2cPktNormalIn? ⟨pkt, n⟩ p pkt n = some p' ∧
      p.mem.ChangesIn p'.mem pkt n ∧
      ∃ new, p'.queue = p.queue ++ new ∧ ∀ e ∈ new, Window.Holds ⟨pkt, n⟩ e.base e.len) ∧
    (∀ (s : S2cLoop) (n seg : ℕ), ReadInHand s n seg →
      groSplitIn? n seg (n - s.groPendOff) s.proxy s.groPendOff =
        some (groSplit n seg (n - s.groPendOff) s.proxy s.groPendOff) ∧
      ∀ (c : ℕ) (copy : ∀ d, DatagramCopy d),
        let s' := S2cLoop.forwardRead c n s n seg
        ¬ s'.groPendOff < s'.groPendTotal ∧ s'.delivered = s.delivered ++
          (s.segments n seg).flatMap fun d => decodeCopy s.proxy (copy d)) := by
  refine ⟨fun cfg pr ks m buf n hf => ?_, fun p pr pkt n hact hmir hf => ?_,
    fun s n seg h => ⟨groSplitIn?_eq_some h.size_le _ h.ready, fun c copy => ?_⟩⟩
  · obtain ⟨o, ho, -⟩ := inboundAt_congr ⟨hf, hf, rfl⟩ cfg pr ks
    exact ⟨transformInboundProfileIn?_eq_some m buf n cfg pr ks, ho.changes, holds_out ho,
      fun m' buf' h => inboundAt_congr h cfg pr ks⟩
  · obtain ⟨hchg, -, i, hqueue, hmsg⟩ := processS2cPktNormal_spec hact hmir hf
    refine ⟨processS2cPktNormalIn?_eq_some hact hmir hf, hchg, _, hqueue, fun e he => ?_⟩
    obtain ⟨b, hb, rfl⟩ := Option.map_eq_some_iff.mp (Option.mem_toList.mp he)
    exact Window.holds_add (hmsg b hb).1
  · have hlen : (s.segments n seg).length ≤ n + 1 :=
      (length_groSegments_le ..).trans (by omega)
    obtain ⟨hdone, hdel⟩ := h.forwardRead c hlen
    refine ⟨hdone, hdel.trans ?_⟩
    rw [clientGets_eq_flatMap]
    simp only [decodeCopy_eq h.ready]

/-! ### Two keepalives in one read -/

/-- The loop behind a read of two keepalives. -/
def keepalivesLoop : S2cLoop :=
  { warpLoop with proxy := quietProxy }.received 0 [keepalivePkt, keepalivePkt].flatten

theorem readInHand_keepalivesLoop : ReadInHand keepalivesLoop 64 32 where
  ready := proxyReady_quietProxy.toS2cReady.mem <| Mem.sameShape_write <| by
    rw [Mem.Fits, proxyReady_quietProxy.gro]
    decide
  client := rfl
  queue := rfl
  seg_mem := by decide
  size_le := by decide
  pending := by decide

theorem segments_keepalivesLoop :
    keepalivesLoop.segments 64 32 = [keepalivePkt, keepalivePkt] := by
  have hfits : quietProxy.mem.Fits (⟨.gro, 0⟩ : Ptr PktBuf)
      [keepalivePkt, keepalivePkt].flatten.length := by
    rw [Mem.Fits, proxyReady_quietProxy.gro]
    decide
  exact groSegments_flatten _ (by decide) (by decide) rfl (Mem.read_write_self hfits) le_rfl

/-- A copy of a datagram alone in its buffer. -/
def aloneCopy (d : Bytes) : DatagramCopy d where
  mem := aloneMem d
  ptr := ⟨.gro, 0⟩
  fits := (Nat.zero_add _).le
  read := Bytes.slice_zero_length d

/-- Both are delivered, as from buffers of their own. -/
theorem decodesInPlace_keepalives :
    (S2cLoop.forwardRead 0 64 keepalivesLoop 64 32).delivered =
      [(keepalivePkt, .v4 0 0), (keepalivePkt, .v4 0 0)] := by
  have hone : decodeCopy keepalivesLoop.proxy (aloneCopy keepalivePkt) =
      [(keepalivePkt, .v4 0 0)] := by decide
  obtain ⟨-, hdel⟩ :=
    (decodesInPlace.2.2 keepalivesLoop 64 32 readInHand_keepalivesLoop).2 0 aloneCopy
  rw [hdel, segments_keepalivesLoop, List.flatMap_cons, List.flatMap_cons, List.flatMap_nil, hone]
  rfl

end AwgProxy
