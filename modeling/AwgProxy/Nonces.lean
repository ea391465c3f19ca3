import AwgProxy.C2sNormal
import AwgProxy.Lib.XorShift

/-!
# The Nonces of Header Protection

With header protection the first bytes of a padding are a nonce. A thread pads transport data
with its generator, and hands the encoder a draw of it, from which the padding of a handshake
is made. The generator is a bijection of its states and the mixer of the seeds one of all
words, so that a nonce says which state, or which draw, it was made from.

* `bijOn_fastrandU64`, `mix64_bijective` — the two bijections.
* `hpNonce_fastrandFill_iff` — a nonce of transport data determines the state it is made from.
* `hpNonce_fillPadding_iff` — a nonce of a handshake determines the seed, but for two seeds that
  start the generator on one state.
* `rngC2s_c2sNormalPkt`, `rngS2c_processS2cPktReverse` — what a packet does to the generator.
* `paddingNonces` — what it takes for two packets to share a nonce.
-/

namespace AwgProxy

/-! ### The generator in use -/

/-- The nonce in a padding (`AWG_HP_MIN_PADDING` bytes of it). -/
def hpNonce (pad : Bytes) : Bytes := pad.take 12

/-- What a thread does with its generator. -/
inductive RngUse
  /-- Transport data gets `s4` bytes of padding. -/
  | transport (s4 : ℕ)
  /-- The encoder gets a draw. -/
  | randVal

namespace RngUse

/-- The state behind a use. -/
def next : RngUse → UInt64 → UInt64
  | transport s4, s => (fastrandFill s s4).2
  | randVal, s => fastrandU64 s

/-- The values drawn for a use. -/
def draws : RngUse → ℕ
  | transport s4 => (s4 + 7) / 8
  | randVal => 1

end RngUse

/-- The state behind uses one after another. -/
def rngAfter (s : UInt64) (us : List RngUse) : UInt64 := us.foldl (fun s u => u.next s) s

/-- What `c2s_thread_normal` does with its generator for a datagram. -/
def c2sRngUses (p : C2sNormal) (i n : ℕ) : List RngUse :=
  let data := (⟨.recv i, 0⟩ : Ptr PktBuf).add p.cfg.maxS4
  if n = 0 then []
  else if n ≥ wgTransportMin ∧ read32Le p.mem data = wgTransportData then
    [.transport p.cfg.s4.toNat]
  else [.randVal]

/-! ### The generator is a bijection -/

theorem fastrandU64_injective : Function.Injective fastrandU64 := by
  have hleft : Function.Injective fun x : UInt64 => x ^^^ x <<< 13 :=
    XorShift.uint64_shiftLeft_injective (by decide)
  have hright : Function.Injective fun x : UInt64 => x ^^^ x >>> 7 :=
    XorShift.uint64_shiftRight_injective (by decide)
  have hlast : Function.Injective fun x : UInt64 => x ^^^ x <<< 17 :=
    XorShift.uint64_shiftLeft_injective (by decide)
  exact hlast.comp (hright.comp hleft)

/-- No state but zero is followed by zero. -/
theorem fastrandU64_ne_zero {s : UInt64} (h : s ≠ 0) : fastrandU64 s ≠ 0 := by
  have hzero : fastrandU64 0 = 0 := rfl
  exact fun hs => h (fastrandU64_injective (hs.trans hzero.symm))

/-- **The generator** is a bijection of the states that are not zero. -/
theorem bijOn_fastrandU64 : Set.BijOn fastrandU64 {s | s ≠ 0} {s | s ≠ 0} := by
  refine ⟨fun s hs => fastrandU64_ne_zero hs, fastrandU64_injective.injOn, fun t ht => ?_⟩
  obtain ⟨s, rfl⟩ := Finite.surjective_of_injective fastrandU64_injective t
  refine ⟨s, fun hs => ht ?_, rfl⟩
  rw [hs]
  rfl

/-- **The mixer** is a bijection of all words. -/
theorem mix64_bijective : Function.Bijective mix64 := by
  have hadd : Function.Injective fun x : UInt64 => x + 0x9E3779B97F4A7C15 := add_left_injective _
  have h30 : Function.Injective fun x : UInt64 => x ^^^ x >>> 30 :=
    XorShift.uint64_shiftRight_injective (by decide)
  have h27 : Function.Injective fun x : UInt64 => x ^^^ x >>> 27 :=
    XorShift.uint64_shiftRight_injective (by decide)
  have h31 : Function.Injective fun x : UInt64 => x ^^^ x >>> 31 :=
    XorShift.uint64_shiftRight_injective (by decide)
  -- the constants are odd
  have hmul : Function.Injective fun x : UInt64 => x * 0xBF58476D1CE4E5B9 :=
    XorShift.uint64_mul_injective (d := 0x96DE1B173F119089) rfl
  have hmul' : Function.Injective fun x : UInt64 => x * 0x94D049BB133111EB :=
    XorShift.uint64_mul_injective (d := 0x319642B2D24D8EC3) rfl
  exact Finite.injective_iff_bijective.mp
    (h31.comp (hmul'.comp (h27.comp (hmul.comp (h30.comp hadd)))))

/-! ### The bytes drawn -/

theorem snd_fastrandFillLoop (blocks : ℕ) (s : UInt64) :
    (fastrandFillLoop blocks s).2 = fastrandU64^[blocks] s := by
  induction blocks generalizing s with
  | zero => rfl
  | succ blocks ih =>
      rw [fastrandFillLoop, Function.iterate_succ_apply]
      exact ih (fastrandU64 s)

/-- A fill draws once for every eight bytes it has begun. -/
theorem snd_fastrandFill (s : UInt64) (len : ℕ) :
    (fastrandFill s len).2 = fastrandU64^[(len + 7) / 8] s := by
  rw [fastrandFill]
  dsimp only
  split
  · rw [snd_fastrandFillLoop]
    exact congrArg (fastrandU64^[·] s) (by omega)
  · dsimp only
    rw [snd_fastrandFillLoop, ← Function.iterate_succ_apply' fastrandU64]
    exact congrArg (fastrandU64^[·] s) (by omega)

/-- One block more is appended. -/
theorem fastrandFillLoop_succ (blocks : ℕ) (s : UInt64) :
    (fastrandFillLoop (blocks + 1) s).1 = (fastrandFillLoop blocks s).1 ++
      Bytes.leBytes 8 (fastrandU64^[blocks + 1] s).toNat := by
  induction blocks generalizing s with
  | zero => exact List.append_nil _
  | succ blocks ih =>
      rw [fastrandFillLoop]
      dsimp only
      rw [ih, fastrandFillLoop, Function.iterate_succ_apply fastrandU64 (blocks + 1) s]
      exact (List.append_assoc _ _ _).symm

/-- The first bytes do not depend on the blocks behind them. -/
theorem take_fastrandFillLoop {k blocks : ℕ} (h : k ≤ 8 * blocks) (n : ℕ) (s : UInt64) :
    (fastrandFillLoop (blocks + n) s).1.take k = (fastrandFillLoop blocks s).1.take k := by
  induction n with
  | zero => rfl
  | succ n ih =>
      rw [← Nat.add_assoc, fastrandFillLoop_succ, List.take_append_of_le_length, ih]
      rw [length_fastrandFillLoop]
      omega

/-- A fill is the start of its blocks. -/
theorem fst_fastrandFill (s : UInt64) (len : ℕ) :
    (fastrandFill s len).1 = (fastrandFillLoop (len / 8 + 1) s).1.take len := by
  have hlen := length_fastrandFillLoop (len / 8) s
  rw [fastrandFill]
  dsimp only
  split
  · rw [fastrandFillLoop_succ, List.take_append_of_le_length (by omega),
      List.take_of_length_le (by omega)]
  · have hrest : len - 8 * (len / 8) = len % 8 := by omega
    have hwhole : (fastrandFillLoop (len / 8) s).1.take len = (fastrandFillLoop (len / 8) s).1 :=
      List.take_of_length_le (by omega)
    dsimp only
    rw [fastrandFillLoop_succ, List.take_append, hwhole, hlen, hrest, snd_fastrandFillLoop,
      ← Function.iterate_succ_apply' fastrandU64 (len / 8) s]

/-- The first bytes of a fill do not depend on how many there are. -/
theorem take_fastrandFill (s : UInt64) {k len : ℕ} (h : k ≤ len) :
    (fastrandFill s len).1.take k = (fastrandFillLoop (k / 8 + 1) s).1.take k := by
  obtain ⟨n, hn⟩ : ∃ n, len / 8 + 1 = k / 8 + 1 + n := ⟨len / 8 - k / 8, by omega⟩
  rw [fst_fastrandFill, List.take_take, Nat.min_eq_left h, hn, take_fastrandFillLoop (by omega)]

/-- The first eight bytes say which state they are drawn from. -/
theorem take_fastrandFill_inj {s t : UInt64} {len len' : ℕ} (hlen : 8 ≤ len) (hlen' : 8 ≤ len')
    (h : (fastrandFill s len).1.take 8 = (fastrandFill t len').1.take 8) : s = t := by
  have hfirst : ∀ r, (fastrandFillLoop (8 / 8 + 1) r).1.take 8 =
      Bytes.leBytes 8 (fastrandU64 r).toNat := fun r => List.take_left' (Bytes.length_leBytes 8 _)
  have hword : ∀ v : UInt64, Bytes.leNat (Bytes.leBytes 8 v.toNat) = v.toNat := fun v => by
    rw [Bytes.leNat_leBytes]
    exact Nat.mod_eq_of_lt v.toNat_lt
  rw [take_fastrandFill s hlen, take_fastrandFill t hlen', hfirst, hfirst] at h
  have hval := congrArg Bytes.leNat h
  rw [hword, hword] at hval
  exact fastrandU64_injective (UInt64.toNat_inj.mp hval)

/-- **The nonce** of a fill says which state it is drawn from, and nothing else does. -/
theorem hpNonce_fastrandFill_iff {s t : UInt64} {len len' : ℕ} (hlen : 12 ≤ len)
    (hlen' : 12 ≤ len') :
    hpNonce (fastrandFill s len).1 = hpNonce (fastrandFill t len').1 ↔ s = t := by
  constructor
  · intro h
    have htake := congrArg (List.take 8) h
    rw [hpNonce, hpNonce, List.take_take, List.take_take] at htake
    exact take_fastrandFill_inj (le_trans (by decide) hlen) (le_trans (by decide) hlen') htake
  · rintro rfl
    rw [hpNonce, hpNonce, take_fastrandFill s hlen, take_fastrandFill s hlen']

/-- The start of a generator is one state for the seeds 0 and 1, and else the seed. -/
theorem fastrandInit_eq_iff {a b : UInt64} :
    fastrandInit a = fastrandInit b ↔ a = b ∨ a = 0 ∧ b = 1 ∨ a = 1 ∧ b = 0 := by
  rw [fastrandInit, fastrandInit]
  split <;> split <;> grind

/-- **The nonce** of a handshake says which seed it is made from, unless the mixed seeds are 0
and 1, on which the generator starts alike. -/
theorem hpNonce_fillPadding_iff {a b : UInt64} {len len' : ℕ} (hlen : 12 ≤ len)
    (hlen' : 12 ≤ len') :
    hpNonce (fillPadding len a) = hpNonce (fillPadding len' b) ↔
      a = b ∨ mix64 a = 0 ∧ mix64 b = 1 ∨ mix64 a = 1 ∧ mix64 b = 0 := by
  rw [fillPadding, fillPadding, hpNonce_fastrandFill_iff hlen hlen', fastrandInit_eq_iff,
    mix64_bijective.1.eq_iff]

/-- Handshakes of one kind are padded from seeds that differ as their draws do. -/
theorem HandshakeKind.seed_injective (k : HandshakeKind) : Function.Injective k.seed := by
  have hxor : ∀ c : UInt64, Function.Injective fun r : UInt64 => r ^^^ c := fun c r r' h =>
    (UInt64.xor_left_inj c).mp h
  cases k with
  | init => exact fun _ _ h => h
  | response => exact hxor _
  | cookie => exact hxor _

/-! ### The uses of a thread -/

theorem RngUse.next_eq (u : RngUse) (s : UInt64) : u.next s = fastrandU64^[u.draws] s := by
  cases u with
  | transport s4 => exact snd_fastrandFill s s4
  | randVal => rfl

/-- The uses of a generator draw from it one after another. -/
theorem rngAfter_eq (s : UInt64) (us : List RngUse) :
    rngAfter s us = fastrandU64^[(us.map RngUse.draws).sum] s := by
  induction us generalizing s with
  | nil => rfl
  | cons u us ih =>
      rw [List.map_cons, List.sum_cons, Nat.add_comm, Function.iterate_add_apply, ← u.next_eq]
      exact ih (u.next s)

theorem rngAfter_append (s : UInt64) (us vs : List RngUse) :
    rngAfter s (us ++ vs) = rngAfter (rngAfter s us) vs := List.foldl_append

/-- The padding of the fast path is the next one of the generator. -/
theorem rngC2s_c2sPutPadding (p : C2sNormal) (base : Ptr PktBuf) :
    (c2sPutPadding p base).rngC2s = (RngUse.transport p.cfg.s4.toNat).next p.rngC2s := by
  rw [c2sPutPadding]
  split
  · rfl
  · next h =>
      have hzero : p.cfg.s4.toNat = 0 := by omega
      rw [hzero]
      rfl

/-- The nonce of the fast path is the one in that padding. -/
theorem read_c2sPutPadding {p : C2sNormal} {base : Ptr PktBuf} (hs4 : 12 ≤ p.cfg.s4)
    (hf : p.mem.Fits base p.cfg.s4.toNat) :
    (c2sPutPadding p base).mem.read base 12 =
      hpNonce (fastrandFill p.rngC2s p.cfg.s4.toNat).1 := by
  have hlen := length_fastrandFill p.rngC2s p.cfg.s4.toNat
  have hsplit : ∀ m : Mem PktBuf, m.read base 12 = (m.read base p.cfg.s4.toNat).take 12 := by
    intro m
    rw [Mem.read, Mem.read, Bytes.slice, Bytes.slice, List.take_take, Nat.min_eq_left (by omega)]
  have hback := Mem.read_write_self (d := (fastrandFill p.rngC2s p.cfg.s4.toNat).1)
    (hf.mono hlen.le)
  rw [hlen] at hback
  rw [c2sPutPadding, if_pos (by omega), hpNonce, hsplit]
  exact congrArg (List.take 12) hback

theorem rngC2s_c2sPutHeader (p : C2sNormal) (data : Ptr PktBuf) :
    (c2sPutHeader p data).rngC2s = p.rngC2s ∧ (c2sPutHeader p data).cfg = p.cfg := by
  rw [c2sPutHeader]
  split
  · exact ⟨rfl, rfl⟩
  · obtain ⟨ring, idx, rng, hpick⟩ := pickH4Prof_eq p.toProxy p.cfg.activeProfile
    refine ⟨rfl, ?_⟩
    dsimp only [pickH4]
    rw [hpick]

theorem rngC2s_c2sTransport (p : C2sNormal) (data : Ptr PktBuf) (n : ℕ) :
    (c2sTransport p data n).rngC2s = (RngUse.transport p.cfg.s4.toNat).next p.rngC2s := by
  obtain ⟨hrng, hcfg⟩ := rngC2s_c2sPutHeader p data
  have hpad := rngC2s_c2sPutPadding (c2sPutHeader p data)
    (if p.cfg.s4 > 0 then data.sub p.cfg.s4.toNat else data)
  rwa [hrng, hcfg] at hpad

theorem rngC2s_c2sHandshake (p : C2sNormal) (buf : Ptr PktBuf) (headroom n : ℕ) :
    (c2sHandshake p buf headroom n).rngC2s = RngUse.randVal.next p.rngC2s := by
  rw [c2sHandshake]
  dsimp only
  split
  · rfl
  · split <;> rfl

/-- **A datagram** of the client moves the generator of its thread by the uses of it. -/
theorem rngC2s_c2sNormalPkt (p : C2sNormal) (i n : ℕ) :
    (c2sNormalPkt p i n).rngC2s = rngAfter p.rngC2s (c2sRngUses p i n) := by
  rw [c2sNormalPkt, c2sRngUses]
  split
  · rfl
  · split
    · exact rngC2s_c2sTransport p _ n
    · exact rngC2s_c2sHandshake p _ _ n

/-- The batches of the client use the generator, and do nothing else to it. -/
theorem rngC2s_c2sNormalLoop (p : C2sNormal) (i : ℕ) (ns : List ℕ) :
    ∃ us, (c2sNormalLoop p i ns).rngC2s = rngAfter p.rngC2s us := by
  induction ns generalizing p i with
  | nil => exact ⟨[], rfl⟩
  | cons n ns ih =>
      obtain ⟨us, hus⟩ := ih (c2sNormalPkt p i n) (i + 1)
      refine ⟨c2sRngUses p i n ++ us, ?_⟩
      rw [rngAfter_append, ← rngC2s_c2sNormalPkt]
      exact hus

/-- Transport data for a client is padded where the profile pads it. -/
theorem rngS2c_s2cTransport (p : Proxy) (pkt : Ptr PktBuf) (n headroom : ℕ)
    (prof : Fin awgMaxProfiles) (dest : CliAddr) :
    ∃ us, (s2cTransport p pkt n headroom prof dest).rngS2c = rngAfter p.rngS2c us := by
  have hput : (s2cPutHeader p pkt prof).rngS2c = p.rngS2c := by
    rw [s2cPutHeader]
    split
    · rfl
    · obtain ⟨ring, idx, rng, hpick⟩ := pickH4Prof_eq p prof
      dsimp only
      rw [hpick]
  rw [s2cTransport]
  split
  · refine ⟨[.transport (p.cfg.profiles prof).s4.toNat], ?_⟩
    rw [← hput]
    rfl
  · exact ⟨[], hput⟩

theorem rngS2c_s2cTransform (p : Proxy) (base : Ptr PktBuf) (n headroom : ℕ)
    (prof : Fin awgMaxProfiles) (key : Option Bytes) (dest : CliAddr) :
    (s2cTransform p base n headroom prof key dest).rngS2c = rngAfter p.rngS2c [.randVal] := by
  rw [s2cTransform]
  dsimp only
  split
  · rfl
  · split <;> rfl

/-- **A packet** of the server moves the generator of its thread by the uses of it. -/
theorem rngS2c_processS2cPktReverse (p : Proxy) (base : Ptr PktBuf) (n headroom : ℕ) :
    ∃ us, (processS2cPktReverse p base n headroom).rngS2c = rngAfter p.rngS2c us := by
  rw [processS2cPktReverse]
  dsimp only
  split
  · split
    · exact ⟨[], rfl⟩
    · split
      · exact ⟨[], rfl⟩
      · split
        · exact rngS2c_s2cTransport _ _ _ _ _ _
        · exact ⟨_, rngS2c_s2cTransform _ _ _ _ _ _ _⟩
  · split
    · exact ⟨[], rfl⟩
    · split
      · exact rngS2c_s2cTransport _ _ _ _ _ _
      · exact ⟨_, rngS2c_s2cTransform _ _ _ _ _ _ _⟩

/-! ### Two packets -/

/-- What it takes for two packets to share a nonce. -/
structure PaddingNonces : Prop where
  generator : Set.BijOn fastrandU64 {s | s ≠ 0} {s | s ≠ 0}
  mixer : Function.Bijective mix64
  /-- Fills from different states differ in their first eight bytes. -/
  fills : ∀ {s t : UInt64} {len len' : ℕ}, 8 ≤ len → 8 ≤ len' → s ≠ t →
    (fastrandFill s len).1.take 8 ≠ (fastrandFill t len').1.take 8
  /-- So do paddings from different seeds. -/
  paddings : ∀ {a b : UInt64} {len len' : ℕ}, 12 ≤ len → 12 ≤ len' → mix64 a ≠ 0 → mix64 b ≠ 0 →
    a ≠ b → (fillPadding len a).take 8 ≠ (fillPadding len' b).take 8
  /-- The generator has gone round between two transports with one nonce. -/
  transports : ∀ {s : UInt64} {us vs : List RngUse} {a b : ℕ}, 12 ≤ a → 12 ≤ b →
    hpNonce (fastrandFill (rngAfter s us) a).1 =
      hpNonce (fastrandFill (rngAfter s (us ++ .transport a :: vs)) b).1 →
    ∃ k > 0, rngAfter s (us ++ .transport a :: vs) = fastrandU64^[k] (rngAfter s us) ∧
      fastrandU64^[k] (rngAfter s us) = rngAfter s us
  /-- Two handshakes with one nonce have one draw, or the draws whose seeds mix to 0 and 1. -/
  handshakes : ∀ (k : HandshakeKind) {r r' : UInt64} {len len' : ℕ}, 12 ≤ len → 12 ≤ len' →
    (hpNonce (fillPadding len (k.seed r)) = hpNonce (fillPadding len' (k.seed r')) ↔
      r = r' ∨ mix64 (k.seed r) = 0 ∧ mix64 (k.seed r') = 1 ∨
        mix64 (k.seed r) = 1 ∧ mix64 (k.seed r') = 0)
  /-- The client's batches use the generator of their thread, and do nothing else to it. -/
  clientBatches : ∀ (p : C2sNormal) (i : ℕ) (ns : List ℕ),
    ∃ us, (c2sNormalLoop p i ns).rngC2s = rngAfter p.rngC2s us
  /-- So do the packets of the server. -/
  serverPackets : ∀ (p : Proxy) (base : Ptr PktBuf) (n headroom : ℕ),
    ∃ us, (processS2cPktReverse p base n headroom).rngS2c = rngAfter p.rngS2c us
  /-- The nonce in front of transport data is the one of the state the fast path finds. -/
  transportPadding : ∀ {p : C2sNormal} {base : Ptr PktBuf}, 12 ≤ p.cfg.s4 →
    p.mem.Fits base p.cfg.s4.toNat → (c2sPutPadding p base).mem.read base 12 =
      hpNonce (fastrandFill p.rngC2s p.cfg.s4.toNat).1

/-- Paddings from different seeds differ, where no seed mixes to zero. -/
theorem take_fillPadding_ne {a b : UInt64} {len len' : ℕ} (hlen : 12 ≤ len) (hlen' : 12 ≤ len')
    (ha : mix64 a ≠ 0) (hb : mix64 b ≠ 0) (hab : a ≠ b) :
    (fillPadding len a).take 8 ≠ (fillPadding len' b).take 8 := by
  intro heq
  have hstate : fastrandInit (mix64 a) = fastrandInit (mix64 b) :=
    take_fastrandFill_inj (le_trans (by decide) hlen) (le_trans (by decide) hlen') heq
  rcases fastrandInit_eq_iff.mp hstate with hmix | ⟨h0, -⟩ | ⟨-, h0⟩
  · exact hab (mix64_bijective.1 hmix)
  · exact ha h0
  · exact hb h0

/-- The states of two transports with one nonce are one, and there are draws between them. -/
theorem cycled_of_hpNonce_eq {s : UInt64} {us vs : List RngUse} {a b : ℕ} (ha : 12 ≤ a)
    (hb : 12 ≤ b)
    (h : hpNonce (fastrandFill (rngAfter s us) a).1 =
      hpNonce (fastrandFill (rngAfter s (us ++ .transport a :: vs)) b).1) :
    ∃ k > 0, rngAfter s (us ++ .transport a :: vs) = fastrandU64^[k] (rngAfter s us) ∧
      fastrandU64^[k] (rngAfter s us) = rngAfter s us := by
  have hstate := (hpNonce_fastrandFill_iff ha hb).mp h
  have hdraws : rngAfter s (us ++ .transport a :: vs) =
      fastrandU64^[(((RngUse.transport a :: vs).map RngUse.draws).sum)] (rngAfter s us) := by
    rw [rngAfter_append, rngAfter_eq (rngAfter s us)]
  refine ⟨_, ?_, hdraws, hdraws.symm.trans hstate.symm⟩
  rw [List.map_cons, List.sum_cons, RngUse.draws]
  omega

/-- **Nonces do not repeat** before the generator of the thread does, but for one pair of draws
of every kind of handshake. -/
theorem paddingNonces : PaddingNonces where
  generator := bijOn_fastrandU64
  mixer := mix64_bijective
  fills hlen hlen' hst heq := hst (take_fastrandFill_inj hlen hlen' heq)
  paddings := take_fillPadding_ne
  transports := cycled_of_hpNonce_eq
  handshakes k _ _ _ _ hlen hlen' := by
    rw [hpNonce_fillPadding_iff hlen hlen', k.seed_injective.eq_iff]
  clientBatches := rngC2s_c2sNormalLoop
  serverPackets := rngS2c_processS2cPktReverse
  transportPadding := read_c2sPutPadding

/-- Two draws with one nonce: the first mixes to zero, and the second to the state that stands
in for it. -/
theorem hpNonce_eq_of_different_draws :
    hpNonce (fillPadding 12 (HandshakeKind.init.seed (fastrandU64 0xD71D39B7344666A6))) =
        hpNonce (fillPadding 12 (HandshakeKind.init.seed (fastrandU64 0xEAD3A8C46F7A1C84))) ∧
      fastrandU64 0xD71D39B7344666A6 ≠ fastrandU64 0xEAD3A8C46F7A1C84 := by
  decide

end AwgProxy
