import AwgProxy.ChaCha20
import AwgProxy.CpsGrammar

/-!
# Generating I-Packets

A template becomes a packet segment by segment, as far as the buffer goes. The static bytes
are where the parser put them; the random ones come from a ChaCha20 keystream, and letters and
digits are drawn from it by rejection. The accesses are checked here, which those of the
source are not: that none fails is a matter of what the parser stored.

* `fillSymbols_spec` — the symbols drawn, or not enough fuel.
* `exists_fillSymbols_iff` — when the drawing comes to an end: its block counter goes round,
  so one byte of one block is enough.
* `cpsSegment_spec` — a segment that fits is filled with what it stands for.
* `cpsGenerate_spec` — a template that was parsed is generated within bounds and as far as it
  fits.
-/

namespace AwgProxy

open Configurator

/-! ### The code -/

/-- `csprng_t`. -/
structure Csprng where
  key : Bytes
  nonce : Bytes
  ctr : UInt32

/-- The loop of `chacha20_keystream` over `blocks` blocks. -/
def chacha20KeystreamLoop : ℕ → Words → Bytes
  | 0, _ => []
  | blocks + 1, st =>
      chacha20Core st ++ chacha20KeystreamLoop blocks (st.put 12 (st.word 12 + 1))

/-- `chacha20_keystream`: whole blocks, and the start of one more. -/
def chacha20Keystream (key nonce : Bytes) (counter : UInt32) (len : ℕ) : Bytes :=
  (chacha20KeystreamLoop ((len + 63) / 64) (chacha20Setup key nonce counter)).take len

/-- `csprng_fill`: `len` bytes, and the generator behind them. -/
def csprngFill (rng : Csprng) (len : ℕ) : Bytes × Csprng :=
  (chacha20Keystream rng.key rng.nonce rng.ctr len,
    { rng with ctr := rng.ctr + .ofNat ((len + 63) / 64) })

/-- How a run ends without a result. -/
inductive CpsFault
  /-- An access outside the static data or the buffer. -/
  | bounds
  /-- The loop of `fill_symbols` was given too few turns. -/
  | fuel
  deriving DecidableEq

/-- A write to the buffer. -/
def writeAt (buf : Bytes) (off : ℕ) (d : Bytes) : Except CpsFault Bytes :=
  if off + d.length ≤ buf.length then .ok (buf.patch off d) else .error .bounds

/-- A read of the static data in use. -/
def readStatic (t : CpsTemplate) (off len : ℕ) : Except CpsFault Bytes :=
  if off + len ≤ t.staticData.length then .ok (t.staticData.slice off len) else .error .bounds

/-- `chars52`. -/
def chars52 : Bytes :=
  "abcdefghijklmnopqrstuvwxyzABCDEFGHIJKLMNOPQRSTUVWXYZ".toList.map fun c => .ofNat c.toNat

/-- The digits of `<rd N>`. -/
def digits10 : Bytes := "0123456789".toList.map fun c => .ofNat c.toNat

/-- `lim`: bytes from here on are rejected. -/
def symbolLimit (set : Bytes) : ℕ := 256 - 256 % set.length

/-- The loop of `fill_symbols`, of at most `fuel` turns, with `n` symbols to go from offset
`off` on. `pool` is what is left of the pool, in the order it is used. -/
def fillSymbols (set : Bytes) :
    ℕ → Csprng → Bytes → ℕ → Bytes → ℕ → Except CpsFault (Bytes × Csprng)
  | _, rng, _, 0, buf, _ => .ok (buf, rng)
  | 0, _, _, _ + 1, _, _ => .error .fuel
  | fuel + 1, rng, pool, n + 1, buf, off =>
      let (pool, rng) :=
        if pool = [] then ((csprngFill rng 64).1.reverse, (csprngFill rng 64).2) else (pool, rng)
      match pool with
      | [] => .error .bounds
      | b :: pool =>
          if b.toNat < symbolLimit set then
            match writeAt buf off [set.getD (b.toNat % set.length) 0] with
            | .error e => .error e
            | .ok buf => fillSymbols set fuel rng pool n buf (off + 1)
          else fillSymbols set fuel rng pool (n + 1) buf off

/-- The length of a segment in the packet. -/
def CpsSegment.len (seg : CpsSegment) : ℕ :=
  match seg.kind with
  | .static => seg.dataLen.toNat
  | .random => seg.size.toNat
  | .randomChars => seg.size.toNat
  | .randomDigits => seg.size.toNat
  | .zeros => seg.size.toNat
  | .timestamp => 4
  | .counter => 4

/-- `cps_max_size`. -/
def cpsMaxSize (t : CpsTemplate) : ℕ :=
  t.segs.foldl (fun total seg => total + seg.len) 0

/-- The bytes of `time(NULL)`, big-endian. -/
def timestampBytes (ts : UInt32) : Bytes :=
  [(ts >>> 24).toUInt8, (ts >>> 16).toUInt8, (ts >>> 8).toUInt8, ts.toUInt8]

/-- The cases of `cps_generate`, for a segment that fits. -/
def cpsSegment (fuel : ℕ) (t : CpsTemplate) (counter ts : UInt32) (seg : CpsSegment)
    (rng : Csprng) (buf : Bytes) (off : ℕ) : Except CpsFault (Bytes × Csprng) :=
  match seg.kind with
  | .static =>
      match readStatic t seg.dataOff.toNat seg.dataLen.toNat with
      | .error e => .error e
      | .ok d => (writeAt buf off d).map (·, rng)
  | .random =>
      (writeAt buf off (csprngFill rng seg.size.toNat).1).map (·, (csprngFill rng seg.size.toNat).2)
  | .randomChars => fillSymbols chars52 fuel rng [] seg.size.toNat buf off
  | .zeros => (writeAt buf off (List.replicate seg.size.toNat 0)).map (·, rng)
  | .randomDigits => fillSymbols digits10 fuel rng [] seg.size.toNat buf off
  | .timestamp => (writeAt buf off (timestampBytes ts)).map (·, rng)
  | .counter => (writeAt buf off (Bytes.leBytes 4 counter.toNat)).map (·, rng)

/-- What `cps_generate` returns, and leaves in the buffer and the generator. -/
structure CpsOut where
  len : ℕ
  buf : Bytes
  rng : Csprng

/-- The loop of `cps_generate` from segment `i` on, at offset `off` of a buffer of `bufsize`
bytes. The clock is read at every timestamp. -/
def cpsGenerateLoop (fuel : ℕ) (t : CpsTemplate) (counter : UInt32) (clock : ℕ → UInt32) :
    ℕ → List CpsSegment → Csprng → Bytes → ℕ → Except CpsFault CpsOut
  | _, [], rng, buf, off => .ok ⟨off, buf, rng⟩
  | i, seg :: segs, rng, buf, off =>
      if buf.length < off + seg.len then .ok ⟨off, buf, rng⟩
      else
        match cpsSegment fuel t counter (clock i) seg rng buf off with
        | .error e => .error e
        | .ok (buf, rng) =>
            cpsGenerateLoop fuel t counter clock (i + 1) segs rng buf (off + seg.len)

/-- `cps_generate`, into the buffer `buf`. -/
def cpsGenerate (fuel : ℕ) (t : CpsTemplate) (counter : UInt32) (clock : ℕ → UInt32)
    (rng : Csprng) (buf : Bytes) : Except CpsFault CpsOut :=
  cpsGenerateLoop fuel t counter clock 0 t.segs rng buf 0

/-! ### What is generated -/

/-- The length of the first `k` segments. -/
def prefixLen (segs : List CpsSegment) (k : ℕ) : ℕ := ((segs.take k).map CpsSegment.len).sum

/-- Letters. -/
def IsLetter (b : UInt8) : Prop := 97 ≤ b.toNat ∧ b.toNat ≤ 122 ∨ 65 ≤ b.toNat ∧ b.toNat ≤ 90

/-- Digits. -/
def IsDigitByte (b : UInt8) : Prop := 48 ≤ b.toNat ∧ b.toNat ≤ 57

instance : DecidablePred IsLetter := fun b =>
  inferInstanceAs (Decidable (97 ≤ b.toNat ∧ b.toNat ≤ 122 ∨ 65 ≤ b.toNat ∧ b.toNat ≤ 90))

instance : DecidablePred IsDigitByte := fun b =>
  inferInstanceAs (Decidable (48 ≤ b.toNat ∧ b.toNat ≤ 57))

/-- The bytes of a segment are what it stands for. -/
def SegHolds (t : CpsTemplate) (counter ts : UInt32) (seg : CpsSegment) (d : Bytes) : Prop :=
  match seg.kind with
  | .static => d = t.staticData.slice seg.dataOff.toNat seg.dataLen.toNat
  | .random => True
  | .randomChars => ∀ b ∈ d, IsLetter b
  | .randomDigits => ∀ b ∈ d, IsDigitByte b
  | .zeros => ∀ b ∈ d, b = 0
  | .timestamp => d = (Bytes.leBytes 4 ts.toNat).reverse
  | .counter => d = Bytes.leBytes 4 counter.toNat

/-- A packet is its template, as far as it fits. -/
structure CpsExact (t : CpsTemplate) (counter : UInt32) (clock : ℕ → UInt32) (buf : Bytes)
    (r : CpsOut) : Prop where
  /-- The longest prefix of segments that fits. -/
  longest : ∃ k ≤ t.segs.length, r.len = prefixLen t.segs k ∧ r.len ≤ buf.length ∧
    ∀ m ≤ t.segs.length, prefixLen t.segs m ≤ buf.length → m ≤ k
  /-- The whole template, exactly when it fits. -/
  whole : r.len = cpsMaxSize t ↔ cpsMaxSize t ≤ buf.length
  /-- Every segment that fits stands behind those before it. -/
  holds : ∀ j seg, t.segs[j]? = some seg → prefixLen t.segs (j + 1) ≤ buf.length →
    (r.buf.slice (prefixLen t.segs j) seg.len).length = seg.len ∧
      SegHolds t counter (clock j) seg (r.buf.slice (prefixLen t.segs j) seg.len)
  /-- The bytes behind the packet are left alone. -/
  rest : r.buf.drop r.len = buf.drop r.len

/-- The symbols a segment draws. -/
def symbols? : CpsKind → Option Bytes
  | .randomChars => some chars52
  | .randomDigits => some digits10
  | _ => none

/-- Some block of the keystream has a byte that is not rejected. -/
def Draws (rng : Csprng) (set : Bytes) : Prop :=
  ∃ c, ∃ b ∈ chacha20Block rng.key rng.nonce c, b.toNat < symbolLimit set

/-- What `cps_generate` keeps to. -/
structure CpsGenerates (t : CpsTemplate) (counter : UInt32) (clock : ℕ → UInt32) (rng : Csprng)
    (buf : Bytes) : Prop where
  /-- No access is out of bounds. -/
  safe : ∀ fuel, cpsGenerate fuel t counter clock rng buf ≠ .error .bounds
  /-- What is returned is the template, as far as it fits. -/
  exact : ∀ fuel r, cpsGenerate fuel t counter clock rng buf = .ok r →
    CpsExact t counter clock buf r
  /-- It returns, unless the keystream has no byte for a symbol that is to be drawn. -/
  returns : (∃ fuel r, cpsGenerate fuel t counter clock rng buf = .ok r) ↔
    ∀ j seg, t.segs[j]? = some seg → prefixLen t.segs (j + 1) ≤ buf.length → seg.size ≠ 0 →
      ∀ set, symbols? seg.kind = some set → Draws rng set

/-! ### The keystream -/

theorem length_chacha20KeystreamLoop (blocks : ℕ) (st : Words) :
    (chacha20KeystreamLoop blocks st).length = 64 * blocks := by
  induction blocks generalizing st with
  | zero => rfl
  | succ blocks ih =>
      rw [chacha20KeystreamLoop, List.length_append, length_chacha20Core, ih]
      omega

/-- The generator fills as many bytes as it is asked for. -/
theorem length_csprngFill (rng : Csprng) (len : ℕ) : (csprngFill rng len).1.length = len := by
  rw [csprngFill, chacha20Keystream, List.length_take, length_chacha20KeystreamLoop]
  omega

/-- A pool is one block. -/
theorem csprngFill_pool (rng : Csprng) :
    csprngFill rng 64 =
      (chacha20Block rng.key rng.nonce rng.ctr, { rng with ctr := rng.ctr + 1 }) := by
  have htake : (chacha20Core (chacha20Setup rng.key rng.nonce rng.ctr) ++ []).take 64 =
      chacha20Core (chacha20Setup rng.key rng.nonce rng.ctr) := by
    rw [List.append_nil, List.take_of_length_le (length_chacha20Core _).le]
  exact Prod.ext htake rfl

/-- There is a byte in every block. -/
theorem exists_block_reverse_eq (rng : Csprng) :
    ∃ b pool, (chacha20Block rng.key rng.nonce rng.ctr).reverse = b :: pool := by
  refine List.exists_cons_of_length_pos ?_
  rw [List.length_reverse, length_chacha20Block]
  exact Nat.succ_pos _

/-! ### Symbols -/

section Symbols

variable (set : Bytes)

/-- Drawing is over. -/
theorem fillSymbols_zero (fuel : ℕ) (rng : Csprng) (pool buf : Bytes) (off : ℕ) :
    fillSymbols set fuel rng pool 0 buf off = .ok (buf, rng) := by
  cases fuel <;> rfl

/-- An empty pool is filled with the next block. -/
theorem fillSymbols_refill (fuel : ℕ) (rng : Csprng) (n : ℕ) (buf : Bytes) (off : ℕ) :
    fillSymbols set fuel rng [] (n + 1) buf off =
      fillSymbols set fuel { rng with ctr := rng.ctr + 1 }
        (chacha20Block rng.key rng.nonce rng.ctr).reverse (n + 1) buf off := by
  cases fuel with
  | zero => rfl
  | succ fuel =>
      obtain ⟨b, pool, hblock⟩ := exists_block_reverse_eq rng
      rw [fillSymbols, fillSymbols, if_pos rfl, csprngFill_pool, hblock,
        if_neg (List.cons_ne_nil b pool)]

/-- A byte that is rejected. -/
theorem fillSymbols_reject {b : UInt8} (hb : ¬ b.toNat < symbolLimit set) (fuel : ℕ)
    (rng : Csprng) (pool : Bytes) (n : ℕ) (buf : Bytes) (off : ℕ) :
    fillSymbols set (fuel + 1) rng (b :: pool) (n + 1) buf off =
      fillSymbols set fuel rng pool (n + 1) buf off := by
  rw [fillSymbols, if_neg (List.cons_ne_nil b pool)]
  exact if_neg hb

/-- A byte that is taken. -/
theorem fillSymbols_accept {b : UInt8} (hb : b.toNat < symbolLimit set) {buf : Bytes} {off n : ℕ}
    (hfit : off + (n + 1) ≤ buf.length) (fuel : ℕ) (rng : Csprng) (pool : Bytes) :
    fillSymbols set (fuel + 1) rng (b :: pool) (n + 1) buf off =
      fillSymbols set fuel rng pool n
        (buf.patch off [set.getD (b.toNat % set.length) 0]) (off + 1) := by
  have hwrite : ∀ x : UInt8, writeAt buf off [x] = .ok (buf.patch off [x]) := by
    intro x
    have hlen : [x].length = 1 := rfl
    rw [writeAt, if_pos (by omega)]
  rw [fillSymbols, if_neg (List.cons_ne_nil b pool)]
  simp only [if_pos hb, hwrite]

/-- The symbol of a byte is one of the set. -/
theorem getD_mod_mem {set : Bytes} (hset : set ≠ []) (n : ℕ) :
    set.getD (n % set.length) 0 ∈ set := by
  have hlt : n % set.length < set.length := Nat.mod_lt _ (List.length_pos_iff.mpr hset)
  rw [List.getD_eq_getElem?_getD, List.getElem?_eq_getElem hlt, Option.getD_some]
  exact List.getElem_mem hlt

/-- **The symbols drawn**, or not enough fuel; the generator keeps its key. -/
theorem fillSymbols_spec {set : Bytes} (hset : set ≠ []) (fuel : ℕ) {rng : Csprng}
    {pool buf : Bytes} {n off : ℕ} (hfit : off + n ≤ buf.length) :
    fillSymbols set fuel rng pool n buf off = .error .fuel ∨
      ∃ d rng', fillSymbols set fuel rng pool n buf off = .ok (buf.patch off d, rng') ∧
        d.length = n ∧ (∀ b ∈ d, b ∈ set) ∧ rng'.key = rng.key ∧ rng'.nonce = rng.nonce := by
  have hdone : ∀ {fuel rng pool buf off}, off ≤ List.length buf →
      ∃ d rng', fillSymbols set fuel rng pool 0 buf off = .ok (Bytes.patch buf off d, rng') ∧
        d.length = 0 ∧ (∀ b ∈ d, b ∈ set) ∧ rng'.key = rng.key ∧ rng'.nonce = rng.nonce := by
    intro fuel rng pool buf off hoff
    exact ⟨[], rng, by rw [fillSymbols_zero, Bytes.patch_nil], rfl, nofun, rfl, rfl⟩
  induction fuel generalizing rng pool buf n off with
  | zero =>
      cases n with
      | zero => exact Or.inr (hdone hfit)
      | succ n => exact Or.inl rfl
  | succ fuel ih =>
      cases n with
      | zero => exact Or.inr (hdone hfit)
      | succ n =>
          have hcons : ∀ (b : UInt8) (pool : Bytes) (rng : Csprng),
              fillSymbols set (fuel + 1) rng (b :: pool) (n + 1) buf off = .error .fuel ∨
                ∃ d rng', fillSymbols set (fuel + 1) rng (b :: pool) (n + 1) buf off =
                    .ok (buf.patch off d, rng') ∧
                  d.length = n + 1 ∧ (∀ b ∈ d, b ∈ set) ∧ rng'.key = rng.key ∧
                    rng'.nonce = rng.nonce := by
            intro b pool rng
            by_cases hb : b.toNat < symbolLimit set
            · rw [fillSymbols_accept set hb hfit]
              generalize hx : set.getD (b.toNat % set.length) 0 = x
              have hxset : x ∈ set := hx ▸ getD_mod_mem hset b.toNat
              have hone : off + [x].length ≤ buf.length := by
                simp only [List.length_singleton]
                omega
              have hlen := Bytes.length_patch hone
              refine (ih (by omega)).imp_right ?_
              rintro ⟨d, rng', hrun, hd, hmem, hkey, hnonce⟩
              refine ⟨x :: d, rng', ?_, congrArg (· + 1) hd, ?_, hkey, hnonce⟩
              · rw [hrun]
                exact congrArg (fun b => Except.ok (b, rng')) (Bytes.patch_patch_append hone d)
              · simp only [List.forall_mem_cons]
                exact ⟨hxset, hmem⟩
            · rw [fillSymbols_reject set hb]
              exact ih hfit
          cases pool with
          | cons b pool => exact hcons b pool rng
          | nil =>
              obtain ⟨b, pool, hblock⟩ := exists_block_reverse_eq rng
              rw [fillSymbols_refill, hblock]
              exact hcons b pool { rng with ctr := rng.ctr + 1 }

/-- More fuel draws the same symbols. -/
theorem fillSymbols_succ {fuel : ℕ} {rng : Csprng} {pool buf : Bytes} {n off : ℕ}
    {r : Bytes × Csprng} (hfit : off + n ≤ buf.length)
    (h : fillSymbols set fuel rng pool n buf off = .ok r) :
    fillSymbols set (fuel + 1) rng pool n buf off = .ok r := by
  induction fuel generalizing rng pool buf n off with
  | zero =>
      cases n with
      | zero => rwa [fillSymbols_zero] at h ⊢
      | succ n => cases h
  | succ fuel ih =>
      cases n with
      | zero => rwa [fillSymbols_zero] at h ⊢
      | succ n =>
          have hcons : ∀ (b : UInt8) (pool : Bytes) (rng : Csprng),
              fillSymbols set (fuel + 1) rng (b :: pool) (n + 1) buf off = .ok r →
                fillSymbols set (fuel + 1 + 1) rng (b :: pool) (n + 1) buf off = .ok r := by
            intro b pool rng h
            by_cases hb : b.toNat < symbolLimit set
            · rw [fillSymbols_accept set hb hfit] at h ⊢
              refine ih ?_ h
              rw [Bytes.length_patch (by rw [List.length_singleton]; omega)]
              omega
            · rw [fillSymbols_reject set hb] at h ⊢
              exact ih hfit h
          cases pool with
          | cons b pool => exact hcons b pool rng h
          | nil =>
              obtain ⟨b, pool, hblock⟩ := exists_block_reverse_eq rng
              rw [fillSymbols_refill, hblock] at h ⊢
              exact hcons b pool { rng with ctr := rng.ctr + 1 } h

theorem fillSymbols_mono {fuel fuel' : ℕ} (hle : fuel ≤ fuel') {rng : Csprng} {pool buf : Bytes}
    {n off : ℕ} {r : Bytes × Csprng} (hfit : off + n ≤ buf.length)
    (h : fillSymbols set fuel rng pool n buf off = .ok r) :
    fillSymbols set fuel' rng pool n buf off = .ok r := by
  induction hle with
  | refl => exact h
  | step _ ih => exact fillSymbols_succ set hfit ih

/-- Where every byte is rejected, no fuel is enough. -/
theorem fillSymbols_stuck {rng : Csprng} (hdraws : ¬ Draws rng set) (fuel n : ℕ) {pool : Bytes}
    (hpool : ∀ b ∈ pool, ¬ b.toNat < symbolLimit set) (buf : Bytes) (off : ℕ) (ctr : UInt32) :
    fillSymbols set fuel { rng with ctr := ctr } pool (n + 1) buf off = .error .fuel := by
  have hblock : ∀ c, ∀ b ∈ (chacha20Block rng.key rng.nonce c).reverse,
      ¬ b.toNat < symbolLimit set :=
    fun c b hb hlt => hdraws ⟨c, b, List.mem_reverse.mp hb, hlt⟩
  induction fuel generalizing pool ctr with
  | zero => rfl
  | succ fuel ih =>
      cases pool with
      | cons b pool =>
          rw [fillSymbols_reject set (hpool b List.mem_cons_self)]
          exact ih (fun b hb => hpool b (List.mem_cons_of_mem _ hb)) ctr
      | nil =>
          obtain ⟨b, pool, heq⟩ := exists_block_reverse_eq { rng with ctr := ctr }
          have hpool := heq ▸ hblock ctr
          rw [fillSymbols_refill, heq, fillSymbols_reject set (hpool b List.mem_cons_self)]
          exact ih (fun b hb => hpool b (List.mem_cons_of_mem _ hb)) (ctr + 1)

/-- Where a byte of some block is not rejected, the counter comes round to it. -/
theorem exists_fillSymbols {rng : Csprng} (hdraws : Draws rng set) (n : ℕ) (pool : Bytes)
    (ctr : UInt32) {buf : Bytes} {off : ℕ} (hfit : off + n ≤ buf.length) :
    ∃ fuel r, fillSymbols set fuel { rng with ctr := ctr } pool n buf off = .ok r := by
  induction n generalizing pool ctr buf off with
  | zero => exact ⟨0, _, fillSymbols_zero set _ _ _ _ _⟩
  | succ n ih =>
      -- a byte that is taken leaves one symbol less
      have haccept : ∀ {b : UInt8} (pool : Bytes) (ctr : UInt32), b.toNat < symbolLimit set →
          ∃ fuel r, fillSymbols set fuel { rng with ctr := ctr } (b :: pool) (n + 1) buf off =
            .ok r := by
        intro b pool ctr hb
        have hlen : (buf.patch off [set.getD (b.toNat % set.length) 0]).length = buf.length :=
          Bytes.length_patch (by rw [List.length_singleton]; omega)
        obtain ⟨fuel, r, hrun⟩ := @ih pool ctr
          (buf.patch off [set.getD (b.toNat % set.length) 0]) (off + 1) (by omega)
        exact ⟨fuel + 1, r, (fillSymbols_accept set hb hfit fuel _ pool).trans hrun⟩
      -- so does a pool with such a byte
      have hpool : ∀ (pool : Bytes) (ctr : UInt32), (∃ b ∈ pool, b.toNat < symbolLimit set) →
          ∃ fuel r, fillSymbols set fuel { rng with ctr := ctr } pool (n + 1) buf off = .ok r := by
        intro pool
        induction pool with
        | nil => rintro ctr ⟨b, hb, -⟩; cases hb
        | cons a pool ihpool =>
            rintro ctr ⟨b, hb, hlt⟩
            by_cases ha : a.toNat < symbolLimit set
            · exact haccept pool ctr ha
            · have hmem := (List.mem_cons.mp hb).resolve_left fun heq => ha (heq ▸ hlt)
              obtain ⟨fuel, r, hrun⟩ := ihpool ctr ⟨b, hmem, hlt⟩
              exact ⟨fuel + 1, r, (fillSymbols_reject set ha fuel _ pool n buf off).trans hrun⟩
      -- every other pool is used up
      have hdrain : ∀ (pool : Bytes) (ctr : UInt32),
          (∃ fuel r, fillSymbols set fuel { rng with ctr := ctr } [] (n + 1) buf off = .ok r) →
            ∃ fuel r,
              fillSymbols set fuel { rng with ctr := ctr } pool (n + 1) buf off = .ok r := by
        intro pool ctr hrun
        induction pool with
        | nil => exact hrun
        | cons a pool ihpool =>
            by_cases ha : a.toNat < symbolLimit set
            · exact haccept pool ctr ha
            · obtain ⟨fuel, r, hrun⟩ := ihpool
              exact ⟨fuel + 1, r, (fillSymbols_reject set ha fuel _ pool n buf off).trans hrun⟩
      -- and the next block is one nearer
      obtain ⟨c, b, hb, hlt⟩ := hdraws
      induction hd : (c - ctr).toNat generalizing pool ctr with
      | zero =>
          have hc : c = ctr := by
            rw [UInt32.toNat_sub] at hd
            have hcl := c.toNat_lt
            have hctr := ctr.toNat_lt
            exact UInt32.toNat_inj.mp (by omega)
          refine hdrain pool ctr ?_
          obtain ⟨fuel, r, hrun⟩ := hpool (chacha20Block rng.key rng.nonce ctr).reverse (ctr + 1)
            ⟨b, List.mem_reverse.mpr (hc ▸ hb), hlt⟩
          exact ⟨fuel, r, (fillSymbols_refill set fuel _ n buf off).trans hrun⟩
      | succ d ihd =>
          have hnext : (c - (ctr + 1)).toNat = d := by
            have hone : (1 : UInt32).toNat = 1 := rfl
            rw [UInt32.toNat_sub] at hd ⊢
            rw [UInt32.toNat_add, hone]
            have hcl := c.toNat_lt
            have hctr := ctr.toNat_lt
            omega
          refine hdrain pool ctr ?_
          obtain ⟨fuel, r, hrun⟩ :=
            ihd (chacha20Block rng.key rng.nonce ctr).reverse (ctr + 1) hnext
          exact ⟨fuel, r, (fillSymbols_refill set fuel _ n buf off).trans hrun⟩

/-- **When the drawing comes to an end.** -/
theorem exists_fillSymbols_iff (rng : Csprng) (n : ℕ) {buf : Bytes} {off : ℕ}
    (hfit : off + n ≤ buf.length) :
    (∃ fuel r, fillSymbols set fuel rng [] n buf off = .ok r) ↔ (n ≠ 0 → Draws rng set) := by
  constructor
  · rintro ⟨fuel, r, hrun⟩ hne
    obtain ⟨n, rfl⟩ := Nat.exists_eq_succ_of_ne_zero hne
    by_contra hdraws
    have hnone : ∀ b ∈ ([] : Bytes), ¬ b.toNat < symbolLimit set := nofun
    cases hrun.symm.trans (fillSymbols_stuck set hdraws fuel n hnone buf off rng.ctr)
  · intro hdraws
    by_cases hz : n = 0
    · subst hz
      exact ⟨0, _, fillSymbols_zero set _ _ _ _ _⟩
    · exact exists_fillSymbols set (hdraws hz) n [] rng.ctr hfit

end Symbols

/-! ### One segment -/

/-- The bytes of a static segment are there. -/
def SegOk (t : CpsTemplate) (seg : CpsSegment) : Prop :=
  seg.kind = .static → seg.dataOff.toNat + seg.dataLen.toNat ≤ t.staticData.length

theorem isLetter_of_mem : ∀ b ∈ chars52, IsLetter b := by
  have hall : chars52.all (fun b => decide (IsLetter b)) = true := rfl
  exact fun b hb => of_decide_eq_true (List.all_eq_true.mp hall b hb)

theorem isDigitByte_of_mem : ∀ b ∈ digits10, IsDigitByte b := by
  have hall : digits10.all (fun b => decide (IsDigitByte b)) = true := rfl
  exact fun b hb => of_decide_eq_true (List.all_eq_true.mp hall b hb)

/-- The timestamp is big-endian. -/
theorem timestampBytes_eq (ts : UInt32) :
    timestampBytes ts = (Bytes.leBytes 4 ts.toNat).reverse := by
  have hbyte : ∀ (k : UInt32) (n : ℕ), k.toNat % 32 = n →
      (ts >>> k).toUInt8 = UInt8.ofNat (ts.toNat / 2 ^ n) := by
    intro k n hk
    refine UInt8.toNat_inj.mp ?_
    rw [UInt32.toNat_toUInt8, UInt32.toNat_shiftRight, hk, Nat.shiftRight_eq_div_pow,
      UInt8.toNat_ofNat']
  have hzero : ts.toUInt8 = UInt8.ofNat ts.toNat := by
    refine UInt8.toNat_inj.mp ?_
    rw [UInt32.toNat_toUInt8, UInt8.toNat_ofNat']
  rw [timestampBytes, hbyte 24 24 rfl, hbyte 16 16 rfl, hbyte 8 8 rfl, hzero]
  simp [Bytes.leBytes, Nat.div_div_eq_div_mul]

/-- What a segment that fits leaves behind. -/
def SegFilled (t : CpsTemplate) (counter ts : UInt32) (seg : CpsSegment) (rng : Csprng)
    (buf : Bytes) (off : ℕ) (r : Bytes × Csprng) : Prop :=
  ∃ d, r.1 = buf.patch off d ∧ d.length = seg.len ∧ SegHolds t counter ts seg d ∧
    r.2.key = rng.key ∧ r.2.nonce = rng.nonce

section Segment

variable {t : CpsTemplate} {counter ts : UInt32} {seg : CpsSegment} {rng : Csprng} {buf : Bytes}
  {off : ℕ}

/-- A segment of symbols. -/
theorem cpsSegment_of_symbols {set : Bytes} (hset : symbols? seg.kind = some set) :
    (∀ fuel, cpsSegment fuel t counter ts seg rng buf off =
        fillSymbols set fuel rng [] seg.size.toNat buf off) ∧
      seg.len = seg.size.toNat ∧ set ≠ [] ∧
        ∀ d, (∀ b ∈ d, b ∈ set) → SegHolds t counter ts seg d := by
  unfold cpsSegment CpsSegment.len SegHolds
  cases hkind : seg.kind with
  | randomChars =>
      rw [hkind] at hset
      obtain rfl := Option.some.inj hset
      exact ⟨fun _ => rfl, rfl, by decide, fun d hd b hb => isLetter_of_mem b (hd b hb)⟩
  | randomDigits =>
      rw [hkind] at hset
      obtain rfl := Option.some.inj hset
      exact ⟨fun _ => rfl, rfl, by decide, fun d hd b hb => isDigitByte_of_mem b (hd b hb)⟩
  | _ =>
      rw [hkind] at hset
      cases hset

/-- A segment of other bytes is written at once. -/
theorem cpsSegment_of_none (hnone : symbols? seg.kind = none) (hok : SegOk t seg)
    (hfit : off + seg.len ≤ buf.length) :
    ∃ r, (∀ fuel, cpsSegment fuel t counter ts seg rng buf off = .ok r) ∧
      SegFilled t counter ts seg rng buf off r := by
  have hwrite : ∀ {d : Bytes} {rng' : Csprng}, d.length = seg.len →
      SegHolds t counter ts seg d → rng'.key = rng.key → rng'.nonce = rng.nonce →
      (∀ fuel, cpsSegment fuel t counter ts seg rng buf off =
        (writeAt buf off d).map (·, rng')) →
      ∃ r, (∀ fuel, cpsSegment fuel t counter ts seg rng buf off = .ok r) ∧
        SegFilled t counter ts seg rng buf off r := by
    intro d rng' hd hholds hkey hnonce hrun
    have hok : writeAt buf off d = .ok (buf.patch off d) := if_pos (hd ▸ hfit)
    refine ⟨(buf.patch off d, rng'), fun fuel => ?_, d, rfl, hd, hholds, hkey, hnonce⟩
    rw [hrun, hok]
    rfl
  unfold cpsSegment CpsSegment.len SegHolds at hwrite
  unfold cpsSegment
  cases hkind : seg.kind with
  | static =>
      simp only [hkind] at hwrite
      have hread := hok hkind
      refine hwrite (Bytes.length_slice_of_le hread) rfl rfl rfl fun _ => ?_
      rw [readStatic, if_pos hread]
  | random =>
      simp only [hkind] at hwrite
      exact @hwrite _ (csprngFill rng seg.size.toNat).2 (length_csprngFill rng seg.size.toNat)
        trivial rfl rfl fun _ => rfl
  | zeros =>
      simp only [hkind] at hwrite
      exact hwrite List.length_replicate (fun b hb => List.eq_of_mem_replicate hb) rfl rfl
        fun _ => rfl
  | timestamp =>
      simp only [hkind] at hwrite
      exact hwrite rfl (timestampBytes_eq ts) rfl rfl fun _ => rfl
  | counter =>
      simp only [hkind] at hwrite
      exact hwrite (Bytes.length_leBytes 4 counter.toNat) rfl rfl rfl fun _ => rfl
  | randomChars =>
      rw [hkind] at hnone
      cases hnone
  | randomDigits =>
      rw [hkind] at hnone
      cases hnone

/-- **A segment that fits is filled with what it stands for**, or there is not enough fuel. -/
theorem cpsSegment_spec (fuel : ℕ) (hok : SegOk t seg) (hfit : off + seg.len ≤ buf.length) :
    cpsSegment fuel t counter ts seg rng buf off = .error .fuel ∨
      ∃ r, cpsSegment fuel t counter ts seg rng buf off = .ok r ∧
        SegFilled t counter ts seg rng buf off r := by
  cases hset : symbols? seg.kind with
  | none =>
      obtain ⟨r, hrun, hfilled⟩ := cpsSegment_of_none hset hok hfit
      exact Or.inr ⟨r, hrun fuel, hfilled⟩
  | some set =>
      obtain ⟨hrun, hlen, hne, hholds⟩ := cpsSegment_of_symbols hset
      rw [hrun fuel]
      refine (fillSymbols_spec hne fuel (hlen ▸ hfit)).imp_right ?_
      rintro ⟨d, rng', hfill, hd, hmem, hkey, hnonce⟩
      exact ⟨_, hfill, d, rfl, hd.trans hlen.symm, hholds d hmem, hkey, hnonce⟩

/-- More fuel fills a segment with the same bytes. -/
theorem cpsSegment_mono {fuel fuel' : ℕ} (hle : fuel ≤ fuel') (hok : SegOk t seg)
    (hfit : off + seg.len ≤ buf.length) {r : Bytes × Csprng}
    (h : cpsSegment fuel t counter ts seg rng buf off = .ok r) :
    cpsSegment fuel' t counter ts seg rng buf off = .ok r := by
  cases hset : symbols? seg.kind with
  | none =>
      obtain ⟨r', hrun, -⟩ := cpsSegment_of_none hset hok hfit
      exact (hrun fuel').trans ((hrun fuel).symm.trans h)
  | some set =>
      obtain ⟨hrun, hlen, -, -⟩ := cpsSegment_of_symbols hset
      rw [hrun] at h ⊢
      exact fillSymbols_mono set hle (hlen ▸ hfit) h

/-- When the filling of a segment comes to an end. -/
theorem exists_cpsSegment_iff (hok : SegOk t seg) (hfit : off + seg.len ≤ buf.length) :
    (∃ fuel r, cpsSegment fuel t counter ts seg rng buf off = .ok r) ↔
      (seg.size ≠ 0 → ∀ set, symbols? seg.kind = some set → Draws rng set) := by
  cases hset : symbols? seg.kind with
  | none =>
      obtain ⟨r, hrun, -⟩ := cpsSegment_of_none hset hok hfit
      exact iff_of_true ⟨0, r, hrun 0⟩ fun _ _ h => nomatch h
  | some set =>
      obtain ⟨hrun, hlen, -, -⟩ := @cpsSegment_of_symbols t counter ts seg rng buf off set hset
      have hsize : seg.size.toNat ≠ 0 ↔ seg.size ≠ 0 :=
        not_congr ⟨fun h => UInt16.toNat_inj.mp h, fun h => h ▸ rfl⟩
      simp only [hrun, Option.some.injEq, forall_eq']
      rw [exists_fillSymbols_iff set rng seg.size.toNat (hlen ▸ hfit), hsize]

end Segment

/-! ### The segments -/

/-- The bytes of segments, from segment `i` on. -/
inductive Pieces (t : CpsTemplate) (counter : UInt32) (clock : ℕ → UInt32) :
    ℕ → List CpsSegment → List Bytes → Prop
  | nil (i : ℕ) : Pieces t counter clock i [] []
  | cons {i : ℕ} {seg : CpsSegment} {segs : List CpsSegment} {d : Bytes} {ds : List Bytes}
      (hd : d.length = seg.len) (hholds : SegHolds t counter (clock i) seg d)
      (tail : Pieces t counter clock (i + 1) segs ds) :
      Pieces t counter clock i (seg :: segs) (d :: ds)

section Loop

variable {t : CpsTemplate} {counter : UInt32} {clock : ℕ → UInt32}

theorem prefixLen_cons (seg : CpsSegment) (segs : List CpsSegment) (k : ℕ) :
    prefixLen (seg :: segs) (k + 1) = seg.len + prefixLen segs k := by
  rw [prefixLen, List.take_succ_cons, List.map_cons, List.sum_cons, prefixLen]

theorem Pieces.length_flatten {i : ℕ} {segs : List CpsSegment} {ds : List Bytes}
    (h : Pieces t counter clock i segs ds) :
    ds.flatten.length = (segs.map CpsSegment.len).sum := by
  induction h with
  | nil => rfl
  | cons hd _ _ ih =>
      rw [List.flatten_cons, List.length_append, hd, ih, List.map_cons, List.sum_cons]

/-- The piece of a segment stands behind those before it. -/
theorem Pieces.slice_eq {i : ℕ} {segs : List CpsSegment} {ds : List Bytes}
    (h : Pieces t counter clock i segs ds) {j : ℕ} {seg : CpsSegment} (hj : segs[j]? = some seg) :
    (Bytes.slice ds.flatten (prefixLen segs j) seg.len).length = seg.len ∧
      SegHolds t counter (clock (i + j)) seg
        (Bytes.slice ds.flatten (prefixLen segs j) seg.len) := by
  induction h generalizing j with
  | nil => cases hj
  | @cons i seg' segs d ds hd hholds _ ih =>
      cases j with
      | zero =>
          obtain rfl := Option.some.inj hj
          have hslice : Bytes.slice (d ++ ds.flatten) 0 seg'.len = d := by
            rw [Bytes.slice_append_left _ (by omega), ← hd, Bytes.slice_zero_length]
          rw [List.flatten_cons, prefixLen, List.take_zero, List.map_nil, List.sum_nil, hslice]
          exact ⟨hd, hholds⟩
      | succ j =>
          have hslice : Bytes.slice (d ++ ds.flatten) (seg'.len + prefixLen segs j) seg.len =
              Bytes.slice ds.flatten (prefixLen segs j) seg.len := by
            rw [Bytes.slice_append_right _ _ (by omega), hd, Nat.add_sub_cancel_left]
          have htail := ih hj
          rw [Nat.add_right_comm, Nat.add_assoc] at htail
          rw [List.flatten_cons, prefixLen_cons, hslice]
          exact htail

/-- What the loop leaves behind, from offset `off` on. -/
structure LoopFilled (t : CpsTemplate) (counter : UInt32) (clock : ℕ → UInt32) (i : ℕ)
    (segs : List CpsSegment) (buf : Bytes) (off k : ℕ) (r : CpsOut) : Prop where
  le : k ≤ segs.length
  pieces : ∃ ds, Pieces t counter clock i (segs.take k) ds ∧ r.buf = buf.patch off ds.flatten
  len : r.len = off + prefixLen segs k
  fits : r.len ≤ buf.length
  /-- The next segment does not fit. -/
  next : k < segs.length → buf.length < off + prefixLen segs (k + 1)

/-- **The loop fills what fits**, or there is not enough fuel. -/
theorem cpsGenerateLoop_spec (fuel : ℕ) {segs : List CpsSegment}
    (hok : ∀ seg ∈ segs, SegOk t seg) (i : ℕ) (rng : Csprng) {buf : Bytes} {off : ℕ}
    (hoff : off ≤ buf.length) :
    cpsGenerateLoop fuel t counter clock i segs rng buf off = .error .fuel ∨
      ∃ r k, cpsGenerateLoop fuel t counter clock i segs rng buf off = .ok r ∧
        LoopFilled t counter clock i segs buf off k r := by
  induction segs generalizing i rng buf off with
  | nil =>
      refine Or.inr ⟨⟨off, buf, rng⟩, 0, rfl, le_rfl,
        ⟨[], .nil i, (buf.patch_nil off).symm⟩, rfl, hoff, ?_⟩
      exact fun h => absurd h (Nat.lt_irrefl 0)
  | cons seg segs ih =>
      rw [cpsGenerateLoop]
      split
      · next hfull =>
          refine Or.inr ⟨⟨off, buf, rng⟩, 0, rfl, Nat.zero_le _,
            ⟨[], .nil i, (buf.patch_nil off).symm⟩, rfl, hoff, fun _ => ?_⟩
          rw [prefixLen_cons]
          exact hfull.trans_le (Nat.add_le_add_left (Nat.le_add_right _ _) off)
      · next hfit =>
          have hfit := Nat.not_lt.mp hfit
          rcases @cpsSegment_spec t counter (clock i) seg rng buf off fuel
            (hok seg List.mem_cons_self) hfit with hrun | ⟨r, hrun, d, hbuf, hd, hholds, -, -⟩
          · rw [hrun]
            exact Or.inl rfl
          · have hlen : r.1.length = buf.length := hbuf ▸ Bytes.length_patch (hd ▸ hfit)
            rw [hrun]
            refine (ih (fun s hs => hok s (List.mem_cons_of_mem _ hs)) (i + 1) r.2
              (hlen ▸ hfit)).imp_right ?_
            rintro ⟨out, k, hout, hle, ⟨ds, hpieces, hpatched⟩, hl, hfits, hnext⟩
            refine ⟨out, k + 1, hout, Nat.succ_le_succ hle, ⟨d :: ds, .cons hd hholds hpieces, ?_⟩,
              ?_, hlen ▸ hfits, fun hk => ?_⟩
            · rw [hpatched, hbuf, ← hd]
              exact Bytes.patch_patch_append (hd ▸ hfit) ds.flatten
            · rw [hl, prefixLen_cons, Nat.add_assoc]
            · rw [prefixLen_cons, ← Nat.add_assoc, ← hlen]
              exact hnext (Nat.lt_of_succ_lt_succ hk)

/-- More fuel generates the same packet. -/
theorem cpsGenerateLoop_mono {fuel fuel' : ℕ} (hle : fuel ≤ fuel') {segs : List CpsSegment}
    (hok : ∀ seg ∈ segs, SegOk t seg) {i : ℕ} {rng : Csprng} {buf : Bytes} {off : ℕ} {r : CpsOut}
    (h : cpsGenerateLoop fuel t counter clock i segs rng buf off = .ok r) :
    cpsGenerateLoop fuel' t counter clock i segs rng buf off = .ok r := by
  induction segs generalizing i rng buf off with
  | nil => exact h
  | cons seg segs ih =>
      rw [cpsGenerateLoop] at h ⊢
      split
      · next hfull => rwa [if_pos hfull] at h
      · next hfit =>
          rw [if_neg hfit] at h
          cases hrun : cpsSegment fuel t counter (clock i) seg rng buf off with
          | error e =>
              rw [hrun] at h
              cases h
          | ok r' =>
              rw [hrun] at h
              rw [cpsSegment_mono hle (hok seg List.mem_cons_self) (Nat.not_lt.mp hfit) hrun]
              exact ih (fun s hs => hok s (List.mem_cons_of_mem _ hs)) h

/-- **When the loop comes to an end.** -/
theorem exists_cpsGenerateLoop_iff {segs : List CpsSegment} (hok : ∀ seg ∈ segs, SegOk t seg)
    (i : ℕ) (rng : Csprng) (buf : Bytes) (off : ℕ) :
    (∃ fuel r, cpsGenerateLoop fuel t counter clock i segs rng buf off = .ok r) ↔
      ∀ j seg, segs[j]? = some seg → off + prefixLen segs (j + 1) ≤ buf.length → seg.size ≠ 0 →
        ∀ set, symbols? seg.kind = some set → Draws rng set := by
  induction segs generalizing i rng buf off with
  | nil => exact iff_of_true ⟨0, _, rfl⟩ fun _ _ h => nomatch h
  | cons seg segs ih =>
      by_cases hfull : buf.length < off + seg.len
      · refine iff_of_true ⟨0, ⟨off, buf, rng⟩, if_pos hfull⟩ fun j s _ hle => ?_
        rw [prefixLen_cons] at hle
        omega
      · have hfit := Nat.not_lt.mp hfull
        have hseg : SegOk t seg := hok seg List.mem_cons_self
        have hsegs : ∀ s ∈ segs, SegOk t s := fun s hs => hok s (List.mem_cons_of_mem _ hs)
        -- the rest, behind a segment that is filled
        have hrest : ∀ {r : Bytes × Csprng}, SegFilled t counter (clock i) seg rng buf off r →
            ((∃ fuel r', cpsGenerateLoop fuel t counter clock (i + 1) segs r.2 r.1
                (off + seg.len) = .ok r') ↔
              ∀ j s, segs[j]? = some s → off + prefixLen (seg :: segs) (j + 1 + 1) ≤ buf.length →
                s.size ≠ 0 → ∀ set, symbols? s.kind = some set → Draws rng set) := by
          rintro r ⟨d, hbuf, hd, -, hkey, hnonce⟩
          have hlen : r.1.length = buf.length := hbuf ▸ Bytes.length_patch (hd ▸ hfit)
          have hdraws : ∀ set, Draws r.2 set ↔ Draws rng set := fun set => by
            rw [Draws, Draws, hkey, hnonce]
          rw [ih hsegs]
          simp only [hdraws, hlen, prefixLen_cons, Nat.add_assoc]
        have hloop : ∀ fuel, cpsGenerateLoop fuel t counter clock i (seg :: segs) rng buf off =
            match cpsSegment fuel t counter (clock i) seg rng buf off with
            | .error e => .error e
            | .ok (buf, rng) =>
                cpsGenerateLoop fuel t counter clock (i + 1) segs rng buf (off + seg.len) :=
          fun fuel => if_neg hfull
        constructor
        · rintro ⟨fuel, out, hout⟩
          rw [hloop] at hout
          rcases @cpsSegment_spec t counter (clock i) seg rng buf off fuel hseg hfit
            with hrun | ⟨r, hrun, hfilled⟩
          · rw [hrun] at hout
            cases hout
          · rw [hrun] at hout
            have htail := (hrest hfilled).mp ⟨fuel, out, hout⟩
            have hhead := (exists_cpsSegment_iff hseg hfit).mp ⟨fuel, r, hrun⟩
            intro j s hj hle
            cases j with
            | zero =>
                obtain rfl := Option.some.inj hj
                exact hhead
            | succ j => exact htail j s hj hle
        · intro hall
          have hone : prefixLen (seg :: segs) (0 + 1) = seg.len := by
            rw [prefixLen_cons, prefixLen, List.take_zero, List.map_nil, List.sum_nil, Nat.add_zero]
          obtain ⟨fuel, r, hrun⟩ := (@exists_cpsSegment_iff t counter (clock i) seg rng buf off
            hseg hfit).mpr (hall 0 seg rfl (hone ▸ hfit))
          have hfilled : SegFilled t counter (clock i) seg rng buf off r := by
            rcases @cpsSegment_spec t counter (clock i) seg rng buf off fuel hseg hfit
              with hrun' | ⟨r', hrun', hfilled⟩
            · cases hrun.symm.trans hrun'
            · cases hrun.symm.trans hrun'
              exact hfilled
          obtain ⟨fuel', out, hout⟩ := (hrest hfilled).mpr fun j => hall (j + 1)
          refine ⟨max fuel fuel', out, ?_⟩
          rw [hloop, cpsSegment_mono (Nat.le_max_left _ _) hseg hfit hrun]
          exact cpsGenerateLoop_mono (Nat.le_max_right _ _) hsegs hout

end Loop

/-! ### The packet -/

/-- Longer prefixes are longer. -/
theorem prefixLen_mono (segs : List CpsSegment) {i j : ℕ} (h : i ≤ j) :
    prefixLen segs i ≤ prefixLen segs j := by
  obtain ⟨n, rfl⟩ := Nat.exists_eq_add_of_le h
  rw [prefixLen, prefixLen, List.take_add, List.map_append, List.sum_append]
  exact Nat.le_add_right _ _

/-- `cps_max_size` is the length of all segments. -/
theorem cpsMaxSize_eq (t : CpsTemplate) : cpsMaxSize t = prefixLen t.segs t.segs.length := by
  have hfold : ∀ (segs : List CpsSegment) (n : ℕ),
      segs.foldl (fun total seg => total + seg.len) n = n + (segs.map CpsSegment.len).sum := by
    intro segs
    induction segs with
    | nil => exact fun n => (Nat.add_zero n).symm
    | cons seg segs ih =>
        intro n
        rw [List.foldl_cons, ih, List.map_cons, List.sum_cons, Nat.add_assoc]
  rw [cpsMaxSize, hfold, Nat.zero_add, prefixLen, List.take_length]

/-- The segments of tags lie in their static bytes. -/
theorem le_of_mem_tagSegments {tags : List CpsTag} {n : ℕ} {seg : CpsSegment}
    (h : seg ∈ tagSegments n tags) :
    seg.dataOff.toNat + seg.dataLen.toNat ≤ n + (tags.flatMap CpsTag.data).length := by
  induction tags generalizing n with
  | nil => cases h
  | cons tag tags ih =>
      rw [List.flatMap_cons, List.length_append]
      rcases List.mem_cons.mp h with rfl | h
      · have hoff : (UInt16.ofNat (if tag.kind = .static then n else 0)).toNat ≤ n := by
          rw [UInt16.toNat_ofNat']
          refine (Nat.mod_le _ _).trans ?_
          split
          · exact le_rfl
          · exact Nat.zero_le n
        have hlen : (UInt16.ofNat tag.data.length).toNat ≤ tag.data.length := by
          rw [UInt16.toNat_ofNat']
          exact Nat.mod_le _ _
        exact (Nat.add_le_add hoff hlen).trans (by omega)
      · have htail := ih h
        omega

/-- A template that was parsed has its static bytes. -/
theorem segOk_of_cpsParse {s : List Char} {t : CpsTemplate} (h : cpsParse s = some t) :
    ∀ seg ∈ t.segs, SegOk t seg := by
  obtain ⟨tags, -, rfl⟩ := cpsParse_eq_some_iff.mp h
  rw [foldl_pushTag]
  intro seg hseg _
  simpa using le_of_mem_tagSegments hseg

/-- What the loop leaves behind is the packet. -/
theorem LoopFilled.exact {t : CpsTemplate} {counter : UInt32} {clock : ℕ → UInt32} {buf : Bytes}
    {k : ℕ} {r : CpsOut} (h : LoopFilled t counter clock 0 t.segs buf 0 k r) :
    CpsExact t counter clock buf r := by
  obtain ⟨ds, hpieces, hbuf⟩ := h.pieces
  have hlen : r.len = prefixLen t.segs k := h.len.trans (Nat.zero_add _)
  have hflat : ds.flatten.length = r.len := hpieces.length_flatten.trans hlen.symm
  have hpatch : buf.patch 0 ds.flatten = ds.flatten ++ buf.drop r.len := by
    rw [Bytes.patch, List.take_zero, List.nil_append, Nat.zero_add, hflat]
  have hlongest : ∀ m ≤ t.segs.length, prefixLen t.segs m ≤ buf.length → m ≤ k := by
    intro m hm hfit
    by_contra hlt
    have hnext := h.next (by omega)
    have hmono : prefixLen t.segs (k + 1) ≤ prefixLen t.segs m :=
      prefixLen_mono t.segs (Nat.not_le.mp hlt)
    omega
  refine ⟨⟨k, h.le, hlen, h.fits, hlongest⟩, ?_, fun j seg hj hfit => ?_, ?_⟩
  · rw [cpsMaxSize_eq]
    constructor
    · exact fun heq => heq ▸ h.fits
    · intro hfit
      rw [hlen, Nat.le_antisymm h.le (hlongest _ le_rfl hfit)]
  · have hjlt : j < t.segs.length := (List.getElem?_eq_some_iff.mp hj).1
    have hjk : j + 1 ≤ k := hlongest (j + 1) hjlt hfit
    have htake : (t.segs.take k)[j]? = some seg := by
      rw [List.getElem?_take_of_lt hjk]
      exact hj
    have htakes : ∀ i ≤ k, prefixLen (t.segs.take k) i = prefixLen t.segs i := fun i hi => by
      rw [prefixLen, List.take_take, Nat.min_eq_left hi, prefixLen]
    have hsucc : prefixLen t.segs (j + 1) = prefixLen t.segs j + seg.len := by
      rw [prefixLen, List.take_add_one, hj, Option.toList_some, List.map_append, List.sum_append,
        prefixLen]
      rfl
    have hin : prefixLen t.segs j + seg.len ≤ ds.flatten.length := by
      rw [hflat, hlen, ← hsucc]
      exact prefixLen_mono t.segs hjk
    have hslice := hpieces.slice_eq htake
    rw [htakes j (by omega), Nat.zero_add] at hslice
    rw [hbuf, hpatch, Bytes.slice_append_left _ hin]
    exact hslice
  · rw [hbuf, hpatch, ← hflat, List.drop_left]

/-- **A template that was parsed is generated within bounds and as far as it fits.** -/
theorem cpsGenerate_spec {s : List Char} {t : CpsTemplate} (h : cpsParse s = some t)
    (counter : UInt32) (clock : ℕ → UInt32) (rng : Csprng) (buf : Bytes) :
    CpsGenerates t counter clock rng buf := by
  have hok := segOk_of_cpsParse h
  have hspec := fun fuel =>
    @cpsGenerateLoop_spec t counter clock fuel t.segs hok 0 rng buf 0 (Nat.zero_le _)
  refine ⟨fun fuel hbounds => ?_, fun fuel r hrun => ?_, ?_⟩
  · rcases hspec fuel with hrun | ⟨r, k, hrun, -⟩
    · cases hrun.symm.trans hbounds
    · cases hrun.symm.trans hbounds
  · rcases hspec fuel with hrun' | ⟨r', k, hrun', hfilled⟩
    · cases hrun.symm.trans hrun'
    · cases hrun.symm.trans hrun'
      exact hfilled.exact
  · have hiff := @exists_cpsGenerateLoop_iff t counter clock t.segs hok 0 rng buf 0
    simp only [Nat.zero_add] at hiff
    exact hiff

/-- A byte and the counter, of which only the byte fits. -/
theorem cpsGenerate_spec_byte :
    cpsParse "<b 0xff><c>".toList = some ⟨[⟨.static, 0, 0, 1⟩, ⟨.counter, 0, 0, 0⟩], [255]⟩ ∧
      CpsGenerates ⟨[⟨.static, 0, 0, 1⟩, ⟨.counter, 0, 0, 0⟩], [255]⟩ 7 (fun _ => 0)
        ⟨[], [], 0⟩ [0, 0, 0] := by
  have hparse : cpsParse "<b 0xff><c>".toList =
      some ⟨[⟨.static, 0, 0, 1⟩, ⟨.counter, 0, 0, 0⟩], [255]⟩ := by decide
  exact ⟨hparse, cpsGenerate_spec hparse 7 (fun _ => 0) ⟨[], [], 0⟩ [0, 0, 0]⟩

end AwgProxy
