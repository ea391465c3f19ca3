import Mathlib.Data.List.Nodup
import AwgProxy.CpsGenerate

/-!
# The Decoy Keystream

What goes out in the clear ahead of a handshake is drawn from two ChaCha20 generators, which
share a key and are told apart by one byte of the nonce. The counter of a generator is moved
on by a count of its own, next to the loop that consumes the blocks; the states handed to the
core are kept here beside the bytes, so that the two can be compared.

* `chacha20KeystreamBlocks_eq` — the loop consumes as many blocks as the counter is moved on.
* `mem_usedIds` — the blocks a sequence of calls consumes, by generator and offset.
* `keystreamFresh` — over any sequence of calls no block is consumed twice.
-/

namespace AwgProxy

open Configurator

/-! ### The code -/

/-- `chacha20_keystream` from the state `st` on: the bytes, and the states handed to
`chacha20_core`. -/
def chacha20KeystreamBlocks (st : Words) (len : ℤ) : Bytes × List Words :=
  if 64 ≤ len then
    let (out, used) := chacha20KeystreamBlocks (st.put 12 (st.word 12 + 1)) (len - 64)
    (chacha20Core st ++ out, st :: used)
  else if 0 < len then ((chacha20Core st).take len.toNat, [st])
  else ([], [])
termination_by len.toNat
decreasing_by omega

/-- `csprng_init`. -/
def csprngInit (key : Bytes) (stream : UInt8) : Csprng :=
  ⟨key, stream :: List.replicate 11 0, 0⟩

/-- A size passed as an `int`. -/
def intOfSize (len : ℕ) : ℤ := (UInt32.ofNat len).toInt32.toInt

/-- `csprng_fill`, with the states its blocks are computed from. -/
def csprngFillBlocks (rng : Csprng) (len : ℕ) : (Bytes × List Words) × Csprng :=
  (chacha20KeystreamBlocks (chacha20Setup rng.key rng.nonce rng.ctr) (intOfSize len),
    { rng with ctr := rng.ctr + .ofNat ((len + 63) / 64) })

/-- The generators of the proxy. -/
inductive Generator
  /-- `cs_c2s`. -/
  | csC2s
  /-- `cs_s2c`. -/
  | csS2c
  deriving DecidableEq

/-- The stream a generator is initialised with. -/
def Generator.stream : Generator → UInt8
  | .csC2s => 1
  | .csS2c => 2

/-- One call of `csprng_fill`. -/
structure FillCall where
  gen : Generator
  /-- The counter it starts from. -/
  ctr : UInt32
  len : ℕ
  out : Bytes
  /-- The states its blocks are computed from. -/
  used : List Words

/-- A sequence of calls, each for one of the generators. -/
def fillCalls : (Generator → Csprng) → List (Generator × ℕ) → List FillCall
  | _, [] => []
  | rngs, (g, len) :: es =>
      let (call, rng) := csprngFillBlocks (rngs g) len
      ⟨g, (rngs g).ctr, len, call.1, call.2⟩ :: fillCalls (Function.update rngs g rng) es

/-! ### What is meant -/

/-- The blocks `len` bytes take. -/
def blocksOf (len : ℕ) : ℕ := (len + 63) / 64

/-- The blocks a generator is drawn in a sequence of calls. -/
def blocksDrawn (g : Generator) (es : List (Generator × ℕ)) : ℕ :=
  (es.map fun e => if e.1 = g then blocksOf e.2 else 0).sum

/-- The nonce, as the words it fills. -/
abbrev NonceWords := UInt32 × UInt32 × UInt32

/-- The nonce and the counter a block is computed from. -/
def blockId (st : Words) : NonceWords × UInt32 :=
  ((st.word 13, st.word 14, st.word 15), st.word 12)

/-- The nonces and counters of all blocks of a sequence of calls. -/
def usedIds (calls : List FillCall) : List (NonceWords × UInt32) :=
  calls.flatMap fun c => c.used.map blockId

/-- What the keystream owes its users. -/
structure KeystreamFresh (key : Bytes) (es : List (Generator × ℕ)) (calls : List FillCall) :
    Prop where
  /-- The calls are those asked for. -/
  calls_eq : calls.map (fun c => (c.gen, c.len)) = es
  /-- A call writes the blocks from its counter on, as far as it goes. -/
  out_eq : ∀ c ∈ calls, c.out =
    ((List.range (blocksOf c.len)).flatMap fun i =>
      chacha20Block key (csprngInit key c.gen.stream).nonce (c.ctr + .ofNat i)).take c.len
  /-- And computes no others. -/
  used_eq : ∀ c ∈ calls, c.used = (List.range (blocksOf c.len)).map fun i =>
    chacha20Setup key (csprngInit key c.gen.stream).nonce (c.ctr + .ofNat i)
  /-- No nonce and counter serve twice. -/
  once : (usedIds calls).Nodup

/-! ### One call -/

section

variable (key nonce : Bytes)

/-- Moving the counter word on is starting from the next counter. -/
theorem put_chacha20Setup (ctr v : UInt32) :
    (chacha20Setup key nonce ctr).put 12 v = chacha20Setup key nonce v := rfl

theorem word_chacha20Setup (ctr : UInt32) : (chacha20Setup key nonce ctr).word 12 = ctr := rfl

/-- The counter a call starts from. -/
theorem ctr_add_zero (ctr : UInt32) : ctr + .ofNat 0 = ctr :=
  UInt32.add_zero ctr

/-- Counters from the next one on. -/
theorem ctr_add_succ (ctr : UInt32) (i : ℕ) :
    ctr + .ofNat (i + 1) = ctr + 1 + .ofNat i := by
  rw [UInt32.ofNat_add, UInt32.add_comm (.ofNat i), UInt32.add_assoc]
  rfl

/-- The blocks of the loop stand at consecutive counters. -/
theorem chacha20KeystreamLoop_eq (blocks : ℕ) (ctr : UInt32) :
    chacha20KeystreamLoop blocks (chacha20Setup key nonce ctr) =
      (List.range blocks).flatMap fun i => chacha20Block key nonce (ctr + .ofNat i) := by
  induction blocks generalizing ctr with
  | zero => rfl
  | succ blocks ih =>
      rw [chacha20KeystreamLoop, word_chacha20Setup, put_chacha20Setup, ih,
        List.range_succ_eq_map, List.flatMap_cons, List.flatMap_map]
      simp only [ctr_add_succ, ctr_add_zero, chacha20Block]

/-- **One call.** The loop writes the keystream and consumes a block for every 64 bytes begun,
from the counter it is given on. -/
theorem chacha20KeystreamBlocks_eq (ctr : UInt32) (len : ℕ) :
    chacha20KeystreamBlocks (chacha20Setup key nonce ctr) len =
      (chacha20Keystream key nonce ctr len,
        (List.range (blocksOf len)).map fun i => chacha20Setup key nonce (ctr + .ofNat i)) := by
  induction len using Nat.strong_induction_on generalizing ctr with
  | _ len ih =>
      rw [chacha20KeystreamBlocks]
      by_cases hwhole : (64 : ℤ) ≤ len
      · obtain ⟨n, rfl⟩ : ∃ n, len = n + 64 := ⟨len - 64, by omega⟩
        have hsub : ((n + 64 : ℕ) : ℤ) - 64 = (n : ℕ) := by omega
        have hblocks : (n + 64 + 63) / 64 = (n + 63) / 64 + 1 := by omega
        rw [if_pos hwhole, word_chacha20Setup, put_chacha20Setup, hsub, ih n (by omega),
          chacha20Keystream, chacha20Keystream, blocksOf, blocksOf, hblocks,
          chacha20KeystreamLoop, word_chacha20Setup, put_chacha20Setup, List.range_succ_eq_map,
          List.map_cons, List.map_map]
        have htake : ∀ st rest, (chacha20Core st ++ rest).take (n + 64) =
            chacha20Core st ++ rest.take n := fun st rest => by
          rw [Nat.add_comm n 64, ← length_chacha20Core st, List.take_length_add_append]
        simp only [htake, Function.comp_def, Nat.succ_eq_add_one, ctr_add_succ, ctr_add_zero]
      · rw [if_neg hwhole]
        by_cases htail : (0 : ℤ) < len
        · have hone : (len + 63) / 64 = 1 := by omega
          rw [if_pos htail, chacha20Keystream, blocksOf, hone, Int.toNat_natCast]
          refine Prod.ext ?_ ?_
          · rw [chacha20KeystreamLoop, chacha20KeystreamLoop, List.append_nil]
          · simp only [List.range_one, List.map_cons, List.map_nil, ctr_add_zero]
        · obtain rfl : len = 0 := by omega
          rw [if_neg htail]
          rfl

end

/-- The loop writes as many bytes as it is asked for, and none for a negative length. -/
theorem length_chacha20KeystreamBlocks (st : Words) (len : ℤ) :
    (chacha20KeystreamBlocks st len).1.length = len.toNat := by
  induction st, len using chacha20KeystreamBlocks.induct with
  | case1 st len hwhole _ _ _ ih =>
      rw [chacha20KeystreamBlocks, if_pos hwhole]
      dsimp only
      rw [List.length_append, length_chacha20Core, ih]
      omega
  | case2 st len hwhole htail =>
      rw [chacha20KeystreamBlocks, if_neg hwhole, if_pos htail]
      dsimp only
      rw [List.length_take, length_chacha20Core]
      omega
  | case3 st len hwhole htail =>
      rw [chacha20KeystreamBlocks, if_neg hwhole, if_neg htail]
      exact (Int.toNat_of_nonpos (Int.not_lt.mp htail)).symm

/-- A size as an `int`: its low 32 bits, read with a sign. -/
theorem intOfSize_cases (len : ℕ) :
    intOfSize len = if 2 * (len % 2 ^ 32) < 2 ^ 32 then ((len % 2 ^ 32 : ℕ) : ℤ)
      else (len % 2 ^ 32 : ℕ) - 2 ^ 32 :=
  BitVec.toInt_eq_toNat_cond (UInt32.ofNat len).toBitVec

/-- A size below `2 ^ 31` survives the conversion. -/
theorem intOfSize_eq {len : ℕ} (h : len < 2 ^ 31) : intOfSize len = len := by
  rw [intOfSize_cases, if_pos (by omega), Nat.mod_eq_of_lt (by omega)]

/-- No call writes more bytes than it is asked for. -/
theorem length_csprngFillBlocks_le (rng : Csprng) (len : ℕ) :
    (csprngFillBlocks rng len).1.1.length ≤ len := by
  have hmod : len % 2 ^ 32 ≤ len := Nat.mod_le _ _
  have hlt : len % 2 ^ 32 < 2 ^ 32 := Nat.mod_lt _ (by decide)
  rw [csprngFillBlocks, length_chacha20KeystreamBlocks, intOfSize_cases]
  split <;> omega

/-- The generator the templates draw from is this one. -/
theorem csprngFillBlocks_eq (rng : Csprng) {len : ℕ} (h : len < 2 ^ 31) :
    csprngFillBlocks rng len =
      (((csprngFill rng len).1, (List.range (blocksOf len)).map fun i =>
        chacha20Setup rng.key rng.nonce (rng.ctr + .ofNat i)), (csprngFill rng len).2) := by
  rw [csprngFillBlocks, intOfSize_eq h, chacha20KeystreamBlocks_eq]
  rfl

/-! ### A sequence of calls -/

/-- Offsets below a whole turn of the counter are told apart. -/
theorem ctr_add_inj {ctr : UInt32} {i j : ℕ} (hi : i < 2 ^ 32) (hj : j < 2 ^ 32)
    (h : ctr + .ofNat i = ctr + .ofNat j) : i = j := by
  have hnat := congrArg UInt32.toNat ((UInt32.add_right_inj ctr).mp h)
  rwa [UInt32.toNat_ofNat_of_lt' hi, UInt32.toNat_ofNat_of_lt' hj] at hnat

/-- The generators of one key, told apart by their streams. -/
def csprngStart (key : Bytes) (g : Generator) : Csprng := csprngInit key g.stream

/-- The words of a generator's nonce. -/
def nonceWords (g : Generator) : NonceWords := (UInt32.ofNat g.stream.toNat, 0, 0)

/-- The streams tell the nonces apart. -/
theorem nonceWords_inj {g g' : Generator} (h : nonceWords g = nonceWords g') : g = g' := by
  cases g <;> cases g' <;> first | rfl | exact absurd h (by decide)

/-- A block of a generator, by its counter. -/
theorem blockId_chacha20Setup (key : Bytes) (g : Generator) (ctr : UInt32) :
    blockId (chacha20Setup key (csprngStart key g).nonce ctr) = (nonceWords g, ctr) := by
  cases g <;> rfl

/-- The ids of `n` blocks of a generator, from the counter `ctr` on. -/
def idsFrom (g : Generator) (ctr : UInt32) (n : ℕ) : List (NonceWords × UInt32) :=
  (List.range n).map fun i => (nonceWords g, ctr + .ofNat i)

theorem idsFrom_add (g : Generator) (ctr : UInt32) (m n : ℕ) :
    idsFrom g ctr (m + n) = idsFrom g ctr m ++ idsFrom g (ctr + .ofNat m) n := by
  simp only [idsFrom, List.range_add, List.map_append, List.map_map, Function.comp_def,
    UInt32.ofNat_add, UInt32.add_assoc]

/-- Within a whole turn of the counter no id repeats. -/
theorem nodup_idsFrom (g : Generator) (ctr : UInt32) {n : ℕ} (hn : n ≤ 2 ^ 32) :
    (idsFrom g ctr n).Nodup := by
  have hlt : ∀ i ∈ List.range n, i < 2 ^ 32 := fun i hi => (List.mem_range.mp hi).trans_le hn
  exact List.Nodup.map_on
    (fun i hi j hj h => ctr_add_inj (hlt i hi) (hlt j hj) (congrArg Prod.snd h)) List.nodup_range

theorem fst_of_mem_idsFrom {g : Generator} {ctr : UInt32} {n : ℕ} {id : NonceWords × UInt32}
    (h : id ∈ idsFrom g ctr n) : id.1 = nonceWords g := by
  obtain ⟨i, -, rfl⟩ := List.mem_map.mp h
  rfl

/-- The generators have their key and nonce, and have come to the counters `ctrs`. -/
def CtrsAt (key : Bytes) (ctrs : Generator → UInt32) (rngs : Generator → Csprng) : Prop :=
  ∀ g, rngs g = { csprngStart key g with ctr := ctrs g }

/-- The counters after a call. -/
def ctrsAfter (ctrs : Generator → UInt32) (g : Generator) (len : ℕ) : Generator → UInt32 :=
  Function.update ctrs g (ctrs g + .ofNat (blocksOf len))

/-- A call moves the counter of its generator on, and leaves the other alone. -/
theorem CtrsAt.fill {key : Bytes} {ctrs : Generator → UInt32} {rngs : Generator → Csprng}
    (h : CtrsAt key ctrs rngs) (g : Generator) (len : ℕ) :
    CtrsAt key (ctrsAfter ctrs g len)
      (Function.update rngs g (csprngFillBlocks (rngs g) len).2) := by
  intro g'
  by_cases hg : g' = g
  · subst hg
    rw [ctrsAfter, Function.update_self, Function.update_self, csprngFillBlocks, h g', blocksOf]
  · rw [ctrsAfter, Function.update_of_ne hg, Function.update_of_ne hg]
    exact h g'

/-- The first call of a sequence takes its blocks, then come those of the rest. -/
theorem usedIds_fillCalls_cons {key : Bytes} {ctrs : Generator → UInt32}
    {rngs : Generator → Csprng} (h : CtrsAt key ctrs rngs) (g : Generator) {len : ℕ}
    (hlen : len < 2 ^ 31) (es : List (Generator × ℕ)) :
    usedIds (fillCalls rngs ((g, len) :: es)) =
      idsFrom g (ctrs g) (blocksOf len) ++
        usedIds (fillCalls (Function.update rngs g (csprngFillBlocks (rngs g) len).2) es) := by
  have hused : (csprngFillBlocks (rngs g) len).1.2.map blockId =
      idsFrom g (ctrs g) (blocksOf len) := by
    rw [csprngFillBlocks_eq _ hlen, h g, List.map_map]
    exact List.map_congr_left fun i _ => blockId_chacha20Setup key g _
  rw [← hused]
  rfl

theorem blocksDrawn_cons (g' g : Generator) (len : ℕ) (es : List (Generator × ℕ)) :
    blocksDrawn g' ((g, len) :: es) =
      (if g = g' then blocksOf len else 0) + blocksDrawn g' es := rfl

/-- **The blocks consumed** are those each generator's counter has passed. -/
theorem mem_usedIds {key : Bytes} {ctrs : Generator → UInt32} {rngs : Generator → Csprng}
    (h : CtrsAt key ctrs rngs) {es : List (Generator × ℕ)} (hes : ∀ e ∈ es, e.2 < 2 ^ 31)
    {id : NonceWords × UInt32} (hid : id ∈ usedIds (fillCalls rngs es)) :
    ∃ g, id ∈ idsFrom g (ctrs g) (blocksDrawn g es) := by
  induction es generalizing ctrs rngs with
  | nil => exact absurd hid (List.not_mem_nil)
  | cons e es ih =>
      obtain ⟨g, len⟩ := e
      obtain ⟨hlen, hes⟩ := List.forall_mem_cons.mp hes
      rw [usedIds_fillCalls_cons h g hlen, List.mem_append] at hid
      rcases hid with hhead | htail
      · refine ⟨g, ?_⟩
        rw [blocksDrawn_cons, if_pos rfl, idsFrom_add]
        exact List.mem_append_left _ hhead
      · obtain ⟨g', hid⟩ := ih (h.fill g len) hes htail
        refine ⟨g', ?_⟩
        rw [blocksDrawn_cons]
        by_cases hg : g = g'
        · subst hg
          rw [ctrsAfter, Function.update_self] at hid
          rw [if_pos rfl, idsFrom_add]
          exact List.mem_append_right _ hid
        · rw [ctrsAfter, Function.update_of_ne (Ne.symm hg)] at hid
          rwa [if_neg hg, Nat.zero_add]

/-- No block is consumed twice before a counter has gone round. -/
theorem nodup_usedIds {key : Bytes} {ctrs : Generator → UInt32} {rngs : Generator → Csprng}
    (h : CtrsAt key ctrs rngs) {es : List (Generator × ℕ)} (hes : ∀ e ∈ es, e.2 < 2 ^ 31)
    (htotal : ∀ g, blocksDrawn g es ≤ 2 ^ 32) : (usedIds (fillCalls rngs es)).Nodup := by
  induction es generalizing ctrs rngs with
  | nil => exact List.nodup_nil
  | cons e es ih =>
      obtain ⟨g, len⟩ := e
      obtain ⟨hlen, hes⟩ := List.forall_mem_cons.mp hes
      have htail : ∀ g', blocksDrawn g' es ≤ 2 ^ 32 := fun g' => by
        have := htotal g'
        rw [blocksDrawn_cons] at this
        omega
      have hboth := htotal g
      rw [blocksDrawn_cons, if_pos rfl] at hboth
      have hnodup := nodup_idsFrom g (ctrs g) hboth
      rw [idsFrom_add] at hnodup
      obtain ⟨hhead, -, hdisj⟩ := List.nodup_append.mp hnodup
      rw [usedIds_fillCalls_cons h g hlen]
      refine List.nodup_append.mpr ⟨hhead, ih (h.fill g len) hes htail, ?_⟩
      -- a later block of this generator stands behind the call's, one of the other has its nonce
      intro a ha b hb
      obtain ⟨g', hb⟩ := mem_usedIds (h.fill g len) hes hb
      by_cases hg : g' = g
      · subst hg
        rw [ctrsAfter, Function.update_self] at hb
        exact hdisj a ha b hb
      · rintro rfl
        exact hg (nonceWords_inj ((fst_of_mem_idsFrom hb).symm.trans (fst_of_mem_idsFrom ha)))

/-- The calls of a sequence, one by one. -/
theorem fillCalls_spec {key : Bytes} {ctrs : Generator → UInt32} {rngs : Generator → Csprng}
    (h : CtrsAt key ctrs rngs) {es : List (Generator × ℕ)} (hes : ∀ e ∈ es, e.2 < 2 ^ 31) :
    (fillCalls rngs es).map (fun c => (c.gen, c.len)) = es ∧
      ∀ c ∈ fillCalls rngs es,
        c.out = ((List.range (blocksOf c.len)).flatMap fun i =>
          chacha20Block key (csprngInit key c.gen.stream).nonce (c.ctr + .ofNat i)).take c.len ∧
        c.used = (List.range (blocksOf c.len)).map fun i =>
          chacha20Setup key (csprngInit key c.gen.stream).nonce (c.ctr + .ofNat i) := by
  induction es generalizing ctrs rngs with
  | nil => exact ⟨rfl, nofun⟩
  | cons e es ih =>
      obtain ⟨g, len⟩ := e
      obtain ⟨hlen, hes⟩ := List.forall_mem_cons.mp hes
      obtain ⟨hmap, hcalls⟩ := ih (h.fill g len) hes
      refine ⟨congrArg ((g, len) :: ·) hmap, List.forall_mem_cons.mpr ⟨?_, hcalls⟩⟩
      have hcall := congrArg Prod.fst (csprngFillBlocks_eq (rngs g) hlen)
      rw [h g] at hcall
      have hout := (congrArg Prod.fst hcall).trans
        (congrArg (List.take len) (chacha20KeystreamLoop_eq ..))
      refine ⟨?_, ?_⟩
      · dsimp only
        rw [h g]
        exact hout
      · dsimp only
        rw [h g]
        exact congrArg Prod.snd hcall

/-- **The keystream is never reused.** Whatever is drawn from the two generators of a key, a
call writes the blocks from its counter on, and no nonce and counter serve for two blocks. -/
theorem keystreamFresh (key : Bytes) {es : List (Generator × ℕ)} (hes : ∀ e ∈ es, e.2 < 2 ^ 31)
    (htotal : ∀ g, blocksDrawn g es < 2 ^ 32) :
    KeystreamFresh key es (fillCalls (fun g => csprngInit key g.stream) es) := by
  have h : CtrsAt key (fun _ => 0) (fun g => csprngInit key g.stream) := fun _ => rfl
  obtain ⟨hmap, hcalls⟩ := fillCalls_spec h hes
  exact ⟨hmap, fun c hc => (hcalls c hc).1, fun c hc => (hcalls c hc).2,
    nodup_usedIds h hes fun g => (htotal g).le⟩

/-- A key of 32 bytes. -/
def countingKey : Bytes := (List.range 32).map .ofNat

/-- Nothing, a whole block and a short tail, from both generators in turn. -/
theorem keystreamFresh_turns :
    KeystreamFresh countingKey [(.csC2s, 0), (.csS2c, 64), (.csC2s, 65), (.csS2c, 130)]
      (fillCalls (fun g => csprngInit countingKey g.stream)
        [(.csC2s, 0), (.csS2c, 64), (.csC2s, 65), (.csS2c, 130)]) :=
  keystreamFresh countingKey (by decide) (fun g => by cases g <;> decide)

end AwgProxy
