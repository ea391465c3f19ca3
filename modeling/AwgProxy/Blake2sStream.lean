import Mathlib.Data.Fintype.Basic
import AwgProxy.Keystream
import AwgProxy.Lib.Blake2
import AwgProxy.Lib.HoldBack
import AwgProxy.Transform

/-!
# BLAKE2s as a Stream

The hash takes its message in as many parts as it is given, through a buffer of one block that
is only compressed once something follows it. The streaming is written here over any compression
function: with the one of the source it computes the sum, and with one that takes notes it says
which blocks are compressed, in which order and with which counts. The lengths that the source
converts to an `int` are converted, and the copies into the buffer are checked.

* `Absorbed` — what the state holds of the bytes so far: the blocks before the last are in the
  chaining value, and the last one, whole or not, is in the buffer.
* `blake2sUpdateBy_absorbed` — an update keeps it.
* `blake2sRunBy_eq` — any run is the compressions of the standard, from first to last.
* `blake2sCompress_eq` — the compression function is that of the standard.
* `blake2s_streams` — the sums of the code are those of the standard.
-/

namespace AwgProxy

/-! ### The code -/

/-- `memcpy` of `src` to a buffer from an offset that is an `int`; `none` outside the buffer. -/
def copyInto (buf : Bytes) (off : ℤ) (src : Bytes) : Option Bytes :=
  if 0 ≤ off ∧ off + src.length ≤ buf.length then some (buf.patch off.toNat src) else none

/-- `blake2s_state`, over chaining values of any type. -/
structure Blake2sCtx (H : Type) where
  h : H
  t0 : UInt32
  t1 : UInt32
  buf : Bytes
  buflen : ℤ

/-- `blake2s_init` behind the chaining value `h`. -/
def blake2sInitBy {H : Type} (h : H) (key : Bytes) : Option (Blake2sCtx H) :=
  let buf := List.replicate 64 0
  if 0 < key.length then do
    let buf ← copyInto buf 0 key
    some ⟨h, 0, 0, buf, 64⟩
  else some ⟨h, 0, 0, buf, 0⟩

section

variable {H : Type} (compress : H → Bytes → UInt32 → UInt32 → Bool → H)

/-- The counter moved on by 64, and a block compressed. -/
def blake2sBlockBy (st : Blake2sCtx H) (block : Bytes) : Blake2sCtx H :=
  let t0 := st.t0 + 64
  let t1 := if t0 < 64 then st.t1 + 1 else st.t1
  { st with h := compress st.h block t0 t1 false, t0 := t0, t1 := t1 }

/-- The loop of `blake2s_update`: the state, and what is left of the input. -/
def blake2sBlocksBy (st : Blake2sCtx H) (data : Bytes) : Blake2sCtx H × Bytes :=
  if 64 < data.length then
    blake2sBlocksBy (blake2sBlockBy compress st (data.take 64)) (data.drop 64)
  else (st, data)
termination_by data.length
decreasing_by rw [List.length_drop]; omega

/-- The first step of `blake2s_update`, for input that goes beyond the buffer: the buffer is filled
up and compressed. -/
def blake2sFillBy (st : Blake2sCtx H) (data : Bytes) : Option (Blake2sCtx H) := do
  let buf ← copyInto st.buf st.buflen data
  some { blake2sBlockBy compress { st with buf } buf with buflen := 0 }

/-- The last step of `blake2s_update`: what is left goes into the buffer. -/
def blake2sStore {H : Type} (st : Blake2sCtx H) (data : Bytes) : Option (Blake2sCtx H) := do
  let buf ← copyInto st.buf st.buflen data
  some { st with buf, buflen := st.buflen + intOfSize data.length }

/-- `blake2s_update`. -/
def blake2sUpdateBy (st : Blake2sCtx H) (data : Bytes) : Option (Blake2sCtx H) :=
  if data.length = 0 then some st
  else
    let fill := 64 - st.buflen
    if intOfSize data.length > fill then do
      let st ← blake2sFillBy compress st (data.take fill.toNat)
      let (st, data) := blake2sBlocksBy compress st (data.drop fill.toNat)
      blake2sStore st data
    else blake2sStore st data

/-- `blake2s_final`, up to the chaining value it stores. -/
def blake2sFinalBy (st : Blake2sCtx H) : Option H := do
  let n := UInt32.ofInt st.buflen
  let t0 := st.t0 + n
  let t1 := if t0 < n then st.t1 + 1 else st.t1
  let buf ← copyInto st.buf st.buflen (List.replicate (64 - st.buflen).toNat 0)
  some (compress st.h buf t0 t1 true)

/-- A message in several updates, from the chaining value `h` on. -/
def blake2sRunBy (h : H) (key : Bytes) (parts : List Bytes) : Option H := do
  let st ← blake2sInitBy h key
  let st ← parts.foldlM (blake2sUpdateBy compress) st
  blake2sFinalBy compress st

end

/-- The chaining value of `blake2s_init`. -/
def blake2sStart (nn kk : ℕ) : Vector UInt32 8 :=
  blake2sIv.setIfInBounds 0
    (blake2sIv.get 0 ^^^ ((0x01010000 : UInt32) ||| (UInt32.ofNat kk <<< 8) ||| UInt32.ofNat nn))

/-- The 32 bytes `blake2s_final` stores after several updates. -/
def blake2sRun (nn : ℕ) (key : Bytes) (parts : List Bytes) : Option Bytes := do
  let h ← blake2sRunBy blake2sCompress (blake2sStart nn key.length) key parts
  some (h.toList.flatMap fun w => Bytes.leBytes 4 w.toNat)

/-- The calls of `blake2s_compress` after several updates. -/
def blake2sCalls (key : Bytes) (parts : List Bytes) : Option (List Blake2.Compression) :=
  blake2sRunBy
    (fun calls block t0 t1 last => calls ++ [⟨block, t0.toNat + 2 ^ 32 * t1.toNat, last⟩])
    [] key parts

/-! ### What is meant -/

/-- What the streaming owes, for sums of `nn` bytes under a key, of a message in these parts. -/
structure StreamsBlake2s (nn : ℕ) (key : Bytes) (parts : List Bytes) : Prop where
  /-- The sum is that of the message. -/
  sum : ∃ out, blake2sRun nn key parts = some out ∧
    out.take nn = Blake2.hash nn key parts.flatten
  /-- Every block is compressed once, in order, with the bytes up to its end. -/
  calls : blake2sCalls key parts = some (Blake2.compressions key parts.flatten)
  /-- The sum without a key is such a run of one update. -/
  sum256 : key = [] → blake2s256 parts.flatten = Blake2.hash 32 key parts.flatten
  /-- So is the keyed one. -/
  mac128 : key.length = 32 → blake2s128mac key parts.flatten = Blake2.hash 16 key parts.flatten

/-! ### The counter -/

/-- A count in two words moves on by less than one of them. -/
theorem counter_add (n : ℕ) {d : ℕ} (hd : d < 2 ^ 32) :
    UInt32.ofNat n + UInt32.ofNat d = UInt32.ofNat (n + d) ∧
      (if UInt32.ofNat n + UInt32.ofNat d < UInt32.ofNat d then UInt32.ofNat (n / 2 ^ 32) + 1
        else UInt32.ofNat (n / 2 ^ 32)) = UInt32.ofNat ((n + d) / 2 ^ 32) := by
  have hlt : UInt32.ofNat n + UInt32.ofNat d < UInt32.ofNat d ↔ (n + d) % 2 ^ 32 < d := by
    rw [← UInt32.ofNat_add, UInt32.lt_iff_toNat_lt, UInt32.toNat_ofNat', UInt32.toNat_ofNat',
      Nat.mod_eq_of_lt hd]
  refine ⟨(UInt32.ofNat_add n d).symm, ?_⟩
  by_cases hcarry : (n + d) % 2 ^ 32 < d
  · have hdiv : (n + d) / 2 ^ 32 = n / 2 ^ 32 + 1 := by omega
    rw [if_pos (hlt.mpr hcarry), hdiv, UInt32.ofNat_add]
    rfl
  · have hdiv : (n + d) / 2 ^ 32 = n / 2 ^ 32 := by omega
    rw [if_neg fun h => hcarry (hlt.mp h), hdiv]

/-- A length that is an `int`, as a word. -/
theorem ofInt_natCast (n : ℕ) : UInt32.ofInt n = UInt32.ofNat n := by
  have hmod : ((n : ℤ) % 2 ^ 32).toNat = n % 2 ^ 32 := by omega
  refine UInt32.toNat_inj.mp ?_
  rw [UInt32.ofInt, hmod, UInt32.toNat_ofNat', UInt32.toNat_ofNat', Nat.mod_mod]

/-! ### The buffer -/

/-- A copy that stays inside the buffer overwrites. -/
theorem eq_patch_of_copyInto {buf buf' src : Bytes} {off : ℤ}
    (h : copyInto buf off src = some buf') : buf' = buf.patch off.toNat src := by
  rw [copyInto] at h
  split at h
  · exact (Option.some.inj h).symm
  · cases h

/-- A copy behind the bytes in use. -/
theorem exists_copyInto {buf r d : Bytes} (hr : buf.take r.length = r)
    (hroom : r.length + d.length ≤ buf.length) :
    ∃ buf', copyInto buf r.length d = some buf' ∧ buf'.length = buf.length ∧
      buf'.take (r ++ d).length = r ++ d := by
  have hfits : 0 ≤ (r.length : ℤ) ∧ (r.length : ℤ) + d.length ≤ buf.length := by omega
  refine ⟨buf.patch r.length d, ?_, Bytes.length_patch hroom, ?_⟩
  · rw [copyInto, if_pos hfits, Int.toNat_natCast]
  · rw [Bytes.patch, hr]
    exact List.take_left

/-- A buffer in use up to its end. -/
theorem eq_of_take_length {buf b : Bytes} (h : buf.take b.length = b)
    (hlen : buf.length = b.length) : buf = b := by
  rwa [← hlen, List.take_length] at h

/-! ### What the state holds -/

/-- The compressions of the blocks before the last. -/
def blockCalls (bs : List Bytes) : List Blake2.Compression :=
  bs.mapIdx fun i b => ⟨b, (i + 1) * 64, false⟩

theorem blockCalls_concat (bs : List Bytes) (b : Bytes) :
    blockCalls (bs ++ [b]) = blockCalls bs ++ [⟨b, 64 * bs.length + 64, false⟩] := by
  rw [blockCalls, List.mapIdx_concat, Nat.succ_mul, Nat.mul_comm]
  rfl

section

variable {H : Type} (compress : H → Bytes → UInt32 → UInt32 → Bool → H)

/-- A compression, with its count in two words. -/
def compressBy (h : H) (c : Blake2.Compression) : H :=
  compress h c.block (.ofNat c.count) (.ofNat (c.count / 2 ^ 32)) c.last

/-- The chaining value and the counter, behind these blocks. -/
structure Chained (h : H) (bs : List Bytes) (st : Blake2sCtx H) : Prop where
  h : st.h = (blockCalls bs).foldl (compressBy compress) h
  t0 : st.t0 = .ofNat (64 * bs.length)
  t1 : st.t1 = .ofNat (64 * bs.length / 2 ^ 32)

/-- The blocks `bs` are compressed, and the bytes `r` are in the buffer. -/
structure Holds (h : H) (bs : List Bytes) (r : Bytes) (st : Blake2sCtx H) : Prop
    extends Chained compress h bs st where
  length : st.buf.length = 64
  buflen : st.buflen = r.length
  buf : st.buf.take r.length = r

/-- What the state holds of the bytes `xs`. -/
abbrev Absorbed (h : H) (xs : Bytes) (st : Blake2sCtx H) : Prop :=
  Holds compress h (holdBack 64 xs).1 (holdBack 64 xs).2 st

variable {compress} {h : H} {bs : List Bytes} {r : Bytes} {st : Blake2sCtx H}

/-- Before the first block. -/
theorem chained_nil (h : H) (buf : Bytes) (n : ℤ) : Chained compress h [] ⟨h, 0, 0, buf, n⟩ :=
  ⟨rfl, rfl, rfl⟩

/-- One more block. -/
theorem Chained.block (hc : Chained compress h bs st) (b : Bytes) :
    Chained compress h (bs ++ [b]) (blake2sBlockBy compress st b) := by
  obtain ⟨ht0, ht1⟩ := counter_add (64 * bs.length) (d := 64) (by decide)
  have hlen : 64 * (bs ++ [b]).length = 64 * bs.length + 64 := by
    rw [List.length_append, List.length_singleton, Nat.mul_succ]
  have h0 : st.t0 + 64 = .ofNat (64 * bs.length + 64) := by
    rw [hc.t0]
    exact ht0
  have h1 : (if st.t0 + 64 < 64 then st.t1 + 1 else st.t1) =
      .ofNat ((64 * bs.length + 64) / 2 ^ 32) := by
    rw [hc.t0, hc.t1]
    exact ht1
  refine ⟨?_, ?_, ?_⟩
  · rw [blockCalls_concat, List.foldl_concat, ← hc.h, compressBy, ← h0, ← h1]
    rfl
  · rw [hlen]
    exact h0
  · rw [hlen]
    exact h1

/-- The loop compresses all blocks but the last of its input, and leaves the buffer alone. -/
theorem Chained.blocks (hc : Chained compress h bs st) (data : Bytes) :
    Chained compress h (bs ++ (holdBack 64 data).1) (blake2sBlocksBy compress st data).1 ∧
      (blake2sBlocksBy compress st data).2 = (holdBack 64 data).2 ∧
      (blake2sBlocksBy compress st data).1.buf = st.buf ∧
      (blake2sBlocksBy compress st data).1.buflen = st.buflen := by
  induction st, data using blake2sBlocksBy.induct compress generalizing bs with
  | case1 st data hlong ih =>
      obtain ⟨hchained, hrest, hbuf, hbuflen⟩ := ih (hc.block (data.take 64))
      rw [List.append_assoc] at hchained
      rw [blake2sBlocksBy, if_pos hlong, holdBack_of_lt (by decide) hlong]
      exact ⟨hchained, hrest, hbuf, hbuflen⟩
  | case2 st data hshort =>
      rw [blake2sBlocksBy, if_neg hshort, holdBack_of_le (by omega), List.append_nil]
      exact ⟨hc, rfl, rfl, rfl⟩

/-- **The start**: nothing, or the key block. -/
theorem blake2sInitBy_absorbed (h : H) {key : Bytes} (hkey : key.length ≤ 64) :
    ∃ st, blake2sInitBy h key = some st ∧ Absorbed compress h (Blake2.stream key []) st := by
  by_cases hnone : key = []
  · subst hnone
    refine ⟨⟨h, 0, 0, List.replicate 64 0, 0⟩, rfl, ?_⟩
    rw [Absorbed, Blake2.stream, if_pos rfl, holdBack_of_le (Nat.zero_le _)]
    exact ⟨chained_nil h _ _, rfl, rfl, rfl⟩
  · have hpos := List.length_pos_of_ne_nil hnone
    have hlen := Blake2.length_pad hkey
    have hcopy : copyInto (List.replicate 64 0) 0 key = some (Blake2.pad key) := by
      rw [copyInto, if_pos (by rw [List.length_replicate]; omega), Bytes.patch,
        List.drop_replicate, Blake2.pad, Int.toNat_zero, Nat.zero_add]
      rfl
    refine ⟨⟨h, 0, 0, Blake2.pad key, 64⟩, ?_, ?_⟩
    · rw [blake2sInitBy, if_pos hpos, hcopy]
      rfl
    · rw [Absorbed, Blake2.stream, if_neg hnone, List.append_nil, holdBack_of_le hlen.le]
      refine ⟨chained_nil h _ _, hlen, ?_, List.take_length⟩
      rw [hlen]
      rfl

/-- Bytes that fit are stored behind those in the buffer. -/
theorem Holds.store (hst : Holds compress h bs r st) {d : Bytes}
    (hroom : r.length + d.length ≤ 64) :
    ∃ st', blake2sStore st d = some st' ∧ Holds compress h bs (r ++ d) st' := by
  have hfits : r.length + d.length ≤ st.buf.length := by rwa [hst.length]
  have hint : intOfSize d.length = d.length := intOfSize_eq (by omega)
  obtain ⟨buf, hcopy, hlen, htake⟩ := exists_copyInto hst.buf hfits
  rw [blake2sStore, hst.buflen, hcopy, hint]
  refine ⟨_, rfl, ⟨hst.h, hst.t0, hst.t1⟩, hlen.trans hst.length, ?_, htake⟩
  rw [List.length_append, Nat.cast_add]

/-- Bytes that fill the buffer complete a block. -/
theorem Holds.fill (hst : Holds compress h bs r st) {d : Bytes} (hfull : r.length + d.length = 64) :
    ∃ st', blake2sFillBy compress st d = some st' ∧ Holds compress h (bs ++ [r ++ d]) [] st' := by
  have hfits : r.length + d.length ≤ st.buf.length := (hfull.trans hst.length.symm).le
  obtain ⟨buf, hcopy, hlen, htake⟩ := exists_copyInto hst.buf hfits
  have hwhole : buf.length = (r ++ d).length := by
    rw [hlen, hst.length, List.length_append, hfull]
  obtain rfl := eq_of_take_length htake hwhole
  have hchained : Chained compress h bs { st with buf := r ++ d } := ⟨hst.h, hst.t0, hst.t1⟩
  have hblock := hchained.block (r ++ d)
  rw [blake2sFillBy, hst.buflen, hcopy]
  exact ⟨_, rfl, ⟨hblock.h, hblock.t0, hblock.t1⟩, hlen.trans hst.length, rfl, rfl⟩

/-- The loop and what it leaves, on a buffer that is empty. -/
theorem Holds.blocks (hst : Holds compress h bs [] st) (data : Bytes) :
    ∃ st', blake2sStore (blake2sBlocksBy compress st data).1 (blake2sBlocksBy compress st data).2 =
        some st' ∧
      Holds compress h (bs ++ (holdBack 64 data).1) (holdBack 64 data).2 st' := by
  obtain ⟨hchained, hrest, hbuf, hbuflen⟩ := hst.toChained.blocks data
  have hheld : Holds compress h (bs ++ (holdBack 64 data).1) []
      (blake2sBlocksBy compress st data).1 :=
    ⟨hchained, hbuf ▸ hst.length, hbuflen.trans hst.buflen, rfl⟩
  have hroom := length_holdBack_le (show 0 < 64 by decide) data
  rw [hrest]
  exact hheld.store ((Nat.zero_add _).trans_le hroom)

/-- An update, whatever is in the buffer. -/
theorem Holds.update (hst : Holds compress h bs r st) (hle : r.length ≤ 64) {data : Bytes}
    (hdata : data.length < 2 ^ 31) :
    ∃ st', blake2sUpdateBy compress st data = some st' ∧
      Holds compress h (bs ++ (holdBack 64 (r ++ data)).1) (holdBack 64 (r ++ data)).2 st' := by
  by_cases hnil : data.length = 0
  · rw [blake2sUpdateBy, if_pos hnil, List.eq_nil_of_length_eq_zero hnil, List.append_nil,
      holdBack_of_le hle, List.append_nil]
    exact ⟨st, rfl, hst⟩
  have hfill : (64 - st.buflen).toNat = 64 - r.length := by
    rw [hst.buflen]
    omega
  rw [blake2sUpdateBy, if_neg hnil]
  dsimp only
  rw [hfill, intOfSize_eq hdata]
  by_cases hlong : (data.length : ℤ) > 64 - st.buflen
  · -- the buffer is filled up, and the loop takes the rest but for its last block
    rw [if_pos hlong]
    rw [hst.buflen] at hlong
    have hfull : r.length + (data.take (64 - r.length)).length = 64 := by
      rw [List.length_take]
      omega
    have hblock : (r ++ data.take (64 - r.length)).length = 64 := by
      rw [List.length_append, hfull]
    have hrest : data.drop (64 - r.length) ≠ [] := by
      refine List.ne_nil_of_length_pos ?_
      rw [List.length_drop]
      omega
    have hcut : r ++ data = (r ++ data.take (64 - r.length)) ++ data.drop (64 - r.length) := by
      rw [List.append_assoc, List.take_append_drop]
    obtain ⟨st₁, hcopy, hheld⟩ := hst.fill hfull
    obtain ⟨st₂, hstore, hstored⟩ := hheld.blocks (data.drop (64 - r.length))
    rw [hcut, holdBack_append_of_length (by decide) hblock hrest, List.append_cons, hcopy]
    exact ⟨st₂, hstore, hstored⟩
  · have hroom : r.length + data.length ≤ 64 := by
      rw [hst.buflen] at hlong
      omega
    have hshort : (r ++ data).length ≤ 64 := by rwa [List.length_append]
    rw [if_neg hlong, holdBack_of_le hshort, List.append_nil]
    exact hst.store hroom

/-- **An update** goes on from what the state holds. -/
theorem blake2sUpdateBy_absorbed {xs data : Bytes} (hst : Absorbed compress h xs st)
    (hdata : data.length < 2 ^ 31) :
    ∃ st', blake2sUpdateBy compress st data = some st' ∧
      Absorbed compress h (xs ++ data) st' := by
  obtain ⟨st', hupdate, hheld⟩ := hst.update (length_holdBack_le (by decide) xs) hdata
  refine ⟨st', hupdate, ?_⟩
  rwa [Absorbed, holdBack_append (by decide)]

/-- Any updates, one after the other. -/
theorem foldlM_blake2sUpdateBy_absorbed {xs : Bytes} {parts : List Bytes}
    (hst : Absorbed compress h xs st) (hparts : parts.flatten.length < 2 ^ 31) :
    ∃ st', parts.foldlM (blake2sUpdateBy compress) st = some st' ∧
      Absorbed compress h (xs ++ parts.flatten) st' := by
  induction parts generalizing st xs with
  | nil => exact ⟨st, rfl, by rwa [List.flatten_nil, List.append_nil]⟩
  | cons data parts ih =>
      rw [List.flatten_cons, List.length_append] at hparts
      have hdata : data.length < 2 ^ 31 := by omega
      obtain ⟨st', hupdate, hst'⟩ := blake2sUpdateBy_absorbed hst hdata
      obtain ⟨st'', hrest, hst''⟩ := ih hst' (by omega)
      refine ⟨st'', ?_, ?_⟩
      · rw [List.foldlM_cons, hupdate]
        exact hrest
      · rwa [List.flatten_cons, ← List.append_assoc]

/-- The end, whatever is in the buffer. -/
theorem Holds.final (hst : Holds compress h bs r st) (hle : r.length ≤ 64) :
    blake2sFinalBy compress st = some (compressBy compress
      ((blockCalls bs).foldl (compressBy compress) h)
      ⟨Blake2.pad r, 64 * bs.length + r.length, true⟩) := by
  have hzeros : (64 - st.buflen).toNat = 64 - r.length := by
    rw [hst.buflen]
    omega
  have hfull : r.length + (List.replicate (64 - r.length) (0 : UInt8)).length = 64 := by
    rw [List.length_replicate]
    omega
  have hfits := (hfull.trans hst.length.symm).le
  obtain ⟨buf, hcopy, hlength, htake⟩ := exists_copyInto hst.buf hfits
  have hbuf : buf = Blake2.pad r := by
    refine eq_of_take_length htake ?_
    rw [hlength, hst.length, Blake2.length_pad hle]
  obtain ⟨ht0, ht1⟩ := counter_add (64 * bs.length) (d := r.length) (by omega)
  have hn : UInt32.ofInt st.buflen = .ofNat r.length := by
    rw [hst.buflen]
    exact ofInt_natCast _
  rw [blake2sFinalBy, hzeros, hn, hst.t0, hst.t1, hst.buflen, hcopy, hst.h, hbuf, ht1, ht0]
  rfl

/-- **The end**: the last block, padded and flagged. -/
theorem blake2sFinalBy_eq {xs : Bytes} (hst : Absorbed compress h xs st) :
    blake2sFinalBy compress st = some (compressBy compress
      ((blockCalls (holdBack 64 xs).1).foldl (compressBy compress) h)
      ⟨Blake2.pad (holdBack 64 xs).2, xs.length, true⟩) := by
  rw [hst.final (length_holdBack_le (by decide) xs), ← length_eq_holdBack (by decide) xs]

variable (compress) in
/-- **Any run** is the compressions of the message, from first to last. -/
theorem blake2sRunBy_eq (h : H) {key : Bytes} {parts : List Bytes} (hkey : key.length ≤ 64)
    (hparts : parts.flatten.length < 2 ^ 31) :
    blake2sRunBy compress h key parts =
      some ((Blake2.compressions key parts.flatten).foldl (compressBy compress) h) := by
  obtain ⟨st, hinit, hst⟩ := blake2sInitBy_absorbed h hkey
  obtain ⟨st', hupdates, hst'⟩ := foldlM_blake2sUpdateBy_absorbed hst hparts
  have hstream : Blake2.stream key [] ++ parts.flatten = Blake2.stream key parts.flatten := by
    rw [Blake2.stream, List.append_nil]
    rfl
  rw [hstream] at hst'
  rw [blake2sRunBy, hinit, Option.bind_eq_bind, Option.bind_some, hupdates, Option.bind_some,
    blake2sFinalBy_eq hst', Blake2.compressions_eq hkey, List.foldl_concat]
  rfl

end

/-! ### The compression function -/

/-- The table of the source is the initial value of the standard. -/
theorem blake2sIv_eq : blake2sIv = Blake2.iv := by decide +kernel

/-- The rotations of the mixing function. -/
theorem rotr32_eq (x : UInt32) :
    rotr32 x 16 = Blake2.rotateRight x 16 ∧ rotr32 x 12 = Blake2.rotateRight x 12 ∧
      rotr32 x 8 = Blake2.rotateRight x 8 ∧ rotr32 x 7 = Blake2.rotateRight x 7 :=
  ⟨rfl, rfl, rfl, rfl⟩

/-- Four words of the working vector are mixed as the standard does. -/
theorem blake2sG_eq (v : Words) {a b c d : Fin 16} (h : [a, b, c, d].Nodup) (x y : UInt32) :
    blake2sG v a b c d x y = Blake2.mix v a b c d x y := by
  simp only [List.nodup_cons, List.mem_cons, List.not_mem_nil, or_false, not_or] at h
  obtain ⟨⟨hab, hac, had⟩, ⟨hbc, hbd⟩, hcd, -⟩ := h
  refine Words.ext_word fun i => ?_
  simp only [blake2sG, Blake2.mix, Words.word_put, hab, hac, had, hbc, hbd, hcd, Ne.symm hab,
    Ne.symm hac, Ne.symm had, Ne.symm hbc, Ne.symm hbd, Ne.symm hcd, if_true, if_false, rotr32_eq,
    ← UInt32.add_assoc]
  -- the four words, and any other one
  by_cases hai : a = i
  · subst hai
    simp only [Ne.symm hab, Ne.symm hac, Ne.symm had, if_true, if_false]
  by_cases hbi : b = i
  · subst hbi
    simp only [Ne.symm hbc, Ne.symm hbd, if_true, if_false]
  by_cases hci : c = i
  · subst hci
    simp only [hbc, Ne.symm hcd, if_true, if_false]
  · simp only [hai, hbi, hci, if_false]
    split_ifs <;> rfl

/-- The orders of the message words are those of the standard. -/
theorem blake2sSigma_eq : blake2sSigma.toList.map Vector.get = Blake2.sigma := by decide +kernel

/-- A round is one of the standard. -/
theorem blake2sRound_eq (m v : Words) (s : Vector (Fin 16) 16) :
    blake2sRound m v s = Blake2.round m v s.get := by
  simp (disch := decide) only [blake2sRound, blake2sG_eq]
  rfl

/-- **The compression function** is that of the standard. -/
theorem blake2sCompress_eq (h : Vector UInt32 8) (block : Bytes) (count : ℕ) (last : Bool) :
    blake2sCompress h block (.ofNat count) (.ofNat (count / 2 ^ 32)) last =
      Blake2.compress h (Blake2.wordsOf block) count last := by
  have hwork : Blake2.workVector h count last =
      #v[h[0], h[1], h[2], h[3], h[4], h[5], h[6], h[7], blake2sIv[0], blake2sIv[1], blake2sIv[2],
        blake2sIv[3], .ofNat count ^^^ blake2sIv[4], .ofNat (count / 2 ^ 32) ^^^ blake2sIv[5],
        if last then blake2sIv[6] ^^^ 0xFFFFFFFF else blake2sIv[6], blake2sIv[7]] := by
    rw [blake2sIv_eq, UInt32.xor_comm (.ofNat count), UInt32.xor_comm (.ofNat (count / 2 ^ 32))]
    exact Blake2.workVector_eq h count last
  have hround : blake2sRound = fun m v s => Blake2.round m v s.get := by
    funext m v s
    exact blake2sRound_eq m v s
  rw [blake2sCompress, ← hwork, hround, Blake2.compress, Blake2.wordsOf, ← blake2sSigma_eq,
    List.foldl_map]
  simp only [UInt32.xor_assoc, Nat.mul_comm 4]
  rfl

/-- The chaining value before the first block is that of the standard. -/
theorem blake2sStart_eq {nn kk : ℕ} (hnn : nn ≤ 32) (hkk : kk ≤ 32) :
    blake2sStart nn kk = Blake2.start nn kk := by
  -- the three parts of the parameter word have no bit in common
  have hparts : ∀ k < 33, ∀ n < 33,
      (0x01010000 : UInt32) ||| (UInt32.ofNat k <<< 8) ||| UInt32.ofNat n =
        (0x01010000 : UInt32) ^^^ ((UInt32.ofNat k <<< 8) ^^^ UInt32.ofNat n) := by
    decide +kernel
  rw [blake2sStart, Blake2.start, hparts kk (by omega) nn (by omega), blake2sIv_eq]
  refine Vector.ext fun i hi => ?_
  rw [Vector.getElem_setIfInBounds, Vector.getElem_mapIdx]
  by_cases h0 : i = 0
  · subst h0
    rw [if_pos rfl, if_pos rfl, UInt32.xor_assoc, UInt32.xor_assoc]
    rfl
  · rw [if_neg (Ne.symm h0), if_neg h0]

/-! ### The sum and the calls -/

/-- **The sum** of a message in parts. -/
theorem blake2sRun_eq {nn : ℕ} {key : Bytes} {parts : List Bytes} (hnn : nn ≤ 32)
    (hkey : key.length ≤ 32) (hparts : parts.flatten.length < 2 ^ 31) :
    ∃ out, blake2sRun nn key parts = some out ∧
      out.take nn = Blake2.hash nn key parts.flatten := by
  have hstep : compressBy blake2sCompress =
      fun h c => Blake2.compress h (Blake2.wordsOf c.block) c.count c.last := by
    funext h c
    exact blake2sCompress_eq h c.block c.count c.last
  have hrun := blake2sRunBy_eq blake2sCompress (blake2sStart nn key.length)
    (hkey.trans (by decide)) hparts
  rw [hstep, blake2sStart_eq hnn hkey] at hrun
  rw [blake2sRun, blake2sStart_eq hnn hkey, hrun]
  exact ⟨_, rfl, rfl⟩

/-- The counts go as far as the bytes that are compressed. -/
theorem count_le_of_mem_compressions {key msg : Bytes} (hkey : key.length ≤ 64) :
    ∀ c ∈ Blake2.compressions key msg, c.count ≤ (Blake2.stream key msg).length := by
  have hlen := length_eq_holdBack (show 0 < 64 by decide) (Blake2.stream key msg)
  rw [Blake2.compressions_eq hkey]
  refine List.forall_mem_append.mpr ⟨fun c hc => ?_, List.forall_mem_singleton.mpr le_rfl⟩
  obtain ⟨i, hi, rfl⟩ := List.mem_mapIdx.mp hc
  dsimp only
  omega

/-- Notes of counts of less than 64 bits are the compressions themselves. -/
theorem foldl_note {cs : List Blake2.Compression} (hcs : ∀ c ∈ cs, c.count < 2 ^ 64)
    (calls : List Blake2.Compression) :
    cs.foldl (compressBy fun calls block t0 t1 last =>
      calls ++ [⟨block, t0.toNat + 2 ^ 32 * t1.toNat, last⟩]) calls = calls ++ cs := by
  induction cs generalizing calls with
  | nil => exact (List.append_nil calls).symm
  | cons c cs ih =>
      obtain ⟨hc, hrest⟩ := List.forall_mem_cons.mp hcs
      have hcount : (UInt32.ofNat c.count).toNat +
          2 ^ 32 * (UInt32.ofNat (c.count / 2 ^ 32)).toNat = c.count := by
        rw [UInt32.toNat_ofNat', UInt32.toNat_ofNat']
        omega
      rw [List.foldl_cons, compressBy, hcount, ih hrest, List.append_assoc]
      rfl

/-- **The calls** of the compression function, of a message in parts. -/
theorem blake2sCalls_eq {key : Bytes} {parts : List Bytes} (hkey : key.length ≤ 32)
    (hparts : parts.flatten.length < 2 ^ 31) :
    blake2sCalls key parts = some (Blake2.compressions key parts.flatten) := by
  have hkey' : key.length ≤ 64 := hkey.trans (by decide)
  have hlen := Blake2.length_stream hkey' parts.flatten
  have hcounts : ∀ c ∈ Blake2.compressions key parts.flatten, c.count < 2 ^ 64 := by
    intro c hc
    have hle := count_le_of_mem_compressions hkey' c hc
    split_ifs at hlen <;> omega
  rw [blake2sCalls, blake2sRunBy_eq _ _ hkey' hparts, foldl_note hcounts, List.nil_append]

/-! ### The sums of one update -/

/-- The state of the code, with its length in use as an `int`. -/
def Blake2sState.ctx (st : Blake2sState) : Blake2sCtx (Vector UInt32 8) :=
  ⟨st.h, st.t0, st.t1, st.buf, st.buflen⟩

/-- The start, without the check. -/
theorem ctx_blake2sInit {nn : ℕ} {key : Bytes} {st : Blake2sCtx (Vector UInt32 8)}
    (h : blake2sInitBy (blake2sStart nn key.length) key = some st) :
    st = (blake2sInit nn key).ctx := by
  rw [blake2sInitBy] at h
  by_cases hpos : 0 < key.length
  · rw [if_pos hpos] at h
    obtain ⟨buf, hcopy, hst⟩ := Option.bind_eq_some_iff.mp h
    rw [← Option.some.inj hst, eq_patch_of_copyInto hcopy, Blake2sState.ctx, blake2sInit,
      if_pos hpos]
    rfl
  · rw [if_neg hpos] at h
    have hnil : key = [] := List.eq_nil_of_length_eq_zero (by omega)
    rw [← Option.some.inj h, hnil]
    rfl

/-- The loop, by the number of its turns. -/
theorem ctx_blake2sUpdateLoop (st : Blake2sState) (data : Bytes) :
    blake2sBlocksBy blake2sCompress st.ctx data =
      ((blake2sUpdateLoop ((data.length - 1) / 64) st data).1.ctx,
        (blake2sUpdateLoop ((data.length - 1) / 64) st data).2) := by
  induction hn : (data.length - 1) / 64 generalizing st data with
  | zero =>
      rw [blake2sBlocksBy, if_neg (by omega)]
      rfl
  | succ n ih =>
      have hlong : 64 < data.length := by omega
      have hrest : ((data.drop 64).length - 1) / 64 = n := by
        rw [List.length_drop]
        omega
      rw [blake2sBlocksBy, if_pos hlong]
      exact ih (blake2sBlock st (data.take 64)) (data.drop 64) hrest

/-- The state with its buffer filled up and compressed. -/
def blake2sFilled (st : Blake2sState) (data : Bytes) : Blake2sState :=
  let st := { st with buf := st.buf.patch st.buflen data }
  { blake2sBlock st st.buf with buflen := 0 }

/-- The first step of an update, without the check. -/
theorem ctx_blake2sFill {st : Blake2sState} {data : Bytes} {st' : Blake2sCtx (Vector UInt32 8)}
    (h : blake2sFillBy blake2sCompress st.ctx data = some st') :
    st' = (blake2sFilled st data).ctx := by
  obtain ⟨buf, hcopy, hst⟩ := Option.bind_eq_some_iff.mp h
  rw [← Option.some.inj hst, eq_patch_of_copyInto hcopy]
  rfl

/-- The loop leaves no more than it is given. -/
theorem length_blake2sUpdateLoop_le (blocks : ℕ) (st : Blake2sState) (data : Bytes) :
    (blake2sUpdateLoop blocks st data).2.length ≤ data.length := by
  induction blocks generalizing st data with
  | zero => exact le_rfl
  | succ blocks ih =>
      have hdrop : (data.drop 64).length ≤ data.length := by
        rw [List.length_drop]
        omega
      exact (ih _ _).trans hdrop

/-- The last step of an update, without the check and the conversion. -/
theorem ctx_blake2sStore {st : Blake2sState} {data : Bytes}
    {st' : Blake2sCtx (Vector UInt32 8)} (hdata : data.length < 2 ^ 31)
    (h : blake2sStore st.ctx data = some st') :
    st' = { st with
      buf := st.buf.patch st.buflen data
      buflen := st.buflen + data.length : Blake2sState }.ctx := by
  obtain ⟨buf, hcopy, hst⟩ := Option.bind_eq_some_iff.mp h
  rw [← Option.some.inj hst, eq_patch_of_copyInto hcopy, intOfSize_eq hdata]
  rfl

/-- An update, without the checks and the conversions. -/
theorem ctx_blake2sUpdate {st : Blake2sState} {data : Bytes}
    {st' : Blake2sCtx (Vector UInt32 8)} (hle : st.buflen ≤ 64) (hdata : data.length < 2 ^ 31)
    (h : blake2sUpdateBy blake2sCompress st.ctx data = some st') :
    st' = (blake2sUpdate st data).ctx := by
  have hfill : 64 - st.ctx.buflen = ((64 - st.buflen : ℕ) : ℤ) := by
    rw [Blake2sState.ctx]
    dsimp only
    omega
  rw [blake2sUpdateBy] at h
  rw [blake2sUpdate]
  by_cases hnil : data.length = 0
  · rw [if_pos hnil] at h ⊢
    exact (Option.some.inj h).symm
  rw [if_neg hnil] at h ⊢
  dsimp only at h ⊢
  rw [hfill, intOfSize_eq hdata, Int.toNat_natCast] at h
  by_cases hlong : data.length > 64 - st.buflen
  · rw [if_pos (by omega)] at h
    rw [if_pos hlong]
    obtain ⟨st₁, hst₁, hblocks⟩ := Option.bind_eq_some_iff.mp h
    obtain rfl := ctx_blake2sFill hst₁
    rw [ctx_blake2sUpdateLoop] at hblocks
    have hlen : ∀ n st',
        (blake2sUpdateLoop n st' (data.drop (64 - st.buflen))).2.length < 2 ^ 31 := by
      intro n st'
      have hle := length_blake2sUpdateLoop_le n st' (data.drop (64 - st.buflen))
      rw [List.length_drop] at hle
      omega
    exact ctx_blake2sStore (hlen _ _) hblocks
  · rw [if_neg (by omega)] at h
    rw [if_neg hlong]
    exact ctx_blake2sStore hdata h

/-- The end, without the check. -/
theorem bytes_blake2sFinal {st : Blake2sState} {h : Vector UInt32 8}
    (hfinal : blake2sFinalBy blake2sCompress st.ctx = some h) :
    (h.toList.flatMap fun w => Bytes.leBytes 4 w.toNat) = blake2sFinal st := by
  have hzeros : (64 - st.ctx.buflen).toNat = 64 - st.buflen := by
    rw [Blake2sState.ctx]
    dsimp only
    omega
  have hn : UInt32.ofInt st.ctx.buflen = .ofNat st.buflen := ofInt_natCast st.buflen
  rw [blake2sFinalBy, hzeros, hn] at hfinal
  obtain ⟨buf, hcopy, hcompress⟩ := Option.bind_eq_some_iff.mp hfinal
  rw [← Option.some.inj hcompress, eq_patch_of_copyInto hcopy]
  rfl

/-- A run of one update computes the sum of the code. -/
theorem eq_blake2sFinal_of_blake2sRun {nn : ℕ} {key data out : Bytes}
    (hdata : data.length < 2 ^ 31) (h : blake2sRun nn key [data] = some out) :
    out = blake2sFinal (blake2sUpdate (blake2sInit nn key) data) := by
  obtain ⟨hash, hrun, hout⟩ := Option.bind_eq_some_iff.mp h
  obtain ⟨st, hinit, hrest⟩ := Option.bind_eq_some_iff.mp hrun
  obtain ⟨st', hupdate, hfinal⟩ := Option.bind_eq_some_iff.mp hrest
  rw [ctx_blake2sInit hinit, List.foldlM_cons] at hupdate
  obtain ⟨st'', hupdate', hnil⟩ := Option.bind_eq_some_iff.mp hupdate
  have hle : (blake2sInit nn key).buflen ≤ 64 := by
    rw [blake2sInit]
    dsimp only
    split <;> omega
  rw [← Option.some.inj hnil, ctx_blake2sUpdate hle hdata hupdate'] at hfinal
  rw [← Option.some.inj hout, bytes_blake2sFinal hfinal]

/-- The sum of the code is that of the standard. -/
theorem take_blake2sFinal {nn : ℕ} {key data : Bytes} (hnn : nn ≤ 32) (hkey : key.length ≤ 32)
    (hdata : data.length < 2 ^ 31) :
    (blake2sFinal (blake2sUpdate (blake2sInit nn key) data)).take nn = Blake2.hash nn key data := by
  have hflat : [data].flatten = data := List.append_nil data
  have hparts : [data].flatten.length < 2 ^ 31 := by rwa [hflat]
  obtain ⟨out, hrun, htake⟩ := blake2sRun_eq hnn hkey hparts
  rw [← eq_blake2sFinal_of_blake2sRun hdata hrun, htake, hflat]

/-- `blake2s_256` is the sum of 32 bytes, without a key. -/
theorem blake2s256_eq {data : Bytes} (hdata : data.length < 2 ^ 31) :
    blake2s256 data = Blake2.hash 32 [] data := by
  rw [← take_blake2sFinal le_rfl (Nat.zero_le _) hdata, blake2s256,
    List.take_of_length_le (length_blake2sFinal _).le]

/-- `blake2s_128mac` is the sum of 16 bytes, with the key. -/
theorem blake2s128mac_eq {key data : Bytes} (hkey : key.length ≤ 32)
    (hdata : data.length < 2 ^ 31) : blake2s128mac key data = Blake2.hash 16 key data := by
  rw [← take_blake2sFinal (by decide) hkey hdata, blake2s128mac]

/-- The key of MAC1 is the sum of its label and the public key. -/
theorem computeMac1Key_eq {pubkey : Bytes} (hpubkey : pubkey.length < 2 ^ 30) :
    computeMac1Key pubkey = Blake2.hash 32 [] ("mac1----".toUTF8.toList ++ pubkey) := by
  have hlabel : "mac1----".toUTF8.toList.length = 8 := by decide +kernel
  refine blake2s256_eq ?_
  rw [List.length_append, hlabel]
  omega

/-- MAC1 is the keyed sum of the bytes in front of it. -/
theorem recomputeMac1At_eq {off : ℕ} {key : Bytes} (m : Mem PktBuf) (buf : Ptr PktBuf)
    (hkey : key.length ≤ 32) (hoff : off < 2 ^ 31) :
    recomputeMac1At off m buf key =
      m.write (buf.add off) (Blake2.hash 16 key (m.read buf off)) := by
  have hread : (m.read buf off).length < 2 ^ 31 := by
    rw [Mem.read, Bytes.length_slice]
    omega
  rw [recomputeMac1At, blake2s128mac_eq hkey hread]

/-- **BLAKE2s in parts** is BLAKE2s: with a key of up to 32 bytes or none, any sum of up to 32
bytes, however the message is cut into updates. -/
theorem blake2s_streams {nn : ℕ} {key : Bytes} {parts : List Bytes} (hnn : nn ≤ 32)
    (hkey : key.length ≤ 32) (hparts : parts.flatten.length < 2 ^ 31) :
    StreamsBlake2s nn key parts where
  sum := blake2sRun_eq hnn hkey hparts
  calls := blake2sCalls_eq hkey hparts
  sum256 hnone := by rw [hnone, blake2s256_eq hparts]
  mac128 _ := blake2s128mac_eq hkey hparts

/-- A keyed sum of a text in three updates, one of them empty. -/
theorem blake2s_streams_keyed :
    let key : Bytes := (List.range 32).map UInt8.ofNat
    let parts : List Bytes := [[0x74, 0x65, 0x73, 0x74, 0x20, 0x64, 0x61, 0x74, 0x61], [],
      [0x20, 0x66, 0x6f, 0x72, 0x20, 0x6b, 0x65, 0x79, 0x65, 0x64, 0x20, 0x62, 0x6c, 0x61, 0x6b,
        0x65, 0x32, 0x73]]
    StreamsBlake2s 16 key parts ∧ Blake2.hash 16 key parts.flatten =
      [0xb0, 0xc0, 0x07, 0xdc, 0x5d, 0x35, 0x4f, 0x7b, 0x3c, 0x65, 0xc0, 0x8f, 0xf1, 0x24, 0xba,
        0x08] :=
  ⟨blake2s_streams (by decide) (by decide) (by decide), by decide +kernel⟩

end AwgProxy
