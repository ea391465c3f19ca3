import AwgProxy.Keystream

/-!
# The Entry Points of ChaCha20

The cipher is entered at four places, and each cuts its stream in a way of its own: a single
block, whole blocks in place with the start of one more through a temporary, an exclusive or
block by block, and the exclusive or with a block computed before. The lengths are of type
`int`, and the buffers are checked here, which those of the source are not.

* `chacha20KeystreamInto_eq`, `chacha20XorInto_eq`, `chacha20XorKsInto_eq` — what each of the
  loops writes, and when it stays inside its buffer.
* `chacha20XorInto_region` — on a buffer of the length asked for it is the cipher of the encoder.
* `chacha20_entryPointsAgree` — all four cut the same stream.
-/

namespace AwgProxy

/-! ### The code -/

/-- The loop of `chacha20_keystream` from the state `st` on; `out` is the buffer from the pointer
on, and `none` stands for a write past its end. -/
def keystreamInto (st : Words) (out : Bytes) (len : ℤ) : Option Bytes :=
  if 64 ≤ len then
    if out.length < 64 then none
    else
      (keystreamInto (st.put 12 (st.word 12 + 1)) (out.drop 64) (len - 64)).map
        (chacha20Core st ++ ·)
  else if 0 < len then
    if out.length < len.toNat then none
    else some ((chacha20Core st).take len.toNat ++ out.drop len.toNat)
  else some out
termination_by len.toNat
decreasing_by omega

/-- `chacha20_keystream`. -/
def chacha20KeystreamInto (key nonce : Bytes) (counter : UInt32) (out : Bytes) (len : ℤ) :
    Option Bytes :=
  keystreamInto (chacha20Setup key nonce counter) out len

/-- So many turns of the loop of `chacha20_xor_ks`; `none` where it leaves one of the buffers. -/
def xorKsTurns : ℕ → Bytes → Bytes → Option Bytes
  | 0, buf, _ => some buf
  | n + 1, x :: buf, k :: ks => (xorKsTurns n buf ks).map ((x ^^^ k) :: ·)
  | _ + 1, _, _ => none

/-- `chacha20_xor_ks`. -/
def chacha20XorKsInto (buf ks : Bytes) (len : ℤ) : Option Bytes :=
  xorKsTurns len.toNat buf ks

/-- The loop of `chacha20_xor` from the state `st` on; `buf` is the buffer from the pointer on. -/
def xorInto (st : Words) (buf : Bytes) (len : ℤ) : Option Bytes :=
  if 0 < len then do
    let n := if len < 64 then len else 64
    let buf ← chacha20XorKsInto buf (chacha20Core st) n
    let rest ← xorInto (st.put 12 (st.word 12 + 1)) (buf.drop n.toNat) (len - n)
    some (buf.take n.toNat ++ rest)
  else some buf
termination_by len.toNat
decreasing_by split <;> omega

/-- `chacha20_xor`. -/
def chacha20XorInto (key nonce buf : Bytes) (len : ℤ) : Option Bytes :=
  xorInto (chacha20Setup key nonce 0) buf len

/-! ### What is meant -/

/-- The blocks at consecutive counters, one after the other. -/
def chacha20Stream (key nonce : Bytes) (counter : UInt32) (blocks : ℕ) : Bytes :=
  (List.range blocks).flatMap fun i => chacha20Block key nonce (counter + .ofNat i)

/-- What the entry points owe each other, for one key and one nonce. -/
structure EntryPointsAgree (key nonce : Bytes) : Prop where
  /-- The keystream is the start of the blocks from the counter on. -/
  keystream : ∀ (counter : UInt32) (out : Bytes) (len : ℤ) (blocks : ℕ), len ≤ 64 * blocks →
    chacha20KeystreamInto key nonce counter out len =
      if len ≤ out.length then
        some ((chacha20Stream key nonce counter blocks).take len.toNat ++ out.drop len.toNat)
      else none
  /-- The cipher is the exclusive or with the blocks from counter zero on. -/
  xor : ∀ (buf : Bytes) (len : ℤ) (blocks : ℕ), len ≤ 64 * blocks →
    chacha20XorInto key nonce buf len =
      if len ≤ buf.length then
        some (Bytes.xorBytes (buf.take len.toNat)
          ((chacha20Stream key nonce 0 blocks).take len.toNat) ++ buf.drop len.toNat)
      else none
  /-- Twice, it restores the buffer. -/
  twice : ∀ (buf out : Bytes) (len : ℤ), chacha20XorInto key nonce buf len = some out →
    chacha20XorInto key nonce out len = some buf
  /-- On at most one block it is the exclusive or with the block of counter zero. -/
  oneBlock : ∀ (buf : Bytes) (len : ℤ), len ≤ 64 →
    chacha20XorKsInto buf (chacha20Block key nonce 0) len = chacha20XorInto key nonce buf len

/-! ### The exclusive or with one block -/

/-- What the turns write. -/
theorem xorKsTurns_eq (n : ℕ) (buf ks : Bytes) :
    xorKsTurns n buf ks =
      if n ≤ buf.length ∧ n ≤ ks.length then
        some (Bytes.xorBytes (buf.take n) (ks.take n) ++ buf.drop n)
      else none := by
  induction n generalizing buf ks with
  | zero =>
      rw [if_pos ⟨Nat.zero_le _, Nat.zero_le _⟩, xorKsTurns]
      rfl
  | succ n ih =>
      cases buf with
      | nil =>
          rw [if_neg (by simp)]
          rfl
      | cons x buf =>
          cases ks with
          | nil =>
              rw [if_neg (by simp)]
              rfl
          | cons k ks =>
              rw [xorKsTurns, ih]
              simp only [List.length_cons, Nat.add_le_add_iff_right]
              split <;> rfl

/-- **The exclusive or with one block** needs as many bytes of the buffer and of the block. -/
theorem chacha20XorKsInto_eq (buf ks : Bytes) (len : ℤ) :
    chacha20XorKsInto buf ks len =
      if len ≤ buf.length ∧ len ≤ ks.length then
        some (Bytes.xorBytes (buf.take len.toNat) (ks.take len.toNat) ++ buf.drop len.toNat)
      else none := by
  rw [chacha20XorKsInto, xorKsTurns_eq]
  simp only [Int.toNat_le]

/-! ### The keystream -/

/-- The loop writes the bytes it computes, where there is room for them. -/
theorem keystreamInto_eq (st : Words) (out : Bytes) (len : ℤ) :
    keystreamInto st out len =
      if len ≤ out.length then
        some ((chacha20KeystreamBlocks st len).1 ++ out.drop len.toNat)
      else none := by
  induction st, out, len using keystreamInto.induct with
  | case1 st out len hwhole hroom =>
      rw [keystreamInto, if_pos hwhole, if_pos hroom, if_neg (by omega)]
  | case2 st out len hwhole hroom ih =>
      have hiff : len - 64 ≤ ((out.drop 64).length : ℤ) ↔ len ≤ out.length := by
        rw [List.length_drop]
        omega
      have hdrop : 64 + (len - 64).toNat = len.toNat := by omega
      have hblocks : (chacha20KeystreamBlocks st len).1 = chacha20Core st ++
          (chacha20KeystreamBlocks (st.put 12 (st.word 12 + 1)) (len - 64)).1 := by
        rw [chacha20KeystreamBlocks, if_pos hwhole]
      rw [keystreamInto, if_pos hwhole, if_neg hroom, ih, hblocks]
      simp only [hiff, List.drop_drop, hdrop]
      split
      · rw [Option.map_some, List.append_assoc]
      · rfl
  | case3 st out len hwhole htail hroom =>
      rw [keystreamInto, if_neg hwhole, if_pos htail, if_pos hroom, if_neg (by omega)]
  | case4 st out len hwhole htail hroom =>
      rw [keystreamInto, if_neg hwhole, if_pos htail, if_neg hroom, if_pos (by omega),
        chacha20KeystreamBlocks, if_neg hwhole, if_pos htail]
  | case5 st out len hwhole htail =>
      rw [keystreamInto, if_neg hwhole, if_neg htail, if_pos (by omega), chacha20KeystreamBlocks,
        if_neg hwhole, if_neg htail, Int.toNat_of_nonpos (Int.not_lt.mp htail)]
      rfl

theorem length_chacha20Stream (key nonce : Bytes) (counter : UInt32) (blocks : ℕ) :
    (chacha20Stream key nonce counter blocks).length = 64 * blocks := by
  rw [chacha20Stream, ← chacha20KeystreamLoop_eq, length_chacha20KeystreamLoop]

/-- The blocks of a run that is long enough all start with the same bytes. -/
theorem take_chacha20Stream (key nonce : Bytes) (counter : UInt32) {len m n : ℕ}
    (hm : len ≤ 64 * m) (hmn : m ≤ n) :
    (chacha20Stream key nonce counter n).take len =
      (chacha20Stream key nonce counter m).take len := by
  obtain ⟨k, rfl⟩ := Nat.exists_eq_add_of_le hmn
  have hlen : len ≤ (chacha20Stream key nonce counter m).length := by
    rwa [length_chacha20Stream]
  rw [chacha20Stream, List.range_add, List.flatMap_append]
  exact List.take_append_of_le_length hlen

/-- The bytes the loop computes are the start of the blocks from the counter on. -/
theorem chacha20KeystreamBlocks_eq_take (key nonce : Bytes) (counter : UInt32) {len : ℤ}
    {blocks : ℕ} (h : len ≤ 64 * blocks) :
    (chacha20KeystreamBlocks (chacha20Setup key nonce counter) len).1 =
      (chacha20Stream key nonce counter blocks).take len.toNat := by
  rcases Int.le_total 0 len with hlen | hlen
  · obtain ⟨n, rfl⟩ := Int.eq_ofNat_of_zero_le hlen
    rw [chacha20KeystreamBlocks_eq, chacha20Keystream, chacha20KeystreamLoop_eq]
    exact (take_chacha20Stream key nonce counter (by omega) (by omega)).symm
  · have hnil := length_chacha20KeystreamBlocks (chacha20Setup key nonce counter) len
    rw [Int.toNat_of_nonpos hlen] at hnil ⊢
    exact List.eq_nil_of_length_eq_zero hnil

/-- **The keystream** is the start of the blocks from the counter on. -/
theorem chacha20KeystreamInto_eq (key nonce : Bytes) (counter : UInt32) (out : Bytes) {len : ℤ}
    {blocks : ℕ} (h : len ≤ 64 * blocks) :
    chacha20KeystreamInto key nonce counter out len =
      if len ≤ out.length then
        some ((chacha20Stream key nonce counter blocks).take len.toNat ++ out.drop len.toNat)
      else none := by
  rw [chacha20KeystreamInto, keystreamInto_eq, chacha20KeystreamBlocks_eq_take key nonce counter h]

/-! ### The cipher -/

/-- The keystream of a length that is not zero: the start of a block, and what follows it. -/
theorem chacha20KeystreamBlocks_of_pos (st : Words) {len n : ℤ} (hpos : 0 < len)
    (hn : n = if len < 64 then len else 64) :
    (chacha20KeystreamBlocks st len).1 = (chacha20Core st).take n.toNat ++
      (chacha20KeystreamBlocks (st.put 12 (st.word 12 + 1)) (len - n)).1 := by
  by_cases hshort : len < 64
  · rw [if_pos hshort] at hn
    subst hn
    have hnil : (chacha20KeystreamBlocks (st.put 12 (st.word 12 + 1)) 0).1 = [] :=
      List.eq_nil_of_length_eq_zero (length_chacha20KeystreamBlocks _ 0)
    rw [chacha20KeystreamBlocks, if_neg (by omega), if_pos hpos, Int.sub_self, hnil,
      List.append_nil]
  · rw [if_neg hshort] at hn
    subst hn
    rw [chacha20KeystreamBlocks, if_pos (by omega)]
    exact congrArg (· ++ _) (List.take_of_length_le (length_chacha20Core st).le).symm

/-- The loop writes the exclusive or with the blocks it computes, where there is room. -/
theorem xorInto_eq (st : Words) (buf : Bytes) (len : ℤ) :
    xorInto st buf len =
      if len ≤ buf.length then
        some (Bytes.xorBytes (buf.take len.toNat) (chacha20KeystreamBlocks st len).1 ++
          buf.drop len.toNat)
      else none := by
  induction st, buf, len using xorInto.induct with
  | case1 st buf len hpos n ih =>
      have hn : n = if len < 64 then len else 64 := rfl
      have hle : 0 < n ∧ n ≤ len ∧ n ≤ 64 := by
        rw [hn]
        split <;> omega
      have hblock : n ≤ ((chacha20Core st).length : ℤ) := by
        rw [length_chacha20Core]
        exact hle.2.2
      rw [xorInto, if_pos hpos]
      dsimp only
      rw [← hn, chacha20XorKsInto_eq]
      by_cases hroom : n ≤ buf.length
      · -- the bytes of this block, and the buffer behind them
        generalize hx : Bytes.xorBytes (buf.take n.toNat) ((chacha20Core st).take n.toNat) = x
        have hlen : x.length = n.toNat := by
          rw [← hx, Bytes.length_xorBytes, List.length_take, List.length_take]
          omega
        have hiff : len - n ≤ ((buf.drop n.toNat).length : ℤ) ↔ len ≤ buf.length := by
          rw [List.length_drop]
          omega
        have hsplit : len.toNat = n.toNat + (len - n).toNat := by omega
        have hheads : (buf.take n.toNat).length = ((chacha20Core st).take n.toNat).length := by
          rw [List.length_take, List.length_take]
          omega
        rw [if_pos ⟨hroom, hblock⟩, Option.bind_eq_bind, Option.bind_some, ih,
          List.take_left' hlen, List.drop_left' hlen, chacha20KeystreamBlocks_of_pos st hpos hn,
          hsplit, List.take_add, Bytes.xorBytes_append hheads, hx, ← List.drop_drop]
        simp only [hiff]
        split
        · rw [Option.bind_some, List.append_assoc]
        · rfl
      · rw [if_neg fun h => hroom h.1, if_neg (by omega)]
        rfl
  | case2 st buf len hpos =>
      rw [xorInto, if_neg hpos, if_pos (by omega), Int.toNat_of_nonpos (Int.not_lt.mp hpos)]
      rfl

/-- **The cipher** is the exclusive or with the blocks from counter zero on. -/
theorem chacha20XorInto_eq (key nonce buf : Bytes) {len : ℤ} {blocks : ℕ}
    (h : len ≤ 64 * blocks) :
    chacha20XorInto key nonce buf len =
      if len ≤ buf.length then
        some (Bytes.xorBytes (buf.take len.toNat)
          ((chacha20Stream key nonce 0 blocks).take len.toNat) ++ buf.drop len.toNat)
      else none := by
  rw [chacha20XorInto, xorInto_eq, chacha20KeystreamBlocks_eq_take key nonce 0 h]

/-- The cipher of the encoder is the exclusive or with the blocks it draws. -/
theorem chacha20XorLoop_eq (blocks : ℕ) (st : Words) (buf : Bytes) :
    chacha20XorLoop blocks st buf = Bytes.xorBytes buf (chacha20KeystreamLoop blocks st) := by
  induction blocks generalizing st buf with
  | zero => exact List.zipWith_nil_right.symm
  | succ blocks ih =>
      rw [chacha20XorLoop, chacha20KeystreamLoop, ih, chacha20XorKs]
      by_cases hlong : 64 ≤ buf.length
      · have hhead : (buf.take 64).length = (chacha20Core st).length := by
          rw [List.length_take, length_chacha20Core]
          omega
        conv_rhs => rw [← List.take_append_drop 64 buf]
        exact (Bytes.xorBytes_append hhead _ _).symm
      · -- the last block: nothing of the buffer is left for the rest
        have hle : buf.length ≤ (chacha20Core st).length := by
          rw [length_chacha20Core]
          omega
        rw [List.take_of_length_le (by omega), List.drop_of_length_le (by omega),
          Bytes.xorBytes_append_right hle]
        exact List.append_nil _

/-- On a buffer of the length asked for it is the cipher of the encoder. -/
theorem chacha20XorInto_region (key nonce buf : Bytes) :
    chacha20XorInto key nonce buf buf.length = some (chacha20Xor key nonce buf) := by
  have hlen : (buf.length : ℤ) ≤ 64 * ((buf.length + 63) / 64 : ℕ) := by omega
  rw [chacha20XorInto_eq key nonce buf hlen, if_pos le_rfl, Int.toNat_natCast, List.take_length,
    List.drop_length, List.append_nil, Bytes.xorBytes_take_right, chacha20Xor, chacha20XorLoop_eq,
    chacha20KeystreamLoop_eq, chacha20Stream]

/-- Twice, the cipher restores the buffer. -/
theorem chacha20XorInto_twice {key nonce buf out : Bytes} {len : ℤ}
    (h : chacha20XorInto key nonce buf len = some out) :
    chacha20XorInto key nonce out len = some buf := by
  have hblocks : len ≤ 64 * (len.toNat : ℕ) := by omega
  rw [chacha20XorInto_eq key nonce _ hblocks] at h ⊢
  generalize hk : (chacha20Stream key nonce 0 len.toNat).take len.toNat = k at h ⊢
  have hkey : k.length = len.toNat := by
    rw [← hk, List.length_take, length_chacha20Stream]
    omega
  by_cases hroom : len ≤ buf.length
  · have htake : (buf.take len.toNat).length = len.toNat := by
      rw [List.length_take]
      omega
    have hhead : (Bytes.xorBytes (buf.take len.toNat) k).length = len.toNat := by
      rw [Bytes.length_xorBytes, htake, hkey, Nat.min_self]
    rw [if_pos hroom] at h
    obtain rfl := Option.some.inj h
    have hout :
        len ≤ ((Bytes.xorBytes (buf.take len.toNat) k ++ buf.drop len.toNat).length : ℤ) := by
      rw [List.length_append, hhead]
      omega
    rw [if_pos hout, List.take_left' hhead, List.drop_left' hhead,
      Bytes.xorBytes_xorBytes (by omega), List.take_append_drop]
  · rw [if_neg hroom] at h
    cases h

/-- **The entry points agree.** -/
theorem chacha20_entryPointsAgree (key nonce : Bytes) : EntryPointsAgree key nonce where
  keystream counter out _ _ h := chacha20KeystreamInto_eq key nonce counter out h
  xor buf _ _ h := chacha20XorInto_eq key nonce buf h
  twice _ _ _ h := chacha20XorInto_twice h
  oneBlock buf len h := by
    have hone : chacha20Stream key nonce 0 1 = chacha20Block key nonce 0 := List.append_nil _
    have hiff : len ≤ buf.length ∧ len ≤ ((chacha20Block key nonce 0).length : ℤ) ↔
        len ≤ buf.length := by
      rw [length_chacha20Block]
      exact and_iff_left h
    have hblocks : len ≤ 64 * (1 : ℕ) := h
    rw [chacha20XorKsInto_eq, chacha20XorInto_eq key nonce buf hblocks, hone]
    simp only [hiff]

end AwgProxy
