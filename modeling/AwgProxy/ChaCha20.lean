import Mathlib.Logic.Function.Iterate
import AwgProxy.Lib.Bytes
import AwgProxy.Lib.Words

/-!
# ChaCha20

The stream cipher of `chacha20.c`: the core on sixteen 32-bit words, the single block the
decoder computes per packet, and the in-place exclusive or of the encoder. Header
protection relies on three facts about them: the cipher keeps lengths
(`length_chacha20Xor`), it undoes itself (`chacha20Xor_chacha20Xor`), and on at most one
block it is the exclusive or with the block of counter zero
(`chacha20Xor_eq_xorBytes_chacha20Block`), which lets one cached block stand for the
whole cipher.
-/

namespace AwgProxy

/-- `rotl32`: rotate left. -/
def rotl32 (x n : UInt32) : UInt32 :=
  (x <<< n) ||| (x >>> (32 - n))

/-- `QR`: the quarter round on the words `a`, `b`, `c`, `d` of the state. -/
def chacha20QR (x : Words) (a b c d : Fin 16) : Words :=
  let va := x.word a + x.word b
  let vd := rotl32 (x.word d ^^^ va) 16
  let vc := x.word c + vd
  let vb := rotl32 (x.word b ^^^ vc) 12
  let va := va + vb
  let vd := rotl32 (vd ^^^ va) 8
  let vc := vc + vd
  let vb := rotl32 (vb ^^^ vc) 7
  (((x.put a va).put b vb).put c vc).put d vd

/-- One turn of the loop of `chacha20_core`: a column round and a diagonal round. -/
def chacha20DoubleRound (x : Words) : Words :=
  let x := chacha20QR x 0 4 8 12
  let x := chacha20QR x 1 5 9 13
  let x := chacha20QR x 2 6 10 14
  let x := chacha20QR x 3 7 11 15
  let x := chacha20QR x 0 5 10 15
  let x := chacha20QR x 1 6 11 12
  let x := chacha20QR x 2 7 8 13
  chacha20QR x 3 4 9 14

/-- `chacha20_core`: ten double rounds, added to the input, as 64 bytes. -/
def chacha20Core (inp : Words) : Bytes :=
  let x := chacha20DoubleRound^[10] inp
  (List.finRange 16).flatMap fun i => Bytes.leBytes 4 (x.word i + inp.word i).toNat

/-- The 32-bit little-endian word at offset `off`. -/
def load32Le (b : Bytes) (off : ℕ) : UInt32 :=
  UInt32.ofNat (Bytes.leNat (b.slice off 4))

/-- `chacha20_setup`: constants, key, counter and nonce. -/
def chacha20Setup (key nonce : Bytes) (counter : UInt32) : Words :=
  #v[0x61707865, 0x3320646E, 0x79622D32, 0x6B206574,
    load32Le key 0, load32Le key 4, load32Le key 8, load32Le key 12,
    load32Le key 16, load32Le key 20, load32Le key 24, load32Le key 28,
    counter, load32Le nonce 0, load32Le nonce 4, load32Le nonce 8]

/-- `chacha20_block`: one 64-byte keystream block. -/
def chacha20Block (key nonce : Bytes) (counter : UInt32) : Bytes :=
  chacha20Core (chacha20Setup key nonce counter)

/-- `chacha20_xor_ks`: the exclusive or with at most one keystream block. -/
def chacha20XorKs (buf ks : Bytes) : Bytes :=
  Bytes.xorBytes buf ks

/-- The loop of `chacha20_xor` over `blocks` keystream blocks. -/
def chacha20XorLoop : ℕ → Words → Bytes → Bytes
  | 0, _, _ => []
  | blocks + 1, st, buf =>
      chacha20XorKs (buf.take 64) (chacha20Core st) ++
        chacha20XorLoop blocks (st.put 12 (st.word 12 + 1)) (buf.drop 64)

/-- `chacha20_xor`: the exclusive or of `buf` with the keystream from counter zero. -/
def chacha20Xor (key nonce buf : Bytes) : Bytes :=
  chacha20XorLoop ((buf.length + 63) / 64) (chacha20Setup key nonce 0) buf

@[simp] theorem length_chacha20Core (inp : Words) :
    (chacha20Core inp).length = 64 := by
  simp [chacha20Core, List.length_flatMap]

@[simp] theorem length_chacha20Block (key nonce : Bytes) (counter : UInt32) :
    (chacha20Block key nonce counter).length = 64 :=
  length_chacha20Core _

/-- Enough blocks cover the buffer exactly. -/
theorem length_chacha20XorLoop {blocks : ℕ} (st : Words) {buf : Bytes}
    (h : buf.length ≤ 64 * blocks) : (chacha20XorLoop blocks st buf).length = buf.length := by
  induction blocks generalizing st buf with
  | zero =>
      have : buf.length = 0 := by omega
      simp [chacha20XorLoop, this]
  | succ blocks ih =>
      rw [chacha20XorLoop, List.length_append,
        ih _ (by rw [List.length_drop]; omega), chacha20XorKs, Bytes.length_xorBytes,
        length_chacha20Core, List.length_take, List.length_drop]
      omega

/-- The cipher keeps the length. -/
@[simp] theorem length_chacha20Xor (key nonce buf : Bytes) :
    (chacha20Xor key nonce buf).length = buf.length :=
  length_chacha20XorLoop _ (by omega)

/-- The loop undoes itself: both passes draw the same keystream blocks. -/
theorem chacha20XorLoop_chacha20XorLoop {blocks : ℕ} (st : Words) {buf : Bytes}
    (h : buf.length ≤ 64 * blocks) :
    chacha20XorLoop blocks st (chacha20XorLoop blocks st buf) = buf := by
  induction blocks generalizing st buf with
  | zero =>
      have hb : buf = [] := List.eq_nil_of_length_eq_zero (by omega)
      rw [hb]
      rfl
  | succ blocks ih =>
      have hhead : (chacha20XorKs (buf.take 64) (chacha20Core st)).length =
          min 64 buf.length := by
        rw [chacha20XorKs, Bytes.length_xorBytes, length_chacha20Core, List.length_take]
        omega
      have hleft : (buf.drop 64).length ≤ 64 * blocks := by
        rw [List.length_drop]
        omega
      have hrest := ih (st.put 12 (st.word 12 + 1)) hleft
      by_cases hlong : 64 ≤ buf.length
      · have hlen : (chacha20XorKs (buf.take 64) (chacha20Core st)).length = 64 := by omega
        rw [chacha20XorLoop, chacha20XorLoop, List.take_append_of_le_length (by omega),
          List.take_of_length_le (by omega), List.drop_append_of_le_length (by omega),
          List.drop_of_length_le (by omega), List.nil_append, hrest, chacha20XorKs,
          chacha20XorKs, Bytes.xorBytes_xorBytes (by simp), List.take_append_drop]
      · -- the last block: nothing is left for the rest of the loop
        have hone : ∀ b : Bytes, b.length ≤ 64 →
            chacha20XorLoop (blocks + 1) st b = chacha20XorKs b (chacha20Core st) := by
          intro b hb
          have hnil : chacha20XorLoop blocks (st.put 12 (st.word 12 + 1)) [] = [] :=
            List.eq_nil_of_length_eq_zero (length_chacha20XorLoop _ (by simp))
          rw [chacha20XorLoop, List.take_of_length_le hb, List.drop_of_length_le hb, hnil,
            List.append_nil]
        have hle : buf.length ≤ (chacha20Core st).length := by
          rw [length_chacha20Core]
          omega
        rw [hone buf (by omega), hone _ (by simp [chacha20XorKs]), chacha20XorKs,
          chacha20XorKs, Bytes.xorBytes_xorBytes hle]

/-- The cipher undoes itself. -/
theorem chacha20Xor_chacha20Xor (key nonce buf : Bytes) :
    chacha20Xor key nonce (chacha20Xor key nonce buf) = buf := by
  unfold chacha20Xor
  rw [length_chacha20XorLoop _ (by omega)]
  exact chacha20XorLoop_chacha20XorLoop _ (by omega)

/-- On at most one block the cipher is the exclusive or with the block of counter
zero. -/
theorem chacha20Xor_eq_xorBytes_chacha20Block (key nonce : Bytes) {buf : Bytes}
    (h : buf.length ≤ 64) :
    chacha20Xor key nonce buf = chacha20XorKs buf (chacha20Block key nonce 0) := by
  rcases Nat.eq_zero_or_pos buf.length with h0 | h0
  · obtain rfl := List.eq_nil_of_length_eq_zero h0
    rfl
  · have hblocks : (buf.length + 63) / 64 = 1 := by omega
    rw [chacha20Xor, hblocks, chacha20XorLoop, chacha20XorLoop, List.append_nil,
      List.take_of_length_le h]
    rfl

/-- The first bytes of the cipher depend on the first bytes of the buffer alone. -/
theorem take_chacha20Xor (key nonce : Bytes) {buf : Bytes} {n : ℕ} (hn : n ≤ 64)
    (hb : n ≤ buf.length) :
    (chacha20Xor key nonce buf).take n =
      Bytes.xorBytes (buf.take n) ((chacha20Block key nonce 0).take n) := by
  rcases Nat.eq_zero_or_pos n with rfl | h0
  · rfl
  · obtain ⟨k, hk⟩ : ∃ k, (buf.length + 63) / 64 = k + 1 :=
      ⟨(buf.length + 63) / 64 - 1, by omega⟩
    have hlen : n ≤ (chacha20XorKs (buf.take 64)
        (chacha20Core (chacha20Setup key nonce 0))).length := by
      rw [chacha20XorKs, Bytes.length_xorBytes, length_chacha20Core, List.length_take]
      omega
    rw [chacha20Xor, hk, chacha20XorLoop, List.take_append_of_le_length hlen, chacha20XorKs,
      Bytes.take_xorBytes, List.take_take, Nat.min_eq_left hn, chacha20Block]

/-- The first word of the cipher is the first word of the buffer, masked. -/
theorem load32Le_chacha20Xor (key nonce : Bytes) {buf : Bytes} (hb : 4 ≤ buf.length) :
    load32Le (chacha20Xor key nonce buf) 0 =
      load32Le buf 0 ^^^ load32Le (chacha20Block key nonce 0) 0 := by
  have hlen : (buf.take 4).length = ((chacha20Block key nonce 0).take 4).length := by
    rw [List.length_take, List.length_take, length_chacha20Block]
    omega
  simp only [load32Le, Bytes.slice, List.drop_zero]
  rw [take_chacha20Xor key nonce (by omega) hb, Bytes.leNat_xorBytes hlen, UInt32.ofNat_xor]

end AwgProxy
