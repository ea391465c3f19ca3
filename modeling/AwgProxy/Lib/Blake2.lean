import Mathlib.Data.Fin.VecNotation
import Mathlib.Data.Nat.Sqrt
import Mathlib.Tactic.IntervalCases
import AwgProxy.Lib.HoldBack
import AwgProxy.Lib.Words

/-!
# BLAKE2 on 32-bit Words

The hash function as its standard defines it: a message, and a key in front of it, are cut into
data blocks of 64 bytes (`dataBlocks`), each block goes through the compression function once
(`compress`), with the number of bytes up to its end and a flag for the last one
(`compressions`), and the sum is the start of the chaining value (`hash`).

The data blocks are those of one stream, the key block and the message behind it, with the last
block held back (`dataBlocks_eq`): what a hash that takes the message in parts goes by.
-/

namespace Blake2

/-- The initial value: of the square roots of the first eight primes, the first 32 bits behind
the point. -/
def iv : Vector UInt32 8 :=
  #v[2, 3, 5, 7, 11, 13, 17, 19].map fun p => UInt32.ofNat (Nat.sqrt (p * 2 ^ 64))

/-- The message schedule. -/
def sigma : List (Fin 16 → Fin 16) :=
  [![0, 1, 2, 3, 4, 5, 6, 7, 8, 9, 10, 11, 12, 13, 14, 15],
    ![14, 10, 4, 8, 9, 15, 13, 6, 1, 12, 0, 2, 11, 7, 5, 3],
    ![11, 8, 12, 0, 5, 2, 15, 13, 10, 14, 3, 6, 7, 1, 9, 4],
    ![7, 9, 3, 1, 13, 12, 11, 14, 2, 6, 5, 10, 4, 0, 15, 8],
    ![9, 0, 5, 7, 2, 4, 10, 15, 14, 1, 11, 12, 6, 8, 3, 13],
    ![2, 12, 6, 10, 0, 11, 8, 3, 4, 13, 7, 5, 15, 14, 1, 9],
    ![12, 5, 1, 15, 14, 13, 4, 10, 0, 7, 6, 3, 9, 2, 8, 11],
    ![13, 11, 7, 14, 12, 1, 3, 9, 5, 0, 15, 4, 8, 6, 2, 10],
    ![6, 15, 14, 9, 11, 3, 0, 8, 12, 2, 13, 7, 1, 4, 10, 5],
    ![10, 2, 8, 4, 7, 6, 1, 5, 15, 11, 9, 14, 3, 12, 13, 0]]

/-- A word rotated to the right. -/
def rotateRight (x : UInt32) (n : ℕ) : UInt32 :=
  ⟨x.toBitVec.rotateRight n⟩

/-- The mixing function: one step after the other, on the words `a`, `b`, `c`, `d` of the working
vector. -/
def mix (v : Words) (a b c d : Fin 16) (x y : UInt32) : Words :=
  let v := v.put a (v.word a + v.word b + x)
  let v := v.put d (rotateRight (v.word d ^^^ v.word a) 16)
  let v := v.put c (v.word c + v.word d)
  let v := v.put b (rotateRight (v.word b ^^^ v.word c) 12)
  let v := v.put a (v.word a + v.word b + y)
  let v := v.put d (rotateRight (v.word d ^^^ v.word a) 8)
  let v := v.put c (v.word c + v.word d)
  v.put b (rotateRight (v.word b ^^^ v.word c) 7)

/-- One round: the columns, then the diagonals, with the message words in the order `s`. -/
def round (m v : Words) (s : Fin 16 → Fin 16) : Words :=
  let v := mix v 0 4 8 12 (m.word (s 0)) (m.word (s 1))
  let v := mix v 1 5 9 13 (m.word (s 2)) (m.word (s 3))
  let v := mix v 2 6 10 14 (m.word (s 4)) (m.word (s 5))
  let v := mix v 3 7 11 15 (m.word (s 6)) (m.word (s 7))
  let v := mix v 0 5 10 15 (m.word (s 8)) (m.word (s 9))
  let v := mix v 1 6 11 12 (m.word (s 10)) (m.word (s 11))
  let v := mix v 2 7 8 13 (m.word (s 12)) (m.word (s 13))
  mix v 3 4 9 14 (m.word (s 14)) (m.word (s 15))

/-- The working vector before the rounds: the chaining value and the initial value, with the two
words of the count of bytes and the flag. -/
def workVector (h : Vector UInt32 8) (count : ℕ) (last : Bool) : Words :=
  let v : Words := h ++ iv
  let v := v.put 12 (v.word 12 ^^^ .ofNat count)
  let v := v.put 13 (v.word 13 ^^^ .ofNat (count / 2 ^ 32))
  if last then v.put 14 (v.word 14 ^^^ 0xFFFFFFFF) else v

/-- The compression function, on the words of a block. -/
def compress (h : Vector UInt32 8) (m : Words) (count : ℕ) (last : Bool) : Vector UInt32 8 :=
  let v := sigma.foldl (round m) (workVector h count last)
  Vector.ofFn fun i : Fin 8 => h.get i ^^^ v.word (i.castAdd 8) ^^^ v.word (i.natAdd 8)

/-- The sixteen words of a block. -/
def wordsOf (block : Bytes) : Words :=
  Vector.ofFn fun i : Fin 16 => .ofNat (Bytes.leNat (block.slice (4 * i) 4))

/-- Up to a block, with zeros. -/
def pad (b : Bytes) : Bytes :=
  b ++ List.replicate (64 - b.length) 0

/-- The data blocks: the key, if there is one, and the pieces of the message, each padded; a
single block of zeros where there is neither. -/
def dataBlocks (key msg : Bytes) : List Bytes :=
  if key = [] ∧ msg = [] then [pad []]
  else (if key = [] then [] else [pad key]) ++ (Bytes.chunks 64 msg).map pad

/-- One use of the compression function. -/
structure Compression where
  block : Bytes
  /-- The bytes up to the end of the block. -/
  count : ℕ
  /-- It is the last one. -/
  last : Bool
  deriving DecidableEq

/-- The compressions of a message: the blocks but the last by the bytes up to their ends, and the
last one by the length of the message, and of the key block. -/
def compressions (key msg : Bytes) : List Compression :=
  let d := dataBlocks key msg
  (d.dropLast.mapIdx fun i b => ⟨b, (i + 1) * 64, false⟩) ++
    [⟨d.getLastD [], if key = [] then msg.length else msg.length + 64, true⟩]

/-- The chaining value before the first block, for sums of `nn` bytes and a key of `kk`. -/
def start (nn kk : ℕ) : Vector UInt32 8 :=
  iv.mapIdx fun i w =>
    if i = 0 then w ^^^ (0x01010000 : UInt32) ^^^ (UInt32.ofNat kk <<< 8) ^^^ UInt32.ofNat nn else w

/-- **The sum** of `nn` bytes. -/
def hash (nn : ℕ) (key msg : Bytes) : Bytes :=
  let h := (compressions key msg).foldl
    (fun h c => compress h (wordsOf c.block) c.count c.last) (start nn key.length)
  (h.toList.flatMap fun w => Bytes.leBytes 4 w.toNat).take nn

/-- The sum of a short text. -/
example : hash 32 [] [97, 98, 99] =
    [0x50, 0x8c, 0x5e, 0x8c, 0x32, 0x7c, 0x14, 0xe2, 0xe1, 0xa7, 0x2b, 0xa3, 0x4e, 0xeb, 0x45, 0x2f,
      0x37, 0x45, 0x8b, 0x20, 0x9e, 0xd6, 0x3a, 0x29, 0x4d, 0x99, 0x9b, 0x4c, 0x86, 0x67, 0x59,
      0x82] := by
  decide +kernel

/-- A chaining value and a table with the count and the flag in place, written out. -/
theorem words_append (h w : Vector UInt32 8) (lo hi : UInt32) (last : Bool) :
    (let v : Words := h ++ w
      let v := v.put 12 (v.word 12 ^^^ lo)
      let v := v.put 13 (v.word 13 ^^^ hi)
      if last then v.put 14 (v.word 14 ^^^ 0xFFFFFFFF) else v) =
      #v[h.get 0, h.get 1, h.get 2, h.get 3, h.get 4, h.get 5, h.get 6, h.get 7, w.get 0, w.get 1,
        w.get 2, w.get 3, w.get 4 ^^^ lo, w.get 5 ^^^ hi,
        if last then w.get 6 ^^^ 0xFFFFFFFF else w.get 6, w.get 7] := by
  have happend : (h ++ w : Words) = #v[h.get 0, h.get 1, h.get 2, h.get 3, h.get 4, h.get 5,
      h.get 6, h.get 7, w.get 0, w.get 1, w.get 2, w.get 3, w.get 4, w.get 5, w.get 6,
      w.get 7] := by
    refine Vector.ext fun i hi => ?_
    rw [Vector.getElem_append]
    interval_cases i <;> rfl
  rw [happend]
  cases last <;> rfl

/-- The working vector, word by word. -/
theorem workVector_eq (h : Vector UInt32 8) (count : ℕ) (last : Bool) :
    workVector h count last =
      #v[h.get 0, h.get 1, h.get 2, h.get 3, h.get 4, h.get 5, h.get 6, h.get 7, iv.get 0,
        iv.get 1, iv.get 2, iv.get 3, iv.get 4 ^^^ .ofNat count,
        iv.get 5 ^^^ .ofNat (count / 2 ^ 32), if last then iv.get 6 ^^^ 0xFFFFFFFF else iv.get 6,
        iv.get 7] :=
  words_append h iv (.ofNat count) (.ofNat (count / 2 ^ 32)) last

/-! ### The data blocks as a stream -/

/-- The bytes of the data blocks, up to the end of the message. -/
def stream (key msg : Bytes) : Bytes :=
  (if key = [] then [] else pad key) ++ msg

theorem length_pad {b : Bytes} (h : b.length ≤ 64) : (pad b).length = 64 := by
  rw [pad, List.length_append, List.length_replicate]
  omega

/-- A whole block needs no zeros. -/
theorem pad_of_length {b : Bytes} (h : b.length = 64) : pad b = b := by
  rw [pad, h, Nat.sub_self, List.replicate_zero, List.append_nil]

/-- Padding the pieces is padding the last one. -/
theorem map_pad_chunks {msg : Bytes} (h : msg ≠ []) :
    (Bytes.chunks 64 msg).map pad = (holdBack 64 msg).1 ++ [pad (holdBack 64 msg).2] := by
  have hwhole : (holdBack 64 msg).1.map pad = (holdBack 64 msg).1 :=
    (List.map_congr_left fun b hb =>
      pad_of_length (length_of_mem_holdBack (by decide) msg b hb)).trans (List.map_id _)
  rw [Bytes.chunks_eq_holdBack (by decide) h, List.map_append, hwhole]
  rfl

/-- **The data blocks** are the stream with its last block held back, and that one padded. -/
theorem dataBlocks_eq {key : Bytes} (hkey : key.length ≤ 64) (msg : Bytes) :
    dataBlocks key msg =
      (holdBack 64 (stream key msg)).1 ++ [pad (holdBack 64 (stream key msg)).2] := by
  by_cases hmsg : msg = []
  · subst hmsg
    by_cases hnone : key = []
    · rw [dataBlocks, if_pos ⟨hnone, rfl⟩, stream, if_pos hnone,
        holdBack_of_le (Nat.zero_le _)]
      rfl
    · have hlen := length_pad hkey
      rw [dataBlocks, if_neg fun h => hnone h.1, if_neg hnone, stream, if_neg hnone,
        List.append_nil, holdBack_of_le hlen.le, pad_of_length hlen, Bytes.chunks_nil (by decide)]
      rfl
  · rw [dataBlocks, if_neg fun h => hmsg h.2, map_pad_chunks hmsg, stream]
    split_ifs with hnone
    · rfl
    · rw [holdBack_append_of_length (by decide) (length_pad hkey) hmsg]
      rfl

/-- The length of the stream is the count of the last block. -/
theorem length_stream {key : Bytes} (hkey : key.length ≤ 64) (msg : Bytes) :
    (stream key msg).length = if key = [] then msg.length else msg.length + 64 := by
  rw [stream, List.length_append]
  split_ifs
  · exact Nat.zero_add _
  · rw [length_pad hkey, Nat.add_comm]

/-- **The compressions**, by the stream. -/
theorem compressions_eq {key : Bytes} (hkey : key.length ≤ 64) (msg : Bytes) :
    compressions key msg =
      ((holdBack 64 (stream key msg)).1.mapIdx fun i b => ⟨b, (i + 1) * 64, false⟩) ++
        [⟨pad (holdBack 64 (stream key msg)).2, (stream key msg).length, true⟩] := by
  rw [compressions, dataBlocks_eq hkey, ← length_stream hkey, List.dropLast_concat,
    List.getLastD_concat]

end Blake2
