import AwgProxy.Lib.Bytes
import AwgProxy.Lib.Words

/-!
# BLAKE2s and MAC1

The hash of `blake2s.c` as it streams, a state that buffers up to one block, and the keyed
sums WireGuard puts into its handshakes. `blake2s128mac` is what the proxy compares when it
looks for the peer of a handshake and what it writes when it has changed the type word;
the sum always has sixteen bytes (`length_blake2s128mac`).
-/

namespace AwgProxy

/-- `blake2s_iv`. -/
def blake2sIv : Vector UInt32 8 :=
  #v[0x6A09E667, 0xBB67AE85, 0x3C6EF372, 0xA54FF53A,
    0x510E527F, 0x9B05688C, 0x1F83D9AB, 0x5BE0CD19]

/-- `blake2s_sigma`: the message schedule. -/
def blake2sSigma : Vector (Vector (Fin 16) 16) 10 :=
  #v[#v[0, 1, 2, 3, 4, 5, 6, 7, 8, 9, 10, 11, 12, 13, 14, 15],
    #v[14, 10, 4, 8, 9, 15, 13, 6, 1, 12, 0, 2, 11, 7, 5, 3],
    #v[11, 8, 12, 0, 5, 2, 15, 13, 10, 14, 3, 6, 7, 1, 9, 4],
    #v[7, 9, 3, 1, 13, 12, 11, 14, 2, 6, 5, 10, 4, 0, 15, 8],
    #v[9, 0, 5, 7, 2, 4, 10, 15, 14, 1, 11, 12, 6, 8, 3, 13],
    #v[2, 12, 6, 10, 0, 11, 8, 3, 4, 13, 7, 5, 15, 14, 1, 9],
    #v[12, 5, 1, 15, 14, 13, 4, 10, 0, 7, 6, 3, 9, 2, 8, 11],
    #v[13, 11, 7, 14, 12, 1, 3, 9, 5, 0, 15, 4, 8, 6, 2, 10],
    #v[6, 15, 14, 9, 11, 3, 0, 8, 12, 2, 13, 7, 1, 4, 10, 5],
    #v[10, 2, 8, 4, 7, 6, 1, 5, 15, 11, 9, 14, 3, 12, 13, 0]]

/-- `rotr32`: rotate right. -/
def rotr32 (x n : UInt32) : UInt32 :=
  (x >>> n) ||| (x <<< (32 - n))

/-- `G`: the mixing of the words `a`, `b`, `c`, `d` with two message words. -/
def blake2sG (v : Words) (a b c d : Fin 16) (x y : UInt32) : Words :=
  let va := v.word a + (v.word b + x)
  let vd := rotr32 (v.word d ^^^ va) 16
  let vc := v.word c + vd
  let vb := rotr32 (v.word b ^^^ vc) 12
  let va := va + (vb + y)
  let vd := rotr32 (vd ^^^ va) 8
  let vc := vc + vd
  let vb := rotr32 (vb ^^^ vc) 7
  (((v.put a va).put b vb).put c vc).put d vd

/-- One of the ten rounds of `blake2s_compress`. -/
def blake2sRound (m : Words) (v : Words) (s : Vector (Fin 16) 16) : Words :=
  let v := blake2sG v 0 4 8 12 (m.word s[0]) (m.word s[1])
  let v := blake2sG v 1 5 9 13 (m.word s[2]) (m.word s[3])
  let v := blake2sG v 2 6 10 14 (m.word s[4]) (m.word s[5])
  let v := blake2sG v 3 7 11 15 (m.word s[6]) (m.word s[7])
  let v := blake2sG v 0 5 10 15 (m.word s[8]) (m.word s[9])
  let v := blake2sG v 1 6 11 12 (m.word s[10]) (m.word s[11])
  let v := blake2sG v 2 7 8 13 (m.word s[12]) (m.word s[13])
  blake2sG v 3 4 9 14 (m.word s[14]) (m.word s[15])

/-- `blake2s_compress`: the chaining value after one block of 64 bytes. -/
def blake2sCompress (h : Vector UInt32 8) (block : Bytes) (t0 t1 : UInt32) (last : Bool) :
    Vector UInt32 8 :=
  let m : Words := Vector.ofFn fun i : Fin 16 => UInt32.ofNat (Bytes.leNat (block.slice (i * 4) 4))
  let v14 := if last then blake2sIv[6] ^^^ 0xFFFFFFFF else blake2sIv[6]
  let v : Words :=
    #v[h[0], h[1], h[2], h[3], h[4], h[5], h[6], h[7],
      blake2sIv[0], blake2sIv[1], blake2sIv[2], blake2sIv[3],
      t0 ^^^ blake2sIv[4], t1 ^^^ blake2sIv[5], v14, blake2sIv[7]]
  let v := blake2sSigma.toList.foldl (blake2sRound m) v
  Vector.ofFn fun i : Fin 8 => h[i] ^^^ (v.word (i.castAdd 8) ^^^ v.word (i.natAdd 8))

/-- `blake2s_state`. The buffer has 64 bytes, of which `buflen` are in use. -/
structure Blake2sState where
  /-- The chaining value. -/
  h : Vector UInt32 8
  /-- The low word of the byte counter. -/
  t0 : UInt32
  /-- The high word of the byte counter. -/
  t1 : UInt32
  /-- The block buffer. -/
  buf : Bytes
  /-- The bytes of the buffer in use. -/
  buflen : ℕ
  /-- The length of the sum. -/
  nn : ℕ

/-- `blake2s_init`: a fresh state; a key fills the first block. -/
def blake2sInit (nn : ℕ) (key : Bytes) : Blake2sState where
  h := blake2sIv.set 0
    (blake2sIv[0] ^^^ ((0x01010000 : UInt32) ||| (UInt32.ofNat key.length <<< 8) |||
      UInt32.ofNat nn))
  t0 := 0
  t1 := 0
  buf := Bytes.patch (List.replicate 64 0) 0 key
  buflen := if key.length > 0 then 64 else 0
  nn := nn

/-- A whole block compressed: the counter advances by 64 first. -/
def blake2sBlock (st : Blake2sState) (block : Bytes) : Blake2sState :=
  let t0 := st.t0 + 64
  let t1 := if t0 < 64 then st.t1 + 1 else st.t1
  { st with h := blake2sCompress st.h block t0 t1 false, t0 := t0, t1 := t1 }

/-- The loop of `blake2s_update` over `blocks` whole blocks of the input. -/
def blake2sUpdateLoop : ℕ → Blake2sState → Bytes → Blake2sState × Bytes
  | 0, st, data => (st, data)
  | blocks + 1, st, data => blake2sUpdateLoop blocks (blake2sBlock st (data.take 64))
      (data.drop 64)

/-- `blake2s_update`. The last block, whole or not, stays in the buffer: the loop runs
while more than 64 bytes are left, `(len - 1) / 64` times. -/
def blake2sUpdate (st : Blake2sState) (data : Bytes) : Blake2sState :=
  if data.length = 0 then st
  else
    let fill := 64 - st.buflen
    let (st, data) :=
      if data.length > fill then
        let st := { st with buf := st.buf.patch st.buflen (data.take fill) }
        let st := { blake2sBlock st st.buf with buflen := 0 }
        let data := data.drop fill
        blake2sUpdateLoop ((data.length - 1) / 64) st data
      else (st, data)
    { st with buf := st.buf.patch st.buflen data, buflen := st.buflen + data.length }

/-- `blake2s_final`: the last block, zero-padded and flagged. -/
def blake2sFinal (st : Blake2sState) : Bytes :=
  let n := UInt32.ofNat st.buflen
  let t0 := st.t0 + n
  let t1 := if t0 < n then st.t1 + 1 else st.t1
  let buf := st.buf.patch st.buflen (List.replicate (64 - st.buflen) 0)
  (blake2sCompress st.h buf t0 t1 true).toList.flatMap fun w => Bytes.leBytes 4 w.toNat

/-- `blake2s_256`. -/
def blake2s256 (data : Bytes) : Bytes :=
  blake2sFinal (blake2sUpdate (blake2sInit 32 []) data)

/-- `blake2s_128mac`: the keyed sum of sixteen bytes. -/
def blake2s128mac (key data : Bytes) : Bytes :=
  (blake2sFinal (blake2sUpdate (blake2sInit 16 key) data)).take 16

/-- `compute_mac1_key`: the MAC1 key of a public key. -/
def computeMac1Key (pubkey : Bytes) : Bytes :=
  blake2s256 ("mac1----".toUTF8.toList ++ pubkey)

theorem length_blake2sFinal (st : Blake2sState) : (blake2sFinal st).length = 32 := by
  simp [blake2sFinal, List.length_flatMap]

/-- A sum has sixteen bytes. -/
@[simp] theorem length_blake2s128mac (key data : Bytes) :
    (blake2s128mac key data).length = 16 := by
  simp [blake2s128mac, length_blake2sFinal]

end AwgProxy
