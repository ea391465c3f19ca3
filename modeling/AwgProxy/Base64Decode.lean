import AwgProxy.Base64
import AwgProxy.HostPorts

/-!
# Decoding base64

The decoder of the proxy. It checks the room once, by three quarters of the length, and then
stores the bytes of one group after another; the number of bytes is returned as an `int`. A
text is decoded up to the first group with a character outside the alphabet.

* `base64Loop_eq` — what the loop stores, where it has room.
* `b64Val_ofNat` — the alphabet is that of the encoding.
* `decodesBase64_iff` — for which texts and buffers the decoder does what is meant.
* `decodesBase64_of_lt` — it does with every buffer whose length is an `int`.
-/

namespace AwgProxy

open Configurator

/-! ### The code -/

/-- `b64_val`, `none` for its `-1`. -/
def b64Val (c : UInt8) : Option ℕ :=
  if 65 ≤ c ∧ c ≤ 90 then some (c.toNat - 65)
  else if 97 ≤ c ∧ c ≤ 122 then some (c.toNat - 97 + 26)
  else if 48 ≤ c ∧ c ≤ 57 then some (c.toNat - 48 + 52)
  else if c = 43 then some 62
  else if c = 47 then some 63
  else none

/-- What `base64_decode` returns, and what it leaves in `out`. -/
structure Base64Out where
  /-- The number returned at the end, `none` for a `-1` before it. -/
  ret : Option ℤ
  buf : Bytes
  deriving DecidableEq

/-- `out[o] = v`, `none` behind the end of the buffer. -/
def putByte (buf : Bytes) (o v : ℕ) : Option Bytes :=
  storeByte buf o (.ofNat v)

/-- The groups of `base64_decode`, with `o` bytes stored; the number of characters left is not
1 modulo 4. -/
def base64Loop : Bytes → Bytes → ℕ → Option Base64Out
  | ca :: cb :: cc :: cd :: s, buf, o =>
      match b64Val ca, b64Val cb, b64Val cc, b64Val cd with
      | some a, some b, some c, some d => do
          let v := a <<< 18 ||| b <<< 12 ||| c <<< 6 ||| d
          let buf ← putByte buf o (v >>> 16 &&& 255)
          let buf ← putByte buf (o + 1) (v >>> 8 &&& 255)
          let buf ← putByte buf (o + 2) (v &&& 255)
          base64Loop s buf (o + 3)
      | _, _, _, _ => some ⟨none, buf⟩
  | [ca, cb, cc], buf, o =>
      match b64Val ca, b64Val cb, b64Val cc with
      | some a, some b, some c => do
          let v := a <<< 18 ||| b <<< 12 ||| c <<< 6
          let buf ← putByte buf o (v >>> 16 &&& 255)
          let buf ← putByte buf (o + 1) (v >>> 8 &&& 255)
          some ⟨some (intOfSize (o + 2)), buf⟩
      | _, _, _ => some ⟨none, buf⟩
  | [ca, cb], buf, o =>
      match b64Val ca, b64Val cb with
      | some a, some b => do
          let buf ← putByte buf o ((a <<< 18 ||| b <<< 12) >>> 16)
          some ⟨some (intOfSize (o + 1)), buf⟩
      | _, _ => some ⟨none, buf⟩
  | _, buf, o => some ⟨some (intOfSize o), buf⟩

/-- The text without the padding behind it. -/
def stripEquals (s : Bytes) : Bytes :=
  s.rdropWhile (· = 61)

/-- `base64_decode` into a buffer of `outmax` bytes, with sizes of `sizeBits` bits; `none`
where it writes past the end. -/
def base64Decode (sizeBits : ℕ) (s buf : Bytes) : Option Base64Out :=
  let s := stripEquals s
  if s.length % 4 = 1 then some ⟨none, buf⟩
  else
    let outlen := s.length * 3 % 2 ^ sizeBits / 4
    if outlen > buf.length then some ⟨none, buf⟩ else base64Loop s buf 0

/-! ### What is meant -/

/-- The base64 text of `b`, with its padding or without. -/
def IsBase64 (s b : Bytes) : Prop :=
  byteText s = btoa b ∨ byteText s = (splitSextets b).map sextetChar

/-- The text is decoded into the buffer as it is meant to be. -/
structure DecodesBase64 (sizeBits : ℕ) (s buf : Bytes) : Prop where
  /-- Nothing is written past the end of the buffer. -/
  stays : base64Decode sizeBits s buf ≠ none
  /-- The text of bytes there is room for gives these. -/
  inverts : ∀ b, IsBase64 s b → b.length ≤ buf.length →
    base64Decode sizeBits s buf = some ⟨some b.length, buf.patch 0 b⟩
  /-- The number returned at the end. -/
  counts : ∀ r n, base64Decode sizeBits s buf = some r → r.ret = some n →
    n = (3 * (stripEquals s).length / 4 : ℕ)
  /-- A text of another length, that is too long or that has another character. -/
  fails : (stripEquals s).length % 4 = 1 ∨ buf.length < 3 * (stripEquals s).length / 4 ∨
      (∃ c ∈ stripEquals s, b64Val c = none) →
    ∃ r, base64Decode sizeBits s buf = some r ∧ r.ret = none

/-- Every character is in the alphabet. -/
def InAlphabet (s : Bytes) : Prop := ∀ c ∈ s, (b64Val c).isSome

instance (s : Bytes) : Decidable (InAlphabet s) :=
  inferInstanceAs (Decidable (∀ c ∈ s, _))

/-- The bytes decoded up to the first group with a character outside the alphabet. -/
def decodedBytes : Bytes → Bytes
  | ca :: cb :: cc :: cd :: s =>
      match b64Val ca, b64Val cb, b64Val cc, b64Val cd with
      | some a, some b, some c, some d =>
          .ofNat (a * 4 + b / 16) :: .ofNat (b * 16 + c / 4) :: .ofNat (c * 64 + d) ::
            decodedBytes s
      | _, _, _, _ => []
  | [ca, cb, cc] =>
      match b64Val ca, b64Val cb, b64Val cc with
      | some a, some b, some c => [.ofNat (a * 4 + b / 16), .ofNat (b * 16 + c / 4)]
      | _, _, _ => []
  | [ca, cb] =>
      match b64Val ca, b64Val cb with
      | some a, some b => [.ofNat (a * 4 + b / 16)]
      | _, _ => []
  | _ => []

/-- The bytes of the groups up to the first with a character outside the alphabet. -/
def groupBytes : Bytes → ℕ
  | ca :: cb :: cc :: cd :: s => if InAlphabet [ca, cb, cc, cd] then groupBytes s + 3 else 0
  | [ca, cb, cc] => if InAlphabet [ca, cb, cc] then 2 else 0
  | [ca, cb] => if InAlphabet [ca, cb] then 1 else 0
  | _ => 0

/-- When the decoder does what is meant: the text is refused by its length, or there is room for
its groups up to the first with a character outside the alphabet and, if there is none, their
number of bytes is an `int`. -/
def DecodesRight (sizeBits : ℕ) (s buf : Bytes) : Prop :=
  let t := stripEquals s
  t.length % 4 = 1 ∨ buf.length < t.length * 3 % 2 ^ sizeBits / 4 ∨
    groupBytes t ≤ buf.length ∧ (InAlphabet t → 3 * t.length / 4 < 2 ^ 31)

/-! ### The alphabet -/

/-- The alphabet is that of the encoding. -/
theorem b64Val_ofNat : ∀ n < 256, b64Val (.ofNat n) = sextet? (Char.ofNat n) := by
  decide +kernel

theorem b64Val_eq (c : UInt8) : b64Val c = sextet? (Char.ofNat c.toNat) := by
  have h := b64Val_ofNat c.toNat c.toNat_lt
  rwa [UInt8.ofNat_toNat] at h

theorem b64Val_lt {c : UInt8} {n : ℕ} (h : b64Val c = some n) : n < 64 := by
  have hall : ∀ m < 256, ∀ n ∈ b64Val (.ofNat m), n < 64 := by decide +kernel
  refine hall c.toNat c.toNat_lt n ?_
  rw [UInt8.ofNat_toNat]
  exact h

/-! ### The bytes of a group -/

theorem ofNat_and_255 (n : ℕ) : UInt8.ofNat (n &&& 255) = UInt8.ofNat n := by
  have hmask : n &&& 255 = n % 256 := Nat.and_two_pow_sub_one_eq_mod n 8
  rw [hmask, UInt8.ofNat_eq_iff_mod_eq_toNat, UInt8.toNat_ofNat', Nat.mod_mod]

/-- The values of a group side by side. -/
theorem group_eq {a b c d : ℕ} (hb : b < 64) (hc : c < 64) (hd : d < 64) :
    a <<< 18 ||| b <<< 12 ||| c <<< 6 ||| d = a * 2 ^ 18 + b * 2 ^ 12 + c * 2 ^ 6 + d := by
  have hcd : c <<< 6 ||| d = c * 2 ^ 6 + d := by
    rw [← Nat.shiftLeft_add_eq_or_of_lt (by omega), Nat.shiftLeft_eq]
  have hbcd : b <<< 12 ||| (c <<< 6 ||| d) = b * 2 ^ 12 + (c * 2 ^ 6 + d) := by
    rw [hcd, ← Nat.shiftLeft_add_eq_or_of_lt (by omega), Nat.shiftLeft_eq]
  rw [Nat.or_assoc, Nat.or_assoc, hbcd, ← Nat.shiftLeft_add_eq_or_of_lt (by omega),
    Nat.shiftLeft_eq]
  omega

/-- The bytes of a group. -/
theorem group_bytes {a b c d : ℕ} (hb : b < 64) (hc : c < 64) (hd : d < 64) :
    let v := a <<< 18 ||| b <<< 12 ||| c <<< 6 ||| d
    UInt8.ofNat (v >>> 16 &&& 255) = .ofNat (a * 4 + b / 16) ∧
      UInt8.ofNat (v >>> 8 &&& 255) = .ofNat (b * 16 + c / 4) ∧
      UInt8.ofNat (v &&& 255) = .ofNat (c * 64 + d) := by
  intro v
  have hv : v = a * 2 ^ 18 + b * 2 ^ 12 + c * 2 ^ 6 + d := group_eq hb hc hd
  simp only [ofNat_and_255, Nat.shiftRight_eq_div_pow, hv, UInt8.ofNat_eq_iff_mod_eq_toNat,
    UInt8.toNat_ofNat']
  omega

/-! ### The loop -/

theorem inAlphabet_cons {c : UInt8} {s : Bytes} :
    InAlphabet (c :: s) ↔ (∃ n, b64Val c = some n) ∧ InAlphabet s := by
  rw [InAlphabet, List.forall_mem_cons, Option.isSome_iff_exists, InAlphabet]

/-- A byte is stored where there is room for it. -/
theorem putByte_bind {α : Type*} (buf : Bytes) (o v : ℕ) (k : Bytes → Option α) :
    (putByte buf o v).bind k = if o < buf.length then k (buf.patch o [.ofNat v]) else none := by
  rw [putByte, storeByte]
  by_cases ho : o < buf.length
  · rw [if_pos ⟨Int.natCast_nonneg o, Int.ofNat_lt.mpr ho⟩, if_pos ho, Int.toNat_natCast,
      Option.bind_some]
  · rw [if_neg (by omega), if_neg ho, Option.bind_none]

/-- Two bytes, one after the other. -/
theorem putByte_bind_two {α : Type*} (buf : Bytes) (o v w : ℕ) (k : Bytes → Option α) :
    ((putByte buf o v).bind fun buf => (putByte buf (o + 1) w).bind k) =
      if o + 1 < buf.length then k (buf.patch o [.ofNat v, .ofNat w]) else none := by
  rw [putByte_bind]
  by_cases ho : o + 1 ≤ buf.length
  · have hlen : (buf.patch o [.ofNat v]).length = buf.length := Bytes.length_patch ho
    have happ : (buf.patch o [.ofNat v]).patch (o + 1) [.ofNat w] =
        buf.patch o [.ofNat v, .ofNat w] := Bytes.patch_patch_append ho [.ofNat w]
    rw [if_pos (by omega), putByte_bind, hlen, happ]
  · rw [if_neg (by omega), if_neg (by omega)]

/-- Three bytes. -/
theorem putByte_bind_three {α : Type*} (buf : Bytes) (o v w x : ℕ) (k : Bytes → Option α) :
    ((putByte buf o v).bind fun buf => (putByte buf (o + 1) w).bind fun buf =>
        (putByte buf (o + 2) x).bind k) =
      if o + 2 < buf.length then k (buf.patch o [.ofNat v, .ofNat w, .ofNat x]) else none := by
  rw [putByte_bind_two]
  by_cases ho : o + 2 ≤ buf.length
  · have hlen : (buf.patch o [.ofNat v, .ofNat w]).length = buf.length := Bytes.length_patch ho
    have happ : (buf.patch o [.ofNat v, .ofNat w]).patch (o + 2) [.ofNat x] =
        buf.patch o [.ofNat v, .ofNat w, .ofNat x] := Bytes.patch_patch_append ho [.ofNat x]
    rw [if_pos (by omega), putByte_bind, hlen, happ]
  · rw [if_neg (by omega), if_neg (by omega)]

/-- Where the loop ends before the end of the text, nothing of the group is stored. -/
theorem stopped_eq {s buf : Bytes} {o : ℕ} (ho : o ≤ buf.length) (hin : ¬ InAlphabet s)
    (hnil : decodedBytes s = []) :
    some (Base64Out.mk none buf) =
      if o + (decodedBytes s).length ≤ buf.length then
        some ⟨if InAlphabet s then some (intOfSize (o + (decodedBytes s).length)) else none,
          buf.patch o (decodedBytes s)⟩
      else none := by
  rw [hnil, if_neg hin, Bytes.patch_nil, if_pos (by simpa using ho)]

/-- **What the loop stores**, where it has room. -/
theorem base64Loop_eq {s : Bytes} (hs : s.length % 4 ≠ 1) {buf : Bytes} {o : ℕ}
    (ho : o ≤ buf.length) :
    base64Loop s buf o =
      if o + (decodedBytes s).length ≤ buf.length then
        some ⟨if InAlphabet s then some (intOfSize (o + (decodedBytes s).length)) else none,
          buf.patch o (decodedBytes s)⟩
      else none := by
  fun_induction base64Loop s buf o with
  | case1 ca cb cc cd s buf o a b c d hd hc hb ha v ih =>
      obtain ⟨h1, h2, h3⟩ := group_bytes (a := a) (b64Val_lt hb) (b64Val_lt hc) (b64Val_lt hd)
      have hin : InAlphabet (ca :: cb :: cc :: cd :: s) ↔ InAlphabet s := by
        simp [InAlphabet, ha, hb, hc, hd]
      have hdec : decodedBytes (ca :: cb :: cc :: cd :: s) =
          [.ofNat (a * 4 + b / 16), .ofNat (b * 16 + c / 4), .ofNat (c * 64 + d)] ++
            decodedBytes s := by
        rw [decodedBytes, ha, hb, hc, hd]
        rfl
      simp only [Option.bind_eq_bind]
      rw [putByte_bind_three, h1, h2, h3, hdec]
      obtain ⟨g, hg, hlen⟩ : ∃ g : Bytes, [.ofNat (a * 4 + b / 16), .ofNat (b * 16 + c / 4),
          .ofNat (c * 64 + d)] = g ∧ g.length = 3 := ⟨_, rfl, rfl⟩
      rw [hg, List.length_append, hlen, ← Nat.add_assoc]
      by_cases hroom : o + 3 ≤ buf.length
      · have hbuf : (buf.patch o g).length = buf.length := Bytes.length_patch (by omega)
        have happ : (buf.patch o g).patch (o + 3) (decodedBytes s) =
            buf.patch o (g ++ decodedBytes s) := by
          rw [← hlen]
          exact Bytes.patch_patch_append (by omega) _
        have hs' : s.length % 4 ≠ 1 := by
          simp only [List.length_cons] at hs
          omega
        rw [if_pos (by omega), ih _ hs' (by omega), hbuf, happ]
        simp only [hin]
      · rw [if_neg (by omega), if_neg (by omega)]
  | case2 ca cb cc cd s buf o hbad =>
      refine stopped_eq ho (fun hin => ?_) ?_
      · obtain ⟨⟨a, ha⟩, ⟨b, hb⟩, ⟨c, hc⟩, ⟨d, hd⟩, -⟩ := by simpa only [inAlphabet_cons] using hin
        exact hbad a b c d ha hb hc hd
      · rw [decodedBytes]
        split
        · exact (hbad _ _ _ _ ‹_› ‹_› ‹_› ‹_›).elim
        · rfl
  | case3 ca cb cc buf o a b c hc hb ha v =>
      obtain ⟨h1, h2, -⟩ := group_bytes (a := a) (d := 0) (b64Val_lt hb) (b64Val_lt hc) (by decide)
      rw [Nat.or_zero] at h1 h2
      have hin : InAlphabet [ca, cb, cc] := by simp [InAlphabet, ha, hb, hc]
      have hdec : decodedBytes [ca, cb, cc] =
          [.ofNat (a * 4 + b / 16), .ofNat (b * 16 + c / 4)] := by
        rw [decodedBytes, ha, hb, hc]
      simp only [Option.bind_eq_bind]
      rw [putByte_bind_two, h1, h2, hdec, if_pos hin]
      rfl
  | case4 ca cb cc buf o hbad =>
      refine stopped_eq ho (fun hin => ?_) ?_
      · obtain ⟨⟨a, ha⟩, ⟨b, hb⟩, ⟨c, hc⟩, -⟩ := by simpa only [inAlphabet_cons] using hin
        exact hbad a b c ha hb hc
      · rw [decodedBytes]
        split
        · exact (hbad _ _ _ ‹_› ‹_› ‹_›).elim
        · rfl
  | case5 ca cb buf o a b hb ha =>
      have hin : InAlphabet [ca, cb] := by simp [InAlphabet, ha, hb]
      have hdec : decodedBytes [ca, cb] = [.ofNat (a * 4 + b / 16)] := by
        rw [decodedBytes, ha, hb]
      have hv := group_eq (a := a) (c := 0) (d := 0) (b64Val_lt hb) (by decide) (by decide)
      simp only [Nat.zero_shiftLeft, Nat.or_zero] at hv
      have hbyte : (a <<< 18 ||| b <<< 12) >>> 16 = a * 4 + b / 16 := by
        rw [hv, Nat.shiftRight_eq_div_pow]
        omega
      simp only [Option.bind_eq_bind]
      rw [putByte_bind, hbyte, hdec, if_pos hin]
      rfl
  | case6 ca cb buf o hbad =>
      refine stopped_eq ho (fun hin => ?_) ?_
      · obtain ⟨⟨a, ha⟩, ⟨b, hb⟩, -⟩ := by simpa only [inAlphabet_cons] using hin
        exact hbad a b ha hb
      · rw [decodedBytes]
        split
        · exact (hbad _ _ ‹_› ‹_›).elim
        · rfl
  | case7 s buf o h4 h3 h2 =>
      match s with
      | [] => simp [decodedBytes, InAlphabet, ho]
      | [_] => exact absurd rfl hs
      | [ca, cb] => exact (h2 ca cb rfl).elim
      | [ca, cb, cc] => exact (h3 ca cb cc rfl).elim
      | ca :: cb :: cc :: cd :: s => exact (h4 ca cb cc cd s rfl).elim

/-- The value of a character of the alphabet. -/
def sextetVal (c : UInt8) : ℕ := (b64Val c).getD 0

/-- The bytes of characters of the alphabet are those of their values. -/
theorem decodedBytes_eq_joinSextets {s : Bytes} (h : InAlphabet s) :
    decodedBytes s = joinSextets (s.map sextetVal) := by
  fun_induction decodedBytes s with
  | case1 ca cb cc cd s a b c d hd hc hb ha ih =>
      have hin : InAlphabet s := fun x hx => h x (by simp [hx])
      simp only [List.map_cons, sextetVal, ha, hb, hc, hd, Option.getD_some, joinSextets, ih hin]
  | case2 ca cb cc cd s hbad =>
      obtain ⟨⟨a, ha⟩, ⟨b, hb⟩, ⟨c, hc⟩, ⟨d, hd⟩, -⟩ := by simpa only [inAlphabet_cons] using h
      exact (hbad a b c d ha hb hc hd).elim
  | case3 ca cb cc a b c hc hb ha => simp [sextetVal, ha, hb, hc, joinSextets]
  | case4 ca cb cc hbad =>
      obtain ⟨⟨a, ha⟩, ⟨b, hb⟩, ⟨c, hc⟩, -⟩ := by simpa only [inAlphabet_cons] using h
      exact (hbad a b c ha hb hc).elim
  | case5 ca cb a b hb ha => simp [sextetVal, ha, hb, joinSextets]
  | case6 ca cb hbad =>
      obtain ⟨⟨a, ha⟩, ⟨b, hb⟩, -⟩ := by simpa only [inAlphabet_cons] using h
      exact (hbad a b ha hb).elim
  | case7 s h4 h3 h2 =>
      rcases s with _ | ⟨ca, _ | ⟨cb, _ | ⟨cc, _ | ⟨cd, s⟩⟩⟩⟩
      · rfl
      · rfl
      · exact (h2 ca cb rfl).elim
      · exact (h3 ca cb cc rfl).elim
      · exact (h4 ca cb cc cd s rfl).elim

/-- Three bytes for four values. -/
theorem length_joinSextets {ns : List ℕ} (h : ns.length % 4 ≠ 1) :
    (joinSextets ns).length = 3 * ns.length / 4 := by
  fun_induction joinSextets ns with
  | case1 a b c d ns ih =>
      simp only [List.length_cons] at h ⊢
      rw [ih (by omega)]
      omega
  | case2 a b c => simp
  | case3 a b => simp
  | case4 ns h4 h3 h2 =>
      match ns with
      | [] => rfl
      | [_] => exact absurd rfl h
      | [a, b] => exact (h2 a b rfl).elim
      | [a, b, c] => exact (h3 a b c rfl).elim
      | a :: b :: c :: d :: ns => exact (h4 a b c d ns rfl).elim

/-- All of a text in the alphabet is decoded. -/
theorem length_decodedBytes {s : Bytes} (hin : InAlphabet s) (hs : s.length % 4 ≠ 1) :
    (decodedBytes s).length = 3 * s.length / 4 := by
  rw [decodedBytes_eq_joinSextets hin, length_joinSextets (by rwa [List.length_map]),
    List.length_map]

/-- What is decoded is counted by its groups. -/
theorem length_decodedBytes_eq (s : Bytes) : (decodedBytes s).length = groupBytes s := by
  fun_induction decodedBytes s with
  | case1 ca cb cc cd s a b c d hd hc hb ha ih =>
      rw [groupBytes, if_pos (by simp [InAlphabet, ha, hb, hc, hd]), ← ih]
      rfl
  | case2 ca cb cc cd s hbad =>
      rw [groupBytes, if_neg]
      · rfl
      · intro hin
        obtain ⟨⟨a, ha⟩, ⟨b, hb⟩, ⟨c, hc⟩, ⟨d, hd⟩, -⟩ := by simpa only [inAlphabet_cons] using hin
        exact hbad a b c d ha hb hc hd
  | case3 ca cb cc a b c hc hb ha => simp [groupBytes, InAlphabet, ha, hb, hc]
  | case4 ca cb cc hbad =>
      rw [groupBytes, if_neg]
      · rfl
      · intro hin
        obtain ⟨⟨a, ha⟩, ⟨b, hb⟩, ⟨c, hc⟩, -⟩ := by simpa only [inAlphabet_cons] using hin
        exact hbad a b c ha hb hc
  | case5 ca cb a b hb ha => simp [groupBytes, InAlphabet, ha, hb]
  | case6 ca cb hbad =>
      rw [groupBytes, if_neg]
      · rfl
      · intro hin
        obtain ⟨⟨a, ha⟩, ⟨b, hb⟩, -⟩ := by simpa only [inAlphabet_cons] using hin
        exact hbad a b ha hb
  | case7 s h4 h3 h2 => rw [groupBytes.eq_4 s h4 h3 h2, List.length_nil]

theorem groupBytes_le (s : Bytes) : groupBytes s ≤ 3 * s.length / 4 := by
  fun_induction groupBytes s with
  | case1 ca cb cc cd s hin ih =>
      simp only [List.length_cons]
      omega
  | case2 => exact Nat.zero_le _
  | case3 => simp
  | case4 => exact Nat.zero_le _
  | case5 => simp
  | case6 => exact Nat.zero_le _
  | case7 => exact Nat.zero_le _

/-! ### The text of bytes -/

theorem byteText_stripEquals (s : Bytes) :
    byteText (stripEquals s) = (byteText s).rdropWhile (· = '=') := by
  have hchar : ∀ n < 256, (UInt8.ofNat n = 61 ↔ Char.ofNat n = '=') := by decide +kernel
  have hpred : ((fun c => decide (c = '=')) ∘ fun c : UInt8 => Char.ofNat c.toNat) =
      fun c => decide (c = 61) := by
    funext c
    have h := hchar c.toNat c.toNat_lt
    rw [UInt8.ofNat_toNat] at h
    exact (decide_eq_decide.mpr h).symm
  rw [stripEquals, byteText, byteText, List.rdropWhile, List.rdropWhile, ← List.map_reverse,
    List.dropWhile_map, hpred, List.map_reverse]

/-- What is left of the text of bytes when the padding is off. -/
theorem IsBase64.byteText_stripEquals {s b : Bytes} (h : IsBase64 s b) :
    byteText (stripEquals s) = (splitSextets b).map sextetChar := by
  have hne : ∀ c ∈ (splitSextets b).map sextetChar, c ≠ '=' := by
    intro c hc
    obtain ⟨n, hn, rfl⟩ := exists_sextetChar hc
    exact (sextetChar_spec n hn).2.1
  rw [AwgProxy.byteText_stripEquals]
  rcases h with h | h
  · rw [h, btoa, padTo4, rdropWhile_padding hne]
  · rw [h]
    have hzero := rdropWhile_padding hne 0
    rwa [List.replicate_zero, List.append_nil] at hzero

/-- Its characters have the values of the groups. -/
theorem IsBase64.map_b64Val {s b : Bytes} (h : IsBase64 s b) :
    (stripEquals s).map b64Val = (splitSextets b).map some := by
  have hval : (stripEquals s).map b64Val = (byteText (stripEquals s)).map sextet? := by
    rw [byteText, List.map_map]
    exact List.map_congr_left fun c _ => b64Val_eq c
  rw [hval, h.byteText_stripEquals, List.map_map]
  exact List.map_congr_left fun n hn => (sextetChar_spec n (lt_of_mem_splitSextets hn)).1

/-! ### The decoder -/

theorem intOfSize_eq_iff {n : ℕ} : intOfSize n = n ↔ n < 2 ^ 31 := by
  refine ⟨fun h => ?_, intOfSize_eq⟩
  have hmod : n % 2 ^ 32 < 2 ^ 32 := Nat.mod_lt _ (by norm_num)
  rw [intOfSize_cases] at h
  split at h
  · omega
  · omega

/-- **The text of bytes** is in the alphabet, is decoded to them and has no other length. -/
theorem IsBase64.decoded {s b : Bytes} (h : IsBase64 s b) :
    InAlphabet (stripEquals s) ∧ decodedBytes (stripEquals s) = b ∧
      (stripEquals s).length % 4 ≠ 1 ∧ b.length = 3 * (stripEquals s).length / 4 := by
  have hmap := h.map_b64Val
  have hlen := congrArg List.length hmap
  rw [List.length_map, List.length_map] at hlen
  have hmod : (stripEquals s).length % 4 ≠ 1 := by
    rw [hlen]
    exact length_splitSextets_mod b
  have hin : InAlphabet (stripEquals s) := by
    intro c hc
    have hc' : b64Val c ∈ (splitSextets b).map some := by
      rw [← hmap]
      exact List.mem_map_of_mem hc
    obtain ⟨n, -, hn⟩ := List.mem_map.mp hc'
    rw [← hn]
    rfl
  have hvals : (stripEquals s).map sextetVal = splitSextets b := by
    have hget := congrArg (List.map fun v => v.getD 0) hmap
    rw [List.map_map, List.map_map] at hget
    exact hget.trans (List.map_id _)
  have hdec : decodedBytes (stripEquals s) = b := by
    rw [decodedBytes_eq_joinSextets hin, hvals, joinSextets_splitSextets]
  refine ⟨hin, hdec, hmod, ?_⟩
  rw [← length_decodedBytes hin hmod, hdec]

/-- A text refused before the loop. -/
theorem base64Decode_of_refused {sizeBits : ℕ} {s buf : Bytes}
    (h : (stripEquals s).length % 4 = 1 ∨
      buf.length < (stripEquals s).length * 3 % 2 ^ sizeBits / 4) :
    base64Decode sizeBits s buf = some ⟨none, buf⟩ := by
  rw [base64Decode]
  dsimp only
  split_ifs with hmod hlong
  · rfl
  · rfl
  · exact (h.elim hmod hlong).elim

/-- Every other text is decoded as far as it can be. -/
theorem base64Decode_of_not_refused {sizeBits : ℕ} {s buf : Bytes}
    (hmod : (stripEquals s).length % 4 ≠ 1)
    (hlong : ¬ buf.length < (stripEquals s).length * 3 % 2 ^ sizeBits / 4) :
    base64Decode sizeBits s buf =
      if groupBytes (stripEquals s) ≤ buf.length then
        some ⟨if InAlphabet (stripEquals s) then some (intOfSize (groupBytes (stripEquals s)))
            else none,
          buf.patch 0 (decodedBytes (stripEquals s))⟩
      else none := by
  rw [base64Decode]
  dsimp only
  rw [if_neg hmod, if_neg hlong, base64Loop_eq hmod (Nat.zero_le _), Nat.zero_add,
    length_decodedBytes_eq]

/-- **For which texts and buffers the decoder does what is meant.** -/
theorem decodesBase64_iff (sizeBits : ℕ) (s buf : Bytes) :
    DecodesBase64 sizeBits s buf ↔ DecodesRight sizeBits s buf := by
  by_cases hearly : (stripEquals s).length % 4 = 1 ∨
      buf.length < (stripEquals s).length * 3 % 2 ^ sizeBits / 4
  · have hdecode := base64Decode_of_refused hearly
    refine iff_of_true ⟨by rw [hdecode]; nofun, fun b hb hroom => ?_, fun r n hr hn => ?_,
      fun _ => ⟨_, hdecode, rfl⟩⟩ (hearly.imp_right Or.inl)
    · obtain ⟨-, -, hmod, hlen⟩ := hb.decoded
      have hwrap : (stripEquals s).length * 3 % 2 ^ sizeBits ≤ (stripEquals s).length * 3 :=
        Nat.mod_le _ _
      omega
    · rw [hdecode] at hr
      obtain rfl := Option.some.inj hr
      cases hn
  · obtain ⟨hmod, hlong⟩ := not_or.mp hearly
    have hdecode := base64Decode_of_not_refused hmod hlong
    by_cases hroom : groupBytes (stripEquals s) ≤ buf.length
    · rw [if_pos hroom] at hdecode
      by_cases hin : InAlphabet (stripEquals s)
      · have hlen := length_decodedBytes hin hmod
        rw [length_decodedBytes_eq] at hlen
        rw [if_pos hin] at hdecode
        constructor
        · intro h
          have hcount := h.counts _ _ hdecode rfl
          rw [hlen] at hcount
          exact Or.inr (Or.inr ⟨hroom, fun _ => intOfSize_eq_iff.mp hcount⟩)
        · rintro (h | h | ⟨-, hint⟩)
          · exact absurd h hmod
          · exact absurd h hlong
          rw [hlen, intOfSize_eq (hint hin)] at hdecode
          refine ⟨by rw [hdecode]; nofun, fun b hb _ => ?_, fun r n hr hn => ?_, ?_⟩
          · obtain ⟨-, hdec, -, hlen'⟩ := hb.decoded
            rw [hdecode, hdec, hlen']
          · rw [hdecode] at hr
            obtain rfl := Option.some.inj hr
            exact (Option.some.inj hn).symm
          · rintro (h | h | ⟨c, hc, hbad⟩)
            · exact absurd h hmod
            · omega
            · exact absurd (hin c hc) (by rw [hbad]; nofun)
      · rw [if_neg hin] at hdecode
        refine iff_of_true ⟨by rw [hdecode]; nofun, fun b hb _ => absurd hb.decoded.1 hin,
          fun r n hr hn => ?_, fun _ => ⟨_, hdecode, rfl⟩⟩
          (Or.inr (Or.inr ⟨hroom, fun h => absurd h hin⟩))
        rw [hdecode] at hr
        obtain rfl := Option.some.inj hr
        cases hn
    · rw [if_neg hroom] at hdecode
      refine iff_of_false (fun h => h.stays hdecode) ?_
      rintro (h | h | ⟨h, -⟩)
      · exact hmod h
      · exact hlong h
      · exact hroom h

/-- Where three times the length is a size, the decoder fails what is meant only by the number
it returns. -/
theorem decodesRight_iff_of_lt {sizeBits : ℕ} {s buf : Bytes}
    (h : 3 * (stripEquals s).length < 2 ^ sizeBits) :
    DecodesRight sizeBits s buf ↔ (stripEquals s).length % 4 = 1 ∨
      buf.length < 3 * (stripEquals s).length / 4 ∨ ¬ InAlphabet (stripEquals s) ∨
        3 * (stripEquals s).length / 4 < 2 ^ 31 := by
  have hle := groupBytes_le (stripEquals s)
  rw [DecodesRight, Nat.mul_comm _ 3, Nat.mod_eq_of_lt h]
  refine or_congr_right ?_
  by_cases hlong : buf.length < 3 * (stripEquals s).length / 4
  · exact iff_of_true (Or.inl hlong) (Or.inl hlong)
  · simp only [hlong, false_or, hle.trans (not_lt.mp hlong), true_and, imp_iff_not_or]

/-- The bytes of a text. -/
def textBytes (s : List Char) : Bytes := s.map fun c => .ofNat c.toNat

/-- **The decoder does what is meant** with every buffer whose length is an `int`, of every text
three times as long as which is a size. -/
theorem decodesBase64_of_lt {sizeBits : ℕ} {s buf : Bytes} (hbuf : buf.length < 2 ^ 31)
    (hlen : 3 * (stripEquals s).length < 2 ^ sizeBits) : DecodesBase64 sizeBits s buf := by
  rw [decodesBase64_iff, decodesRight_iff_of_lt hlen]
  by_cases hroom : buf.length < 3 * (stripEquals s).length / 4
  · exact Or.inr (Or.inl hroom)
  · exact Or.inr (Or.inr (Or.inr ((not_lt.mp hroom).trans_lt hbuf)))

/-- A key of 32 bytes, with its padding, in a buffer of 32. -/
theorem decodesBase64_of_lt_key :
    DecodesBase64 64 (textBytes (btoa (List.replicate 32 7))) (List.replicate 32 0) ∧
      base64Decode 64 (textBytes (btoa (List.replicate 32 7))) (List.replicate 32 0) =
        some ⟨some 32, List.replicate 32 7⟩ :=
  ⟨decodesBase64_of_lt (by decide) (by decide +kernel), by decide +kernel⟩

/-! ### A text too long for an `int` -/

theorem isBase64_textBytes (b : Bytes) : IsBase64 (textBytes (btoa b)) b := by
  have hchar : ∀ n < 64, Char.ofNat (UInt8.ofNat (sextetChar n).toNat).toNat = sextetChar n := by
    decide +kernel
  refine Or.inl ?_
  rw [byteText, textBytes, List.map_map]
  refine (List.map_congr_left fun c hc => ?_).trans (List.map_id _)
  rcases List.mem_append.mp hc with hc | hc
  · obtain ⟨n, hn, rfl⟩ := exists_sextetChar hc
    exact hchar n hn
  · rw [List.eq_of_mem_replicate hc]
    rfl

/-- The number of `2 ^ 31` decoded bytes is returned as a negative one. -/
theorem not_decodesBase64_large :
    IsBase64 (textBytes (btoa (List.replicate (2 ^ 31) 0))) (List.replicate (2 ^ 31) 0) ∧
      ¬ DecodesBase64 64 (textBytes (btoa (List.replicate (2 ^ 31) 0)))
        (List.replicate (2 ^ 31) 0) := by
  have hb := isBase64_textBytes (List.replicate (2 ^ 31) 0)
  have hlen : (List.replicate (2 ^ 31) (0 : UInt8)).length = 2 ^ 31 := List.length_replicate
  refine ⟨hb, fun h => ?_⟩
  have hmeant := h.inverts _ hb le_rfl
  generalize (List.replicate (2 ^ 31) (0 : UInt8)) = b at *
  obtain ⟨hin, hdec, hmod, hthree⟩ := hb.decoded
  have hroom : ¬ b.length < (stripEquals (textBytes (btoa b))).length * 3 % 2 ^ 64 / 4 := by
    omega
  have hdecode := base64Decode_of_not_refused hmod hroom
  rw [← length_decodedBytes_eq, hdec, if_pos le_rfl, if_pos hin, hmeant] at hdecode
  have hcount := congrArg Base64Out.ret (Option.some.inj hdecode)
  have hlt := intOfSize_eq_iff.mp (Option.some.inj hcount).symm
  omega

end AwgProxy
