import Mathlib.Data.List.Basic
import Mathlib.Tactic.Ring

/-!
# Byte Strings

Byte strings as lists: the sub-range `slice`, the overwrite `patch`, the cut into pieces of
one length, little-endian words of any width and the bytewise exclusive or. A packed header,
a checksum over a range or a keystream is a composition of these, and the lemmas say how they
compose: what a slice of a patch is on the patched range (`slice_patch_self`), beside it
(`slice_patch_of_disjoint`) and around it (`slice_patch_of_subset`), that joining pieces is
undone by cutting (`chunks_flatten`), that words survive their encoding (`leNat_leBytes`),
and that the exclusive or acts on words as it does on bytes (`leNat_xorBytes`) and undoes
itself (`xorBytes_xorBytes`).
-/

/-- A byte string. -/
abbrev Bytes := List UInt8

namespace Bytes

/-! ### Ranges -/

/-- The `len` bytes from offset `off` on. -/
def slice (b : Bytes) (off len : ℕ) : Bytes :=
  (b.drop off).take len

/-- The string with the bytes from `off` on overwritten by `d`. -/
def patch (b : Bytes) (off : ℕ) (d : Bytes) : Bytes :=
  b.take off ++ d ++ b.drop (off + d.length)

theorem length_slice (b : Bytes) (off len : ℕ) :
    (b.slice off len).length = min len (b.length - off) := by
  simp [slice]

/-- A slice inside the string has the length asked for. -/
theorem length_slice_of_le {b : Bytes} {off len : ℕ} (h : off + len ≤ b.length) :
    (b.slice off len).length = len := by
  rw [length_slice]
  omega

@[simp] theorem slice_zero (b : Bytes) (off : ℕ) : b.slice off 0 = [] := by
  simp [slice]

/-- The slice of the whole string. -/
@[simp] theorem slice_zero_length (b : Bytes) : b.slice 0 b.length = b := by
  simp [slice]

/-- A slice splits at every point. -/
theorem slice_add (b : Bytes) (off m n : ℕ) :
    b.slice off (m + n) = b.slice off m ++ b.slice (off + m) n := by
  simp only [slice]
  rw [List.take_add, List.drop_drop]

/-- A slice of a slice. -/
theorem slice_slice {b : Bytes} {off len i n : ℕ} (h : i + n ≤ len) :
    (b.slice off len).slice i n = b.slice (off + i) n := by
  simp only [slice]
  rw [List.drop_take, List.take_take, List.drop_drop, Nat.min_eq_left (by omega)]

/-- A slice that starts in the second part of a concatenation. -/
theorem slice_append_right {a : Bytes} (b : Bytes) {off : ℕ} (len : ℕ)
    (h : a.length ≤ off) : (a ++ b).slice off len = b.slice (off - a.length) len := by
  simp only [slice]
  rw [List.drop_append, List.drop_eq_nil_of_le h, List.nil_append]

/-- A slice that ends in the first part of a concatenation. -/
theorem slice_append_left {a : Bytes} (b : Bytes) {off len : ℕ}
    (h : off + len ≤ a.length) : (a ++ b).slice off len = a.slice off len := by
  simp only [slice]
  rw [List.drop_append_of_le_length (by omega), List.take_append_of_le_length]
  rw [List.length_drop]
  omega

/-- An overwrite inside the string keeps its length. -/
theorem length_patch {b d : Bytes} {off : ℕ} (h : off + d.length ≤ b.length) :
    (b.patch off d).length = b.length := by
  simp only [patch, List.length_append, List.length_take, List.length_drop]
  omega

/-- Reading back what was written. -/
theorem slice_patch_self {b d : Bytes} {off : ℕ} (h : off ≤ b.length) :
    (b.patch off d).slice off d.length = d := by
  simp only [slice, patch, List.append_assoc]
  rw [List.drop_append, List.drop_take, Nat.sub_self, List.take_zero, List.nil_append,
    List.length_take, Nat.min_eq_left h, Nat.sub_self, List.drop_zero,
    List.take_append_of_le_length le_rfl, List.take_length]

/-- A range that the overwrite does not meet is unchanged. -/
theorem slice_patch_of_disjoint {b d : Bytes} {off i n : ℕ} (h : off ≤ b.length)
    (hd : i + n ≤ off ∨ off + d.length ≤ i) : (b.patch off d).slice i n = b.slice i n := by
  rcases hd with hd | hd
  · simp only [patch, List.append_assoc]
    rw [slice_append_left _ (by rw [List.length_take]; omega)]
    simp only [slice]
    rw [List.drop_take, List.take_take, Nat.min_eq_left (by omega)]
  · simp only [patch]
    have hlen : (b.take off ++ d).length = off + d.length := by
      rw [List.length_append, List.length_take]
      omega
    rw [slice_append_right _ _ (by omega), hlen]
    simp only [slice]
    rw [List.drop_drop]
    congr 2
    omega

/-- A range around the overwrite is the same range, overwritten. -/
theorem slice_patch_of_subset {b d : Bytes} {off i n : ℕ} (hi : i ≤ off)
    (hn : off + d.length ≤ i + n) (hb : i + n ≤ b.length) :
    (b.patch off d).slice i n = (b.slice i n).patch (off - i) d := by
  have hpre : (b.patch off d).slice i (off - i) = b.slice i (off - i) :=
    slice_patch_of_disjoint (by omega) (Or.inl (by omega))
  have hpost : (b.patch off d).slice (off + d.length) (i + n - (off + d.length)) =
      b.slice (off + d.length) (i + n - (off + d.length)) :=
    slice_patch_of_disjoint (by omega) (Or.inr le_rfl)
  have hsplit : n = (off - i) + (d.length + (i + n - (off + d.length))) := by omega
  calc (b.patch off d).slice i n
      = (b.patch off d).slice i ((off - i) + (d.length + (i + n - (off + d.length)))) := by
        rw [← hsplit]
    _ = b.slice i (off - i) ++
          (d ++ b.slice (off + d.length) (i + n - (off + d.length))) := by
        rw [slice_add, slice_add, hpre, show i + (off - i) = off by omega,
          slice_patch_self (by omega), hpost]
    _ = (b.slice i n).patch (off - i) d := by
        simp only [patch, slice, List.append_assoc]
        rw [List.take_take, Nat.min_eq_left (by omega), List.drop_take, List.drop_drop]
        congr 3
        · omega
        · congr 1
          omega

/-- The bytes in front of an overwrite are unchanged. -/
theorem take_patch {b d : Bytes} {off : ℕ} (h : off ≤ b.length) :
    (b.patch off d).take off = b.take off := by
  rw [patch, List.append_assoc, List.take_append_of_le_length (by rw [List.length_take]; omega),
    List.take_take, Nat.min_self]

/-- An overwrite inside the first part of a concatenation. -/
theorem patch_append_left {a d : Bytes} (b : Bytes) {off : ℕ}
    (h : off + d.length ≤ a.length) : (a ++ b).patch off d = a.patch off d ++ b := by
  simp only [patch]
  rw [List.take_append_of_le_length (by omega), List.drop_append_of_le_length (by omega),
    List.append_assoc, List.append_assoc, List.append_assoc]

/-- An overwrite inside the second part of a concatenation. -/
theorem patch_append_right {a b d : Bytes} {off : ℕ} (h : a.length ≤ off) :
    (a ++ b).patch off d = a ++ b.patch (off - a.length) d := by
  simp only [patch, List.append_assoc]
  rw [List.take_append, List.take_of_length_le h, List.drop_append,
    List.drop_eq_nil_of_le (by omega), List.nil_append, List.append_assoc]
  congr 4
  omega

/-- An overwrite of as many bytes as the string has, at its start. -/
theorem patch_zero_of_length {b d : Bytes} (h : b.length ≤ d.length) : b.patch 0 d = d := by
  simp [patch, List.drop_eq_nil_of_le h]

@[simp] theorem patch_nil (b : Bytes) (off : ℕ) : b.patch off [] = b := by
  simp [patch]

/-- The later of two overwrites of one range counts. -/
theorem patch_patch_self {b d d' : Bytes} {off : ℕ} (h : off ≤ b.length)
    (hd : d.length = d'.length) : (b.patch off d).patch off d' = b.patch off d' := by
  have htake : (b.take off).length = off := by
    rw [List.length_take]
    omega
  simp only [patch, List.append_assoc]
  rw [List.take_append_of_le_length (by omega), List.take_take, Nat.min_self, ← hd]
  congr 2
  rw [List.drop_append, List.drop_append, htake, List.drop_eq_nil_of_le (by omega),
    List.drop_eq_nil_of_le (by omega)]
  simp

/-- Overwrites of ranges that do not meet commute. -/
theorem patch_patch_comm {b d e : Bytes} {i j : ℕ} (hij : i + d.length ≤ j)
    (hj : j ≤ b.length) : (b.patch i d).patch j e = (b.patch j e).patch i d := by
  obtain ⟨a, c, rfl, ha⟩ : ∃ a c, b = a ++ c ∧ a.length = j :=
    ⟨b.take j, b.drop j, (List.take_append_drop j b).symm, by rw [List.length_take]; omega⟩
  have hlen : (a.patch i d).length = a.length := length_patch (by omega)
  rw [patch_append_left _ (by omega), patch_append_right (by omega), hlen,
    patch_append_right (by omega), patch_append_left _ (by omega)]

/-- An overwrite right behind another one. -/
theorem patch_patch_append {b d : Bytes} {off : ℕ} (h : off + d.length ≤ b.length) (e : Bytes) :
    (b.patch off d).patch (off + d.length) e = b.patch off (d ++ e) := by
  have hlen : (b.take off ++ d).length = off + d.length := by
    rw [List.length_append, List.length_take]
    omega
  have hsplit : b.patch off d = (b.take off ++ d) ++ b.drop (off + d.length) := rfl
  rw [hsplit, patch_append_right hlen.le, hlen, Nat.sub_self]
  simp [patch, Nat.add_assoc]

/-- Overwriting a range with what it holds changes nothing. -/
theorem patch_slice_self {b : Bytes} {off n : ℕ} (h : off + n ≤ b.length) :
    b.patch off (b.slice off n) = b := by
  simp only [patch, length_slice_of_le h]
  conv_rhs => rw [← List.take_append_drop off b, ← List.take_append_drop n (b.drop off)]
  rw [List.drop_drop, List.append_assoc]
  rfl

/-! ### Pieces of one length -/

/-- The string cut into pieces of `n` bytes, the last one possibly shorter. -/
def chunks (n : ℕ) (b : Bytes) : List Bytes :=
  (List.range ((b.length + n - 1) / n)).map fun i => b.slice (i * n) n

/-- Nothing to cut. -/
theorem chunks_nil {n : ℕ} (hn : 0 < n) : chunks n [] = [] := by
  simp [chunks, hn]

/-- A string of at most one piece. -/
theorem chunks_of_length_le {n : ℕ} {d : Bytes} (hd : 0 < d.length) (hle : d.length ≤ n) :
    chunks n d = [d] := by
  have hdiv : (d.length + n - 1) / n = 1 := by
    rw [Nat.div_eq_iff (by omega)]
    omega
  simp [chunks, hdiv, slice, List.take_of_length_le hle]

/-- The first piece of a longer string. -/
theorem chunks_append {n : ℕ} {d b : Bytes} (hn : 0 < n) (hd : d.length = n) :
    chunks n (d ++ b) = d :: chunks n b := by
  have hdiv : ((d ++ b).length + n - 1) / n = (b.length + n - 1) / n + 1 := by
    rw [List.length_append, hd, show n + b.length + n - 1 = b.length + n - 1 + n by omega,
      Nat.add_div_right _ hn]
  have hhead : (d ++ b).slice 0 n = d := by
    rw [slice_append_left b (by omega), ← hd, slice_zero_length]
  rw [chunks, hdiv, List.range_succ_eq_map, List.map_cons, List.map_map, Nat.zero_mul, hhead,
    chunks]
  congr 1
  refine List.map_congr_left fun i _ => ?_
  have hoff : (i + 1) * n - d.length = i * n := by
    rw [hd, Nat.succ_mul, Nat.add_sub_cancel]
  rw [Function.comp_apply, Nat.succ_eq_add_one,
    slice_append_right b n (by rw [hd, Nat.succ_mul]; omega), hoff]

/-- **Cutting undoes joining** pieces of one length, the last of which may be shorter. -/
theorem chunks_flatten {n : ℕ} {ds : List Bytes} (hn : 0 < n)
    (hfull : ∀ d ∈ ds.dropLast, d.length = n) (hne : ∀ d ∈ ds, d ≠ [])
    (hle : ∀ d ∈ ds, d.length ≤ n) : chunks n ds.flatten = ds := by
  induction ds with
  | nil => exact chunks_nil hn
  | cons d ds ih =>
      cases ds with
      | nil =>
          have hpos : 0 < d.length := List.length_pos_of_ne_nil (hne d (by simp))
          simpa using chunks_of_length_le hpos (hle d (by simp))
      | cons e ds =>
          have hrest : chunks n (e :: ds).flatten = e :: ds := by
            refine ih (fun x hx => hfull x ?_) (fun x hx => hne x ?_) fun x hx => hle x ?_
            · simp only [List.dropLast_cons_cons, List.mem_cons]
              exact Or.inr hx
            · exact List.mem_cons_of_mem _ hx
            · exact List.mem_cons_of_mem _ hx
          have hd : d.length = n := hfull d (by simp)
          rw [List.flatten_cons, chunks_append hn hd, hrest]

/-! ### Little-endian words -/

/-- The `n` low-order bytes of `v`, least significant first. -/
def leBytes : ℕ → ℕ → Bytes
  | 0, _ => []
  | n + 1, v => UInt8.ofNat v :: leBytes n (v / 256)

/-- The number a byte string denotes, least significant byte first. -/
def leNat : Bytes → ℕ
  | [] => 0
  | x :: b => x.toNat + 256 * leNat b

@[simp] theorem length_leBytes (n v : ℕ) : (leBytes n v).length = n := by
  induction n generalizing v with
  | zero => rfl
  | succ n ih => simp [leBytes, ih]

/-- A word of `n` bytes keeps the number modulo `256 ^ n`. -/
theorem leNat_leBytes (n v : ℕ) : leNat (leBytes n v) = v % 256 ^ n := by
  induction n generalizing v with
  | zero => simp [leBytes, leNat, Nat.mod_one]
  | succ n ih =>
      have hb : (UInt8.ofNat v).toNat = v % 256 := by simp
      rw [leBytes, leNat, ih, hb, Nat.pow_succ, Nat.mul_comm (256 ^ n) 256,
        Nat.mod_mul]

/-- The number of `n` bytes is below `256 ^ n`. -/
theorem leNat_lt (b : Bytes) : leNat b < 256 ^ b.length := by
  induction b with
  | nil => simp [leNat]
  | cons x b ih =>
      have hx : x.toNat < 256 := x.toNat_lt
      rw [leNat, List.length_cons, Nat.pow_succ]
      omega

/-- Equal numbers of equal width are equal strings. -/
theorem leBytes_leNat (b : Bytes) : leBytes b.length (leNat b) = b := by
  induction b with
  | nil => rfl
  | cons x b ih =>
      have hx : x.toNat < 256 := x.toNat_lt
      rw [List.length_cons, leBytes, leNat]
      have hdiv : (x.toNat + 256 * leNat b) / 256 = leNat b := by omega
      have hmod : UInt8.ofNat (x.toNat + 256 * leNat b) = x := by
        apply UInt8.toNat_inj.mp
        simp
      rw [hdiv, hmod, ih]

/-! ### Exclusive or -/

/-- The bytewise exclusive or, as long as the shorter operand. -/
def xorBytes (a b : Bytes) : Bytes :=
  List.zipWith (· ^^^ ·) a b

@[simp] theorem length_xorBytes (a b : Bytes) :
    (xorBytes a b).length = min a.length b.length := by
  simp [xorBytes]

/-- A keystream undoes itself. -/
theorem xorBytes_xorBytes {a k : Bytes} (h : a.length ≤ k.length) :
    xorBytes (xorBytes a k) k = a := by
  induction a generalizing k with
  | nil => rfl
  | cons x a ih =>
      cases k with
      | nil => simp at h
      | cons y k =>
          have ih' := ih (k := k) (by simpa using h)
          simp only [xorBytes, List.zipWith_cons_cons] at ih' ⊢
          rw [ih', UInt8.xor_assoc, UInt8.xor_self, UInt8.xor_zero]

theorem take_xorBytes (a k : Bytes) (n : ℕ) :
    (xorBytes a k).take n = xorBytes (a.take n) (k.take n) :=
  List.take_zipWith

/-- An exclusive or in two parts. -/
theorem xorBytes_append {a k : Bytes} (h : a.length = k.length) (b l : Bytes) :
    xorBytes (a ++ b) (k ++ l) = xorBytes a k ++ xorBytes b l :=
  List.zipWith_append h

/-- The second operand counts as far as the first one goes. -/
theorem xorBytes_take_right (a k : Bytes) :
    xorBytes a (k.take a.length) = xorBytes a k := by
  have htake := take_xorBytes a k a.length
  rw [List.take_length, List.take_of_length_le (by simp)] at htake
  exact htake.symm

/-- What follows a second operand that is long enough does not count. -/
theorem xorBytes_append_right {a k : Bytes} (h : a.length ≤ k.length) (l : Bytes) :
    xorBytes a (k ++ l) = xorBytes a k := by
  rw [← xorBytes_take_right, List.take_append_of_le_length h, xorBytes_take_right]

/-- The exclusive or acts on the numbers the strings denote. -/
theorem leNat_xorBytes {a b : Bytes} (h : a.length = b.length) :
    leNat (xorBytes a b) = leNat a ^^^ leNat b := by
  induction a generalizing b with
  | nil =>
      cases b with
      | nil => rfl
      | cons y b => simp at h
  | cons x a ih =>
      cases b with
      | nil => simp at h
      | cons y b =>
          have hx : x.toNat < 2 ^ 8 := x.toNat_lt
          have hy : y.toNat < 2 ^ 8 := y.toNat_lt
          have hxy : x.toNat ^^^ y.toNat < 2 ^ 8 := Nat.xor_lt_two_pow hx hy
          have ih' := ih (b := b) (by simpa using h)
          simp only [xorBytes, List.zipWith_cons_cons, leNat, UInt8.toNat_xor] at ih' ⊢
          rw [ih', Nat.add_comm, Nat.add_comm x.toNat, Nat.add_comm y.toNat]
          apply Nat.eq_of_testBit_eq
          intro i
          rw [Nat.testBit_xor, show (256 : ℕ) = 2 ^ 8 from rfl,
            Nat.testBit_two_pow_mul_add _ hxy, Nat.testBit_two_pow_mul_add _ hx,
            Nat.testBit_two_pow_mul_add _ hy]
          split <;> simp [Nat.testBit_xor]

end Bytes
