import AwgProxy.Lib.Bytes

/-!
# Length-Prefixed Fields

A list of byte strings as one string: each behind a byte that holds its length. A reader that
is told how many there are stops there or where the string ends, whichever comes first, so
that a longer list keeps its first fields and a shorter one its last.

* `readFields_encodeFields` — reading gives back the fields there are, as long as each has a
  length that fits a byte.
* `length_lt_of_mem_readFields` — no field that is read is longer.
-/

namespace Fields

/-- The fields, each behind the low byte of its length. -/
def encodeFields (fs : List Bytes) : Bytes :=
  fs.flatMap fun f => UInt8.ofNat f.length :: f

/-- At most `n` fields, up to the end of the string. -/
def readFields : ℕ → Bytes → List Bytes
  | 0, _ => []
  | _ + 1, [] => []
  | n + 1, len :: r => r.take len.toNat :: readFields n (r.drop len.toNat)

theorem encodeFields_cons (f : Bytes) (fs : List Bytes) :
    encodeFields (f :: fs) = UInt8.ofNat f.length :: (f ++ encodeFields fs) :=
  rfl

/-- **Reading undoes writing**, as far as the count goes. -/
theorem readFields_encodeFields {fs : List Bytes} (h : ∀ f ∈ fs, f.length < 256) (n : ℕ) :
    readFields n (encodeFields fs) = fs.take n := by
  induction fs generalizing n with
  | nil =>
      rw [List.take_nil]
      cases n <;> rfl
  | cons f fs ih =>
      cases n with
      | zero => rfl
      | succ n =>
          have hlen : (UInt8.ofNat f.length).toNat = f.length :=
            UInt8.toNat_ofNat_of_lt' (h f List.mem_cons_self)
          rw [encodeFields_cons, readFields, hlen, List.take_left, List.drop_left,
            ih fun g hg => h g (List.mem_cons_of_mem f hg), List.take_succ_cons]

/-- A field that is read has a length that fits a byte. -/
theorem length_lt_of_mem_readFields {n : ℕ} {r f : Bytes} (h : f ∈ readFields n r) :
    f.length < 256 := by
  fun_induction readFields n r with
  | case1 r => contradiction
  | case2 n => contradiction
  | case3 n len r ih =>
      rcases List.mem_cons.mp h with rfl | h
      · exact (List.length_take_le _ _).trans_lt len.toNat_lt
      · exact ih h

end Fields
