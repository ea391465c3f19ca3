import AwgProxy.Lib.Bytes

/-!
# Blocks with the Last One Held Back

A stream is cut into blocks of `n`, and the last block, whole or not, is held back until it is
known whether anything follows it (`holdBack`): what it takes to treat the last block apart
while the length of the stream is still open. What is held back is empty only for the empty
stream, and it is all that has to be kept: a stream that goes on is cut as what was held back,
gone on with (`holdBack_append`).

* `flatten_holdBack`, `length_of_mem_holdBack` — the blocks and the rest make up the stream.
* `holdBack_append` — a stream in two parts.
* `holdBack_append_of_length` — a block in front of a stream that is not empty.
* `chunks_eq_holdBack` — the pieces of a byte string are the blocks and the rest.
-/

section

variable {α : Type*}

/-- The blocks of `n` a stream goes beyond, and the rest of at most `n`. -/
def holdBack (n : ℕ) (xs : List α) : List (List α) × List α :=
  if 0 < n ∧ n < xs.length then
    (xs.take n :: (holdBack n (xs.drop n)).1, (holdBack n (xs.drop n)).2)
  else ([], xs)
termination_by xs.length
decreasing_by all_goals rw [List.length_drop]; omega

/-- A stream of at most one block is held back. -/
theorem holdBack_of_le {n : ℕ} {xs : List α} (h : xs.length ≤ n) : holdBack n xs = ([], xs) := by
  rw [holdBack, if_neg (by omega)]

/-- A longer stream begins with a block. -/
theorem holdBack_of_lt {n : ℕ} {xs : List α} (hn : 0 < n) (h : n < xs.length) :
    holdBack n xs = (xs.take n :: (holdBack n (xs.drop n)).1, (holdBack n (xs.drop n)).2) := by
  conv_lhs => rw [holdBack, if_pos ⟨hn, h⟩]

/-- A block in front of a stream that is not empty. -/
theorem holdBack_append_of_length {n : ℕ} {xs ys : List α} (hn : 0 < n) (hxs : xs.length = n)
    (hys : ys ≠ []) :
    holdBack n (xs ++ ys) = (xs :: (holdBack n ys).1, (holdBack n ys).2) := by
  have hpos := List.length_pos_of_ne_nil hys
  rw [holdBack_of_lt hn (by rw [List.length_append]; omega), List.take_left' hxs,
    List.drop_left' hxs]

section

variable {n : ℕ} (hn : 0 < n) (xs : List α)

include hn

/-- At most one block is held back. -/
theorem length_holdBack_le : (holdBack n xs).2.length ≤ n := by
  induction xs using holdBack.induct n with
  | case1 xs h ih =>
      rw [holdBack_of_lt hn h.2]
      exact ih
  | case2 xs h =>
      have hle : xs.length ≤ n := by omega
      rwa [holdBack_of_le hle]

/-- The blocks are whole. -/
theorem length_of_mem_holdBack : ∀ b ∈ (holdBack n xs).1, b.length = n := by
  induction xs using holdBack.induct n with
  | case1 xs h ih =>
      rw [holdBack_of_lt hn h.2]
      refine List.forall_mem_cons.mpr ⟨?_, ih⟩
      rw [List.length_take]
      omega
  | case2 xs h =>
      rw [holdBack_of_le (by omega)]
      exact List.forall_mem_nil _

/-- The blocks and the rest make up the stream. -/
theorem flatten_holdBack : (holdBack n xs).1.flatten ++ (holdBack n xs).2 = xs := by
  induction xs using holdBack.induct n with
  | case1 xs h ih =>
      rw [holdBack_of_lt hn h.2, List.flatten_cons, List.append_assoc, ih, List.take_append_drop]
  | case2 xs h =>
      rw [holdBack_of_le (by omega)]
      rfl

/-- The length of the stream, by the blocks and the rest. -/
theorem length_eq_holdBack :
    xs.length = n * (holdBack n xs).1.length + (holdBack n xs).2.length := by
  have hsum : (holdBack n xs).1.flatten.length = n * (holdBack n xs).1.length := by
    rw [List.length_flatten, List.map_congr_left (length_of_mem_holdBack hn xs), List.map_const',
      List.sum_replicate_nat, Nat.mul_comm]
  conv_lhs => rw [← flatten_holdBack hn xs]
  rw [List.length_append, hsum]

/-- Nothing is held back of nothing only. -/
theorem holdBack_ne_nil (h : xs ≠ []) : (holdBack n xs).2 ≠ [] := by
  induction xs using holdBack.induct n with
  | case1 xs hlt ih =>
      rw [holdBack_of_lt hn hlt.2]
      refine ih (List.ne_nil_of_length_pos ?_)
      rw [List.length_drop]
      omega
  | case2 xs hlt => rwa [holdBack_of_le (by omega)]

/-- **A stream that goes on** is cut as what was held back, gone on with. -/
theorem holdBack_append (ys : List α) :
    holdBack n (xs ++ ys) =
      ((holdBack n xs).1 ++ (holdBack n ((holdBack n xs).2 ++ ys)).1,
        (holdBack n ((holdBack n xs).2 ++ ys)).2) := by
  induction xs using holdBack.induct n with
  | case1 xs h ih =>
      have hlen : n < (xs ++ ys).length := by
        rw [List.length_append]
        omega
      rw [holdBack_of_lt hn hlen, holdBack_of_lt hn h.2, List.take_append_of_le_length h.2.le,
        List.drop_append_of_le_length h.2.le, ih]
      rfl
  | case2 xs h => rw [holdBack_of_le (show xs.length ≤ n by omega), List.nil_append]

end

end

/-- **The pieces of a byte string** are the blocks and the rest. -/
theorem Bytes.chunks_eq_holdBack {n : ℕ} (hn : 0 < n) {b : Bytes} (hb : b ≠ []) :
    Bytes.chunks n b = (holdBack n b).1 ++ [(holdBack n b).2] := by
  have hrest := holdBack_ne_nil hn b hb
  have hfull := length_of_mem_holdBack hn b
  have hle := length_holdBack_le hn b
  have hjoin := flatten_holdBack hn b
  generalize holdBack n b = p at hrest hfull hle hjoin
  obtain ⟨bs, r⟩ := p
  have hflat : (bs ++ [r]).flatten = b := by rw [List.flatten_concat, hjoin]
  rw [← hflat]
  refine Bytes.chunks_flatten hn ?_ ?_ ?_
  · rw [List.dropLast_concat]
    exact hfull
  · refine List.forall_mem_append.mpr ⟨fun d hd => ?_, List.forall_mem_singleton.mpr hrest⟩
    exact List.ne_nil_of_length_pos (hn.trans_eq (hfull d hd).symm)
  · exact List.forall_mem_append.mpr
      ⟨fun d hd => (hfull d hd).le, List.forall_mem_singleton.mpr hle⟩
