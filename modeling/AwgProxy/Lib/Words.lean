import Mathlib.Algebra.Ring.Nat

/-!
# States of Sixteen Words

The working state of an add-rotate-xor function: sixteen 32-bit words, read and replaced
by number. The numbers of the words are literals of `Fin 16`.
-/

/-- Sixteen 32-bit words. -/
abbrev Words := Vector UInt32 16

namespace Words

/-- There is a word zero. -/
instance neZero : NeZero 16 := ⟨by decide⟩

/-- Word `i` of the state. -/
def word (x : Words) (i : Fin 16) : UInt32 :=
  x.get i

/-- The state with word `i` replaced. -/
def put (x : Words) (i : Fin 16) (v : UInt32) : Words :=
  x.set i v

/-- A state is its words. -/
theorem ext_word {x y : Words} (h : ∀ i, x.word i = y.word i) : x = y :=
  Vector.ext fun i hi => h ⟨i, hi⟩

/-- What is replaced is the one word. -/
theorem word_put (x : Words) (i : Fin 16) (v : UInt32) (j : Fin 16) :
    (x.put i v).word j = if i = j then v else x.word j := by
  have hset : (x.set i v)[j] = if i.val = j.val then v else x[j] := Vector.getElem_set i.isLt j.isLt
  simp only [← Fin.ext_iff] at hset
  exact hset

end Words
