import Mathlib.Data.List.Induction
import Mathlib.Data.List.Nodup

/-!
# First Occurrences

`List.eraseDups` keeps of every element the place where it first stands. A loop that looks an
element up among those it has kept, and appends it if it is not there, computes it one element
at a time (`eraseDups_concat`), from whatever it has kept so far (`eraseDups_append_eraseDups`).
-/

namespace List

variable {α : Type*} [BEq α] [LawfulBEq α]

/-- One more element is kept if it is new. -/
theorem eraseDups_concat [DecidableEq α] (l : List α) (a : α) :
    (l ++ [a]).eraseDups = if a ∈ l then l.eraseDups else l.eraseDups ++ [a] := by
  rw [eraseDups_append, cons_removeAll]
  by_cases ha : a ∈ l
  · simp [ha]
  · simp [ha, eraseDups_cons]

/-- Nothing is kept twice. -/
theorem nodup_eraseDups (l : List α) : l.eraseDups.Nodup := by
  classical
  induction l using List.reverseRecOn with
  | nil => exact .nil
  | append_singleton l a ih =>
      rw [eraseDups_concat]
      split
      · exact ih
      · rename_i ha
        rw [← concat_eq_append]
        exact ih.concat fun h => ha (mem_eraseDups.mp h)

/-- Where nothing stands twice, everything is kept. -/
theorem Nodup.eraseDups_eq {l : List α} (h : l.Nodup) : l.eraseDups = l := by
  classical
  induction l using List.reverseRecOn with
  | nil => rfl
  | append_singleton l a ih =>
      rw [← concat_eq_append, nodup_concat] at h
      rw [eraseDups_concat, if_neg h.1, ih h.2]

/-- What has been kept stands for what has been seen. -/
theorem eraseDups_append_eraseDups (l l' : List α) :
    (l.eraseDups ++ l').eraseDups = (l ++ l').eraseDups := by
  classical
  induction l' using List.reverseRecOn with
  | nil => rw [append_nil, append_nil, (nodup_eraseDups l).eraseDups_eq]
  | append_singleton l' a ih =>
      rw [← append_assoc, ← append_assoc, eraseDups_concat, eraseDups_concat, ih]
      simp only [mem_append, mem_eraseDups]

/-- What has been kept stays. -/
theorem eraseDups_prefix_append (l l' : List α) : l.eraseDups <+: (l ++ l').eraseDups := by
  rw [eraseDups_append]
  exact prefix_append _ _

end List
