import AwgProxy.Session

/-!
# The Session Table as a Map

Seen from its two operations the table is a map from session indices to entries that forgets:
an insertion into a full window takes the place of another session. Lookups and insertions walk
windows that overlap, with free, matching and foreign slots in any order.

* `sessionGetEntry_put_self` — an insertion is found.
* `sessionLookup_put` — every other index keeps what it finds, unless the entry it found is the
  one written over.
* `live_putSlot` — that happens in a full window only, to the index in its home slot.
* `mapLaw` — the law of the map, for every table.
-/

namespace AwgProxy

/-- What a lookup gives: the slot and the entry in it. -/
def sessionLookup (t : SessionTable) (index : UInt32) : Option (Slot × SessionEntry) :=
  (sessionGetEntry t index).map fun s => (s, t.sessions s)

/-- All four slots of the window are taken by other sessions. -/
def SessionTable.WindowFull (t : SessionTable) (index : UInt32) : Prop :=
  ∀ i, i < 4 → (t.sessions (probeSlot index i)).valid = true ∧
    (t.sessions (probeSlot index i)).senderIndex ≠ index

/-- What an insertion into slot `s` does to the map from indices to entries. -/
structure MapLaw (t t' : SessionTable) (s : Slot) (index : UInt32) (addr : CliAddr)
    (prof : Fin awgMaxProfiles) : Prop where
  /-- The index finds the entry. -/
  found : sessionGetEntry t' index = some s
  /-- It has the address. -/
  addr_eq : (t'.sessions s).addr = addr
  /-- It has the profile. -/
  prof_eq : (t'.sessions s).prof = prof
  /-- What was known of the peer stays with a session that had the slot. -/
  kept : t.Live s index → (t'.sessions s).peerSlot = (t.sessions s).peerSlot ∧
    (t'.sessions s).serverIndex = (t.sessions s).serverIndex
  /-- Nothing is known of the peer of a new one. -/
  fresh : ¬ t.Live s index → (t'.sessions s).peerSlot = -1 ∧ (t'.sessions s).serverIndex = 0
  /-- Another index finds what it found, unless that was the entry in the home slot of a full
  window. -/
  frame : ∀ other, other ≠ index → sessionLookup t' other = sessionLookup t other ∨
    t.WindowFull index ∧ other = (t.sessions (homeSlot index)).senderIndex ∧
      sessionGetEntry t other = some (homeSlot index) ∧
        sessionGetEntry t' other ≠ some (homeSlot index)

/-! ### The lookups after an insertion -/

theorem sessionGetEntry_eq_none_iff {t : SessionTable} {index : UInt32} :
    sessionGetEntry t index = none ↔ ∀ i, i < 4 → ¬ t.Live (probeSlot index i) index := by
  rw [sessionGetEntry, probe, List.find?_map_range_eq_none_iff]
  simp only [Bool.and_eq_false_iff, decide_eq_false_iff_not, SessionTable.Live, not_and_or,
    Bool.not_eq_true]

/-- An entry that is found has the index. -/
theorem live_of_sessionGetEntry {t : SessionTable} {index : UInt32} {s : Slot}
    (h : sessionGetEntry t index = some s) : t.Live s index := by
  obtain ⟨_, _, _, hlive, _⟩ := sessionGetEntry_eq_some_iff.mp h
  exact hlive

/-- The entries in use after an insertion: the one written, and the others as they were. -/
theorem live_sessionPutProf {t : SessionTable} {index j : UInt32} {addr : CliAddr}
    {prof : Fin awgMaxProfiles} {s : Slot} :
    (sessionPutProf t index addr prof).1.Live s j ↔
      s = putSlot t index ∧ j = index ∨ s ≠ putSlot t index ∧ t.Live s j := by
  rw [sessionPutProf_eq, SessionTable.Live]
  by_cases hs : s = putSlot t index
  · subst hs
    rw [sessions_set_self, putEntry_valid, putEntry_senderIndex]
    simp [eq_comm]
  · rw [sessions_set_of_ne t _ hs]
    simp [hs, SessionTable.Live]

section Put

variable (t : SessionTable) (index : UInt32) (addr : CliAddr) (prof : Fin awgMaxProfiles)

/-- The table after the insertion, slot by slot. -/
theorem sessions_put (s : Slot) :
    (sessionPutProf t index addr prof).1.sessions s =
      if s = putSlot t index then putEntry (t.sessions s) index addr prof else t.sessions s := by
  rw [sessionPutProf_eq]
  split
  · next h => rw [h, sessions_set_self]
  · next h => rw [sessions_set_of_ne t _ h]

/-- For another index the slot written is lost, and the others are as they were. -/
theorem live_put_of_ne {other : UInt32} (hne : other ≠ index) (s : Slot) :
    (sessionPutProf t index addr prof).1.Live s other ↔
      t.Live s other ∧ s ≠ putSlot t index := by
  rw [live_sessionPutProf, or_iff_right fun h => hne h.2, and_comm]

/-- No slot in front of the one written is open. -/
theorem not_open_of_lt_putSlot {i : ℕ} (hi : i < 4) (hput : probeSlot index i = putSlot t index)
    {j : ℕ} (hj : j < i) : ¬ t.Open (probeSlot index j) index := by
  rcases h : putSlot? t index with _ | s
  · exact putSlot?_eq_none_iff.mp h j (by omega)
  · obtain ⟨k, hk, hs, -, hlt⟩ := putSlot?_eq_some_iff.mp h
    rw [putSlot, h, Option.getD_some, ← hs] at hput
    exact hlt j (probeSlot_inj hi hk hput ▸ hj)

/-- **The index finds the entry written.** -/
theorem sessionGetEntry_put_self :
    sessionGetEntry (sessionPutProf t index addr prof).1 index = some (putSlot t index) := by
  obtain ⟨i, hi, hput⟩ := mem_probe_iff.mp (putSlot_mem_probe t index)
  refine sessionGetEntry_eq_some_iff.mpr
    ⟨i, hi, hput, live_sessionPutProf.mpr (Or.inl ⟨rfl, rfl⟩), ?_⟩
  intro j hj hlive
  have hne : probeSlot index j ≠ putSlot t index := by
    intro h
    exact absurd (probeSlot_inj (by omega) hi (h.trans hput.symm)) (by omega)
  rcases live_sessionPutProf.mp hlive with ⟨h, -⟩ | ⟨-, hold⟩
  · exact hne h
  · exact not_open_of_lt_putSlot t index hi hput hj hold.open

/-- **Another index finds what it found, unless that is the slot written.** -/
theorem sessionGetEntry_put_of_ne {other : UInt32} (hne : other ≠ index)
    (hslot : sessionGetEntry t other ≠ some (putSlot t index)) :
    sessionGetEntry (sessionPutProf t index addr prof).1 other = sessionGetEntry t other := by
  rcases h : sessionGetEntry t other with _ | s
  · refine sessionGetEntry_eq_none_iff.mpr fun i hi hlive => ?_
    exact sessionGetEntry_eq_none_iff.mp h i hi
      ((live_put_of_ne t index addr prof hne _).mp hlive).1
  · obtain ⟨i, hi, hs, hlive, hlt⟩ := sessionGetEntry_eq_some_iff.mp h
    have hkept : s ≠ putSlot t index := by
      rintro rfl
      exact hslot h
    refine sessionGetEntry_eq_some_iff.mpr
      ⟨i, hi, hs, (live_put_of_ne t index addr prof hne s).mpr ⟨hlive, hkept⟩, fun j hj hput => ?_⟩
    exact hlt j hj ((live_put_of_ne t index addr prof hne _).mp hput).1

theorem sessionLookup_put {other : UInt32} (hne : other ≠ index)
    (hslot : sessionGetEntry t other ≠ some (putSlot t index)) :
    sessionLookup (sessionPutProf t index addr prof).1 other = sessionLookup t other := by
  rw [sessionLookup, sessionLookup, sessionGetEntry_put_of_ne t index addr prof hne hslot]
  refine Option.map_congr fun s hs => ?_
  rw [sessions_put, if_neg]
  rintro rfl
  exact hslot hs

/-- **A session of another index is written over in a full window only, in its home slot.** -/
theorem live_putSlot {other : UInt32} (hne : other ≠ index)
    (hlive : t.Live (putSlot t index) other) :
    t.WindowFull index ∧ putSlot t index = homeSlot index := by
  rcases h : putSlot? t index with _ | s
  · refine ⟨fun i hi => ?_, by rw [putSlot, h, Option.getD_none]⟩
    have hclosed := putSlot?_eq_none_iff.mp h i hi
    simpa [SessionTable.Open, not_or] using hclosed
  · -- a slot that is taken for the index has no other
    obtain ⟨-, -, -, hopen, -⟩ := putSlot?_eq_some_iff.mp h
    rw [putSlot, h, Option.getD_some] at hlive
    rcases hopen with hfree | hown
    · rw [hlive.1] at hfree
      cases hfree
    · exact absurd (hlive.2.symm.trans hown) hne

/-- **The table is a map that may forget one other session, that in the home slot of a full
window.** -/
theorem mapLaw : MapLaw t (sessionPutProf t index addr prof).1
    (sessionPutProf t index addr prof).2 index addr prof := by
  have hslot : (sessionPutProf t index addr prof).2 = putSlot t index := by
    rw [sessionPutProf_eq]
  have hentry : (sessionPutProf t index addr prof).1.sessions (putSlot t index) =
      putEntry (t.sessions (putSlot t index)) index addr prof := by
    rw [sessions_put, if_pos rfl]
  rw [hslot]
  refine ⟨sessionGetEntry_put_self t index addr prof, ?_, ?_, ?_, ?_, ?_⟩
  · rw [hentry, putEntry_addr]
  · rw [hentry, putEntry_prof]
  · intro hlive
    rw [hentry, putEntry_peerSlot, putEntry_serverIndex]
    exact ⟨if_pos hlive, if_pos hlive⟩
  · intro hlive
    rw [hentry, putEntry_peerSlot, putEntry_serverIndex]
    exact ⟨if_neg hlive, if_neg hlive⟩
  · intro other hne
    by_cases hget : sessionGetEntry t other = some (putSlot t index)
    · have hlive := live_of_sessionGetEntry hget
      obtain ⟨hfull, hhome⟩ := live_putSlot t index hne hlive
      rw [hhome] at hget hlive
      refine Or.inr ⟨hfull, hlive.2.symm, hget, fun hagain => ?_⟩
      have hlost := live_of_sessionGetEntry hagain
      exact ((live_put_of_ne t index addr prof hne _).mp hlost).2 hhome.symm
    · exact Or.inl (sessionLookup_put t index addr prof hne hget)

end Put

end AwgProxy
