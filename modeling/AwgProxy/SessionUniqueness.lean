import Mathlib.Data.Fintype.Basic
import AwgProxy.Lib.Machine
import AwgProxy.SessionMap

/-!
# Uniqueness in the Session Table

Runs of the table's operations in any order and with any arguments: is there at most one
entry in use for each index, and does a search return the address last given for it?

An insertion takes the first open slot of its window. The one thing that goes wrong is a
hole, made by `session_drop_moved_peer` in front of an entry that is still in use: the
next insertion of that index goes into the hole and leaves the old entry behind
(`PutOk`). `forall_unique_fresh_iff` says that nothing else does, for every run.

The run is observed by the history of the addresses given (`latestAddr`); the invariant is
`SessionInv`, and each operation preserves it (`SessionInv.step`).
-/

namespace AwgProxy

/-- The operations on the session table. -/
inductive SessionOp
  /-- `session_put_prof`. -/
  | put (index : UInt32) (addr : CliAddr) (prof : Fin awgMaxProfiles)
  /-- `session_set_peer_slot`. -/
  | setPeerSlot (entry : Option Slot) (peerSlot : ℤ)
  /-- `session_set_server_index`. -/
  | setServerIndex (entry : Option Slot) (sidx : UInt32)
  /-- `session_drop_moved_peer`. -/
  | dropMovedPeer (peerSlot : ℤ) (cur : CliAddr)
  /-- `session_follow_client`. -/
  | followClient (sidx : UInt32) (src : CliAddr) (ctr : UInt64)

/-- The table after an operation. -/
def sessionStep (t : SessionTable) : SessionOp → SessionTable
  | .put index addr prof => (sessionPutProf t index addr prof).1
  | .setPeerSlot entry k => sessionSetPeerSlot t entry k
  | .setServerIndex entry sidx => sessionSetServerIndex t entry sidx
  | .dropMovedPeer k cur => sessionDropMovedPeer t k cur
  | .followClient sidx src ctr => (sessionFollowClient t sidx src ctr).1

/-- The session table as a machine; every operation is always possible. -/
def sessionMachine : Machine SessionTable SessionOp where
  step t op := some (sessionStep t op)

/-! ### The addresses given -/

/-- The address last given for each index: by its insertion, or by following the client of
an entry of the index to another address. -/
def latestAddr (t : SessionTable) (op : SessionOp) (t' : SessionTable)
    (g : UInt32 → CliAddr) : UInt32 → CliAddr :=
  match op with
  | .put index addr _ => Function.update g index addr
  | .followClient _ src _ => fun j =>
      if ∃ s, t.Live s j ∧ (t'.sessions s).addr ≠ (t.sessions s).addr then src else g j
  | _ => g

/-- The table beside that history. -/
def sessionGhost : Machine (SessionTable × (UInt32 → CliAddr)) SessionOp :=
  sessionMachine.ghost latestAddr

/-- No two entries in use have one index. -/
def SessionTable.Unique (t : SessionTable) : Prop :=
  ∀ s s' index, t.Live s index → t.Live s' index → s = s'

/-- A search returns the address last given. -/
def SessionTable.Fresh (t : SessionTable) (g : UInt32 → CliAddr) : Prop :=
  ∀ index s, sessionGetEntry t index = some s → (t.sessions s).addr = g index

/-- No free slot stands in front of an entry in use of the index, in the index's window. -/
def PutOk (t : SessionTable) (index : UInt32) : Prop :=
  ∀ i j, i < j → j < 4 → (t.sessions (probeSlot index i)).valid = false →
    ¬ t.Live (probeSlot index j) index

/-- The condition on an operation in the state it is taken in. -/
def SessionOp.Ok (t : SessionTable) : SessionOp → Prop
  | .put index _ _ => PutOk t index
  | _ => True

/-- Every entry in use stands in the window of its index. -/
def SessionTable.InWindow (t : SessionTable) : Prop :=
  ∀ s index, t.Live s index → s ∈ probe index

/-- The invariant: unique entries in their windows, each with the address last given. -/
structure SessionInv (p : SessionTable × (UInt32 → CliAddr)) : Prop where
  unique : p.1.Unique
  window : p.1.InWindow
  latest : ∀ s index, p.1.Live s index → (p.1.sessions s).addr = p.2 index

theorem SessionInv.fresh {p : SessionTable × (UInt32 → CliAddr)} (h : SessionInv p) :
    p.1.Fresh p.2 := by
  intro index s hget
  obtain ⟨i, -, -, hlive, -⟩ := sessionGetEntry_eq_some_iff.mp hget
  exact h.latest s index hlive

/-! ### What an operation does to an entry -/

/-- Dropping a peer that moved only takes entries out of use. -/
theorem live_sessionDropMovedPeer {t : SessionTable} {k : ℤ} {cur : CliAddr} {s : Slot}
    {index : UInt32} (h : (sessionDropMovedPeer t k cur).Live s index) :
    t.Live s index ∧ ((sessionDropMovedPeer t k cur).sessions s).addr = (t.sessions s).addr := by
  rw [SessionTable.Live, sessions_sessionDropMovedPeer] at h
  rw [sessions_sessionDropMovedPeer]
  split at h
  · exact absurd h.1 Bool.false_ne_true
  · rename_i hkeep
    rw [if_neg hkeep]
    exact ⟨h, rfl⟩

/-- A moved client keeps its entries in use. -/
theorem live_moveClient {t : SessionTable} {old new : CliAddr} {s : Slot} {index : UInt32} :
    (moveClient t old new).Live s index ↔ t.Live s index := by
  rw [SessionTable.Live, sessions_moveClient, SessionTable.Live]
  split
  · exact Iff.rfl
  · exact Iff.rfl

/-- The entries in use at the old address are at the new one. -/
theorem addr_moveClient {t : SessionTable} {old new : CliAddr} {s : Slot}
    (hv : (t.sessions s).valid = true) :
    ((moveClient t old new).sessions s).addr =
      if (t.sessions s).addr = old then new else (t.sessions s).addr := by
  rw [sessions_moveClient]
  by_cases hold : (t.sessions s).addr = old
  · rw [if_pos ⟨hv, hold⟩, if_pos hold]
  · rw [if_neg fun hc => hold hc.2, if_neg hold]

/-- A table whose routing, use, index and address of every entry, is the same. -/
def SameRouting (t t' : SessionTable) : Prop :=
  ∀ s, (t'.sessions s).valid = (t.sessions s).valid ∧
    (t'.sessions s).senderIndex = (t.sessions s).senderIndex ∧
    (t'.sessions s).addr = (t.sessions s).addr

theorem SameRouting.live_iff {t t' : SessionTable} (h : SameRouting t t') {s : Slot}
    {index : UInt32} : t'.Live s index ↔ t.Live s index := by
  obtain ⟨hv, hi, -⟩ := h s
  rw [SessionTable.Live, hv, hi, SessionTable.Live]

theorem SameRouting.inv {t t' : SessionTable} {g : UInt32 → CliAddr} (h : SameRouting t t')
    (hi : SessionInv (t, g)) : SessionInv (t', g) where
  unique s s' index hs hs' := hi.unique s s' index (h.live_iff.mp hs) (h.live_iff.mp hs')
  window s index hs := hi.window s index (h.live_iff.mp hs)
  latest s index hs := (h s).2.2.trans (hi.latest s index (h.live_iff.mp hs))

theorem sameRouting_sessionSetPeerSlot (t : SessionTable) (entry : Option Slot) (k : ℤ) :
    SameRouting t (sessionSetPeerSlot t entry k) := by
  intro s
  rw [sessions_sessionSetPeerSlot]
  split <;> exact ⟨rfl, rfl, rfl⟩

theorem sameRouting_sessionSetServerIndex (t : SessionTable) (entry : Option Slot)
    (sidx : UInt32) : SameRouting t (sessionSetServerIndex t entry sidx) := by
  intro s
  rw [sessions_sessionSetServerIndex]
  split <;> exact ⟨rfl, rfl, rfl⟩

/-- An entry rewritten with the same routing. -/
theorem sameRouting_set {t : SessionTable} {s : Slot} {e : SessionEntry}
    (hv : e.valid = (t.sessions s).valid) (hi : e.senderIndex = (t.sessions s).senderIndex)
    (ha : e.addr = (t.sessions s).addr) : SameRouting t (t.set s e) := by
  intro s'
  by_cases h : s' = s
  · subst h
    rw [sessions_set_self]
    exact ⟨hv, hi, ha⟩
  · rw [sessions_set_of_ne t e h]
    exact ⟨rfl, rfl, rfl⟩

/-- **Following a client** keeps the routing, or moves every entry of one address to the
source. -/
theorem sessionFollowClient_cases (t : SessionTable) (sidx : UInt32) (src : CliAddr)
    (ctr : UInt64) :
    SameRouting t (sessionFollowClient t sidx src ctr).1 ∧
        (sessionFollowClient t sidx src ctr).2 = false ∨
      ∃ t' old, SameRouting t t' ∧ old ≠ src ∧
        sessionFollowClient t sidx src ctr = (moveClient t' old src, true) := by
  have hsame : SameRouting t t := fun _ => ⟨rfl, rfl, rfl⟩
  rcases hget : sessionGetByServerIndex t sidx with _ | s
  · left
    simp only [sessionFollowClient, hget]
    exact ⟨hsame, trivial⟩
  · -- the entry, with its counter restarted for a new session
    obtain ⟨e, he⟩ : ∃ e, (if (t.sessions s).ctrSidx ≠ sidx then
        { t.sessions s with ctrSidx := sidx, ctrNext := 0 } else t.sessions s) = e := ⟨_, rfl⟩
    have hv : e.valid = (t.sessions s).valid := by
      rw [← he]
      split <;> rfl
    have hi : e.senderIndex = (t.sessions s).senderIndex := by
      rw [← he]
      split <;> rfl
    have ha : e.addr = (t.sessions s).addr := by
      rw [← he]
      split <;> rfl
    simp only [sessionFollowClient, hget, he]
    by_cases hold : e.ctrNext ≠ 0 ∧ (ctr < e.ctrNext ∨ ctr - e.ctrNext > sessionCtrLeap)
    · left
      rw [if_pos hold]
      exact ⟨sameRouting_set hv hi ha, rfl⟩
    · rw [if_neg hold]
      by_cases heq : cliaddrEq e.addr src = true
      · left
        rw [if_pos heq]
        exact ⟨sameRouting_set hv hi ha, rfl⟩
      · right
        rw [if_neg heq]
        refine ⟨t.set s { e with ctrNext := ctr + 1 }, e.addr, sameRouting_set hv hi ha, ?_, rfl⟩
        simpa [cliaddrEq] using heq

/-! ### The invariant -/

/-- Every entry in use stands in its window, whatever the insertions. -/
theorem SessionTable.InWindow.step {t : SessionTable} (h : t.InWindow) (op : SessionOp) :
    (sessionStep t op).InWindow := by
  intro s index hs
  cases op with
  | put i addr prof =>
      rcases live_sessionPutProf.mp hs with ⟨rfl, rfl⟩ | ⟨-, hold⟩
      · exact putSlot_mem_probe t _
      · exact h s index hold
  | setPeerSlot entry k =>
      exact h s index ((sameRouting_sessionSetPeerSlot t entry k).live_iff.mp hs)
  | setServerIndex entry sidx =>
      exact h s index ((sameRouting_sessionSetServerIndex t entry sidx).live_iff.mp hs)
  | dropMovedPeer k cur =>
      exact h s index (live_sessionDropMovedPeer hs).1
  | followClient sidx src ctr =>
      simp only [sessionStep] at hs
      rcases sessionFollowClient_cases t sidx src ctr with ⟨hsame, -⟩ | ⟨t', old, hsame, -, heq⟩
      · exact h s index (hsame.live_iff.mp hs)
      · rw [heq] at hs
        exact h s index (hsame.live_iff.mp (live_moveClient.mp hs))

/-- Under `PutOk`, an entry of the index that is in use is the one an insertion takes. -/
theorem PutOk.eq_putSlot {t : SessionTable} {index : UInt32} (hok : PutOk t index)
    (hu : t.Unique) (hw : t.InWindow) {s : Slot} (hs : t.Live s index) :
    s = putSlot t index := by
  obtain ⟨j, hj, rfl⟩ := mem_probe_iff.mp (hw s index hs)
  rcases hput : putSlot? t index with _ | s'
  · exact absurd hs.open (putSlot?_eq_none_iff.mp hput j hj)
  · obtain ⟨i, hi, rfl, hopen, hlt⟩ := putSlot?_eq_some_iff.mp hput
    have hslot : putSlot t index = probeSlot index i := by
      rw [putSlot, hput, Option.getD_some]
    rw [hslot]
    rcases Nat.lt_trichotomy i j with hij | rfl | hji
    · cases hv : (t.sessions (probeSlot index i)).valid with
      | false => exact absurd hs (hok i j hij hj hv)
      | true =>
          rcases hopen with hfree | hidx
          · rw [hv] at hfree
            contradiction
          · exact hu _ _ index hs ⟨hv, hidx⟩
    · rfl
    · exact absurd hs.open (hlt j hji)

/-- An insertion under `PutOk` keeps the entries in use unique. -/
theorem SessionTable.Unique.put {t : SessionTable} {index : UInt32} (hu : t.Unique)
    (hw : t.InWindow) (hok : PutOk t index) (addr : CliAddr) (prof : Fin awgMaxProfiles) :
    (sessionPutProf t index addr prof).1.Unique := by
  intro s s' j hs hs'
  rcases live_sessionPutProf.mp hs with ⟨rfl, rfl⟩ | ⟨hne, hold⟩
  · rcases live_sessionPutProf.mp hs' with ⟨rfl, -⟩ | ⟨hne', hold'⟩
    · rfl
    · exact absurd (hok.eq_putSlot hu hw hold') hne'
  · rcases live_sessionPutProf.mp hs' with ⟨rfl, rfl⟩ | ⟨-, hold'⟩
    · exact absurd (hok.eq_putSlot hu hw hold) hne
    · exact hu s s' j hold hold'

/-- An insertion under `PutOk`. -/
theorem SessionInv.put {t : SessionTable} {g : UInt32 → CliAddr} {index : UInt32}
    (h : SessionInv (t, g)) (hok : PutOk t index) (addr : CliAddr) (prof : Fin awgMaxProfiles) :
    SessionInv ((sessionPutProf t index addr prof).1, Function.update g index addr) := by
  have hput : ∀ {s}, t.Live s index → s = putSlot t index := hok.eq_putSlot h.unique h.window
  refine ⟨h.unique.put h.window hok addr prof, h.window.step (.put index addr prof),
    fun s j hs => ?_⟩
  dsimp only
  rcases live_sessionPutProf.mp hs with ⟨rfl, rfl⟩ | ⟨hne, hold⟩
  · rw [sessionPutProf_eq, sessions_set_self, putEntry_addr, Function.update_self]
  · have hj : j ≠ index := by
      rintro rfl
      exact hne (hput hold)
    rw [sessionPutProf_eq, sessions_set_of_ne _ _ hne, Function.update_of_ne hj]
    exact h.latest s j hold

/-- A peer that moved is dropped. -/
theorem SessionInv.dropMovedPeer {t : SessionTable} {g : UInt32 → CliAddr}
    (h : SessionInv (t, g)) (k : ℤ) (cur : CliAddr) :
    SessionInv (sessionDropMovedPeer t k cur, g) where
  unique s s' j hs hs' :=
    h.unique s s' j (live_sessionDropMovedPeer hs).1 (live_sessionDropMovedPeer hs').1
  window s j hs := h.window s j (live_sessionDropMovedPeer hs).1
  latest s j hs :=
    (live_sessionDropMovedPeer hs).2.trans (h.latest s j (live_sessionDropMovedPeer hs).1)

/-- A client that moves: the indices of the entries at its old address have the new one. -/
theorem SessionInv.moved {t t' : SessionTable} {g : UInt32 → CliAddr} {old src : CliAddr}
    (h : SessionInv (t, g)) (hsame : SameRouting t t') (hne : old ≠ src) :
    SessionInv (moveClient t' old src, fun j =>
      if ∃ s, t.Live s j ∧ ((moveClient t' old src).sessions s).addr ≠ (t.sessions s).addr
      then src else g j) := by
  have hlive : ∀ {s j}, (moveClient t' old src).Live s j → t.Live s j := fun hs =>
    hsame.live_iff.mp (live_moveClient.mp hs)
  have haddr : ∀ s, (t.sessions s).valid = true →
      ((moveClient t' old src).sessions s).addr =
        if (t.sessions s).addr = old then src else (t.sessions s).addr := by
    intro s hv
    obtain ⟨hv', -, ha'⟩ := hsame s
    rw [addr_moveClient (hv'.trans hv), ha']
  refine ⟨fun s s' j hs hs' => h.unique s s' j (hlive hs) (hlive hs'),
    fun s j hs => h.window s j (hlive hs), fun s j hs => ?_⟩
  have hs₀ := hlive hs
  dsimp only
  rw [haddr s hs₀.1]
  by_cases hold : (t.sessions s).addr = old
  · have hmoved : ((moveClient t' old src).sessions s).addr ≠ (t.sessions s).addr := by
      rw [haddr s hs₀.1, if_pos hold, hold]
      exact hne.symm
    rw [if_pos hold, if_pos ⟨s, hs₀, hmoved⟩]
  · rw [if_neg hold, if_neg]
    · exact h.latest s j hs₀
    · -- no other entry has the index
      rintro ⟨s', hs', hmoved⟩
      obtain rfl := h.unique s s' j hs₀ hs'
      rw [haddr s hs'.1, if_neg hold] at hmoved
      exact hmoved rfl

/-- **One operation** preserves the invariant, an insertion under `PutOk`. -/
theorem SessionInv.step {t : SessionTable} {g : UInt32 → CliAddr} {op : SessionOp}
    (h : SessionInv (t, g)) (hok : op.Ok t) :
    SessionInv (sessionStep t op, latestAddr t op (sessionStep t op) g) := by
  cases op with
  | put index addr prof => exact h.put hok addr prof
  | setPeerSlot entry k => exact (sameRouting_sessionSetPeerSlot t entry k).inv h
  | setServerIndex entry sidx => exact (sameRouting_sessionSetServerIndex t entry sidx).inv h
  | dropMovedPeer k cur => exact h.dropMovedPeer k cur
  | followClient sidx src ctr =>
      rcases sessionFollowClient_cases t sidx src ctr with ⟨hsame, -⟩ | ⟨t', old, hsame, hne, heq⟩
      · have hg : latestAddr t (.followClient sidx src ctr)
            (sessionStep t (.followClient sidx src ctr)) g = g := by
          funext j
          simp only [latestAddr]
          rw [if_neg]
          rintro ⟨s, -, hs⟩
          exact hs (hsame s).2.2
        rw [hg]
        exact hsame.inv h
      · simp only [sessionStep, latestAddr, heq]
        exact h.moved hsame hne

/-- The invariant holds of the empty table. -/
theorem SessionInv.empty (g : UInt32 → CliAddr) : SessionInv (SessionTable.empty, g) where
  unique _ _ _ hs _ := absurd hs.1 Bool.false_ne_true
  window _ _ hs := absurd hs.1 Bool.false_ne_true
  latest _ _ hs := absurd hs.1 Bool.false_ne_true

/-- An insertion into a hole in front of the index's entry leaves two of them. -/
theorem not_unique_of_not_putOk {t : SessionTable} {index : UInt32} {addr : CliAddr}
    {prof : Fin awgMaxProfiles} (hok : ¬ PutOk t index) :
    ¬ (sessionPutProf t index addr prof).1.Unique := by
  intro hu'
  simp only [PutOk, not_forall, not_not] at hok
  obtain ⟨i, j, hij, hj, hfree, hlive⟩ := hok
  -- the insertion stops at the hole, or in front of it
  obtain ⟨k, hk, hki, hput, hopen⟩ : ∃ k, k < 4 ∧ k ≤ i ∧ putSlot t index = probeSlot index k ∧
      t.Open (probeSlot index k) index := by
    rcases hs : putSlot? t index with _ | s
    · exact absurd (Or.inl hfree) (putSlot?_eq_none_iff.mp hs i (by omega))
    · obtain ⟨k, hk, rfl, hopen, hlt⟩ := putSlot?_eq_some_iff.mp hs
      refine ⟨k, hk, ?_, by rw [putSlot, hs, Option.getD_some], hopen⟩
      by_contra hki
      exact hlt i (by omega) (Or.inl hfree)
  have hne : probeSlot index j ≠ probeSlot index k := by
    intro heq
    have := probeSlot_inj hj hk heq
    omega
  have hnew : (sessionPutProf t index addr prof).1.Live (putSlot t index) index :=
    live_sessionPutProf.mpr (Or.inl ⟨rfl, rfl⟩)
  have hstill : (sessionPutProf t index addr prof).1.Live (probeSlot index j) index :=
    live_sessionPutProf.mpr (Or.inr ⟨by rw [hput]; exact hne, hlive⟩)
  rw [hput] at hnew
  exact hne (hu' _ _ index hstill hnew)

/-! ### Runs -/

theorem sessionGhost_step_eq_some {p q : SessionTable × (UInt32 → CliAddr)} {op : SessionOp} :
    sessionGhost.step p op = some q ↔
      q = (sessionStep p.1 op, latestAddr p.1 op (sessionStep p.1 op) p.2) := by
  simp only [sessionGhost, Machine.ghost, sessionMachine, Option.map_some, Option.some.injEq,
    eq_comm]

/-- **The session table over whole runs.** From the empty table, in every state of a run
each index has at most one entry in use and a search for it returns the address last
given, if and only if every insertion of the run meets `PutOk`. -/
theorem forall_unique_fresh_iff (g : UInt32 → CliAddr) (ops : List SessionOp) :
    (∀ pre, pre <+: ops → ∀ p, sessionGhost.run (SessionTable.empty, g) pre = some p →
        p.1.Unique ∧ p.1.Fresh p.2) ↔
      sessionMachine.Meets (fun t op => op.Ok t) SessionTable.empty ops := by
  constructor
  · intro hall pre op post t hops hrun
    obtain ⟨g', hg'⟩ := Machine.exists_run_ghost latestAddr g hrun
    have hpre' : pre ++ [op] <+: ops := ⟨post, by rw [hops]; simp⟩
    cases op with
    | put index addr prof =>
        by_contra hok
        refine not_unique_of_not_putOk hok (hall _ hpre' (sessionStep t (.put index addr prof),
          latestAddr t (.put index addr prof) (sessionStep t (.put index addr prof)) g')
          ((Machine.run_concat_eq_some _).mpr ⟨_, hg', ?_⟩)).1
        exact sessionGhost_step_eq_some.mpr rfl
    | setPeerSlot entry k => exact trivial
    | setServerIndex entry sidx => exact trivial
    | dropMovedPeer k cur => exact trivial
    | followClient sidx src ctr => exact trivial
  · rintro hmeets pre ⟨post, rfl⟩ p hrun
    have hstep : ∀ q op q', SessionInv q → op.Ok q.1 → sessionGhost.step q op = some q' →
        SessionInv q' := by
      rintro q op q' hq hok hstep
      rw [sessionGhost_step_eq_some.mp hstep]
      exact hq.step hok
    have hinv : SessionInv p := Machine.guarded_induction hstep (SessionInv.empty g)
      (hmeets.of_append.ghost latestAddr g) hrun
    exact ⟨hinv.unique, hinv.fresh⟩

/-- The sessions 1 and 4097 share a window. The client of session 1 is retired; session
4097 comes back from a new address and lands in the hole; the hole is freed again. -/
def holeRun : List SessionOp :=
  [.put 1 (.v4 1 1) 0, .put 4097 (.v4 2 2) 0, .setPeerSlot (some 1) 0,
    .dropMovedPeer 0 (.v4 3 3), .put 4097 (.v4 4 4) 0]

/-- What frees the hole again. -/
def holeRunTail : List SessionOp :=
  [.setPeerSlot (some 1) 5, .dropMovedPeer 5 (.v4 5 5)]

/-- After the hole is filled session 4097 has two entries; once it is freed again, the
session is found at the address it left. -/
theorem not_unique_holeRun :
    (∃ p, sessionGhost.run (SessionTable.empty, fun _ => .v4 0 0) holeRun = some p ∧
      ¬ p.1.Unique) ∧
    ∃ p s, sessionGhost.run (SessionTable.empty, fun _ => .v4 0 0) (holeRun ++ holeRunTail) =
        some p ∧ sessionGetEntry p.1 4097 = some s ∧
      (p.1.sessions s).addr = .v4 2 2 ∧ p.2 4097 = .v4 4 4 := by
  constructor
  · refine ⟨_, rfl, fun hu => ?_⟩
    have h12 := hu 1 2 4097 (by decide) (by decide)
    exact absurd h12 (by decide)
  · refine ⟨_, 2, rfl, ?_, ?_, ?_⟩
    · decide
    · decide
    · decide

end AwgProxy
