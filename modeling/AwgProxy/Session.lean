import Mathlib.Logic.Function.Basic
import AwgProxy.Lib.Search
import AwgProxy.Config

/-!
# The Session Table

The table of `proxy.h` that routes packets to clients in server mode: 4096 entries found
by WireGuard's session index over a window of four slots, with a second map from our own
WireGuard's indices. The operations are the source's; an entry pointer is a slot number.

Every search is characterised by what it finds, so that nothing later walks a window or
the 4096 slots:

* `sessionGetEntry_eq_some_iff`, `putSlot?_eq_some_iff` — the searches of a window.
* `sessionPutProf_eq` — an insertion is one rewritten entry, wherever it finds its slot.
* `sessionFindSoleEntry_eq_some_iff`, `sessionFindByPeer_eq_some_iff` — the scans of the
  table.
-/

namespace AwgProxy

/-- `cliaddr_t`: a client's address and port. -/
inductive CliAddr
  /-- `sockaddr_in`. -/
  | v4 (addr : UInt32) (port : UInt16)
  /-- `sockaddr_in6`. -/
  | v6 (addr : BitVec 128) (port : UInt16)
  deriving DecidableEq

/-- `cliaddr_eq`: address and port both. -/
def cliaddrEq (a b : CliAddr) : Bool :=
  a = b

/-- `session_entry_t`. -/
structure SessionEntry where
  /-- The client's index of the session. -/
  senderIndex : UInt32
  /-- The client's address. -/
  addr : CliAddr
  /-- Our WireGuard's index of the session, 0 when unknown. -/
  serverIndex : UInt32
  /-- The position of the client in the peer list, negative when unknown. -/
  peerSlot : ℤ
  /-- The profile the client speaks. -/
  prof : Fin awgMaxProfiles
  /-- The entry is in use. -/
  valid : Bool
  /-- The session the counter belongs to. -/
  ctrSidx : UInt32
  /-- One past the newest counter of the session, 0 when there is none. -/
  ctrNext : UInt64
  deriving DecidableEq

/-- `SESSION_TABLE_SIZE`. -/
abbrev sessionTableSize : ℕ := 4096

/-- There is a slot zero. -/
instance neZero_sessionTableSize : NeZero sessionTableSize := ⟨by decide⟩

/-- A position in the table: the source's pointer to an entry. -/
abbrev Slot := Fin sessionTableSize

/-- The two tables of `proxy_t`: the entries, and the map from our WireGuard's indices to
them. -/
structure SessionTable where
  /-- `sessions`. -/
  sessions : Slot → SessionEntry
  /-- `sidx_map`, whose zero is `none`. -/
  sidxMap : Slot → Option Slot

/-- The table of a fresh proxy. -/
def SessionTable.empty : SessionTable where
  sessions := fun _ => ⟨0, .v4 0 0, 0, 0, 0, false, 0, 0⟩
  sidxMap := fun _ => none

/-- An entry rewritten. -/
def SessionTable.set (t : SessionTable) (s : Slot) (e : SessionEntry) : SessionTable :=
  { t with sessions := Function.update t.sessions s e }

/-- `index & SESSION_TABLE_MASK`. -/
def homeSlot (index : UInt32) : Slot :=
  ⟨index.toNat % 4096, Nat.mod_lt _ (by decide)⟩

/-- Slot `i` of the window of an index: `(slot + i) & SESSION_TABLE_MASK`. -/
def probeSlot (index : UInt32) (i : ℕ) : Slot :=
  ⟨(index.toNat % 4096 + i) % 4096, Nat.mod_lt _ (by decide)⟩

/-- The window of an index. -/
def probe (index : UInt32) : List Slot :=
  (List.range 4).map (probeSlot index)

/-- `session_get_entry`. -/
def sessionGetEntry (t : SessionTable) (index : UInt32) : Option Slot :=
  (probe index).find? fun s => (t.sessions s).valid && (t.sessions s).senderIndex = index

/-- What `session_put_prof` makes of the entry it takes. -/
def putEntry (e : SessionEntry) (index : UInt32) (addr : CliAddr) (prof : Fin awgMaxProfiles) :
    SessionEntry :=
  if e.valid ∧ e.senderIndex = index then
    { e with senderIndex := index, addr := addr, prof := prof, valid := true }
  else
    { e with
      senderIndex := index, addr := addr, peerSlot := -1, serverIndex := 0, prof := prof
      valid := true }

/-- What `session_put_prof` makes of the entry it evicts. -/
def evictEntry (e : SessionEntry) (index : UInt32) (addr : CliAddr) (prof : Fin awgMaxProfiles) :
    SessionEntry :=
  { e with
    senderIndex := index, addr := addr, peerSlot := -1, serverIndex := 0, prof := prof
    valid := true }

/-- The slot `session_put_prof` takes: the first of the window that is free or has the
index. -/
def putSlot? (t : SessionTable) (index : UInt32) : Option Slot :=
  (probe index).find? fun s => !(t.sessions s).valid || (t.sessions s).senderIndex = index

/-- `session_put_prof`: the table and the entry written; a full window loses its home
slot. -/
def sessionPutProf (t : SessionTable) (index : UInt32) (addr : CliAddr)
    (prof : Fin awgMaxProfiles) : SessionTable × Slot :=
  match putSlot? t index with
  | some s => (t.set s (putEntry (t.sessions s) index addr prof), s)
  | none =>
      let s := homeSlot index
      (t.set s (evictEntry (t.sessions s) index addr prof), s)

/-- `session_set_peer_slot`. -/
def sessionSetPeerSlot (t : SessionTable) (entry : Option Slot) (peerSlot : ℤ) :
    SessionTable :=
  match entry with
  | some s => t.set s { t.sessions s with peerSlot := peerSlot }
  | none => t

/-- `session_get_peer_slot`. -/
def sessionGetPeerSlot (t : SessionTable) (entry : Option Slot) : ℤ :=
  match entry with
  | some s => (t.sessions s).peerSlot
  | none => -1

/-- The loop of `session_find_sole_entry`. -/
def sessionFindSoleLoop (t : SessionTable) : Option Slot → List Slot → Option Slot
  | found, [] => found
  | found, i :: is =>
      if !(t.sessions i).valid then sessionFindSoleLoop t found is
      else
        match found with
        | none => sessionFindSoleLoop t (some i) is
        | some f =>
            if !cliaddrEq (t.sessions f).addr (t.sessions i).addr then none
            else sessionFindSoleLoop t (some f) is

/-- `session_find_sole_entry`: the first entry, when all have one address. -/
def sessionFindSoleEntry (t : SessionTable) : Option Slot :=
  sessionFindSoleLoop t none (List.finRange sessionTableSize)

/-- `session_find_by_peer`: the first entry of a peer. -/
def sessionFindByPeer (t : SessionTable) (peerSlot : ℤ) : Option Slot :=
  if peerSlot < 0 then none
  else
    (List.finRange sessionTableSize).find? fun i =>
      (t.sessions i).valid && (t.sessions i).peerSlot = peerSlot

/-- `session_drop_moved_peer`: a peer's entries at other addresses become free. -/
def sessionDropMovedPeer (t : SessionTable) (peerSlot : ℤ) (cur : CliAddr) : SessionTable :=
  if peerSlot < 0 then t
  else
    { t with
      sessions := fun i =>
        let e := t.sessions i
        if e.valid ∧ e.peerSlot = peerSlot ∧ ¬ cliaddrEq e.addr cur then
          { e with valid := false }
        else e }

/-- `session_set_server_index`. -/
def sessionSetServerIndex (t : SessionTable) (entry : Option Slot) (sidx : UInt32) :
    SessionTable :=
  match entry with
  | some s =>
      if sidx = 0 then t
      else
        let t := t.set s { t.sessions s with serverIndex := sidx }
        { t with sidxMap := Function.update t.sidxMap (homeSlot sidx) (some s) }
  | none => t

/-- `session_get_by_server_index`. -/
def sessionGetByServerIndex (t : SessionTable) (sidx : UInt32) : Option Slot :=
  if sidx = 0 then none
  else
    match t.sidxMap (homeSlot sidx) with
    | none => none
    | some s =>
        if !(t.sessions s).valid ∨ (t.sessions s).serverIndex ≠ sidx then none else some s

/-- `SESSION_CTR_LEAP`. -/
def sessionCtrLeap : UInt64 := (1 : UInt64) <<< 24

/-- The table with every entry at `old` moved to `new`. -/
def moveClient (t : SessionTable) (old new : CliAddr) : SessionTable :=
  { t with
    sessions := fun i =>
      let e := t.sessions i
      if e.valid ∧ cliaddrEq e.addr old then { e with addr := new } else e }

/-- `session_follow_client`: the table, and whether the client's address changed. -/
def sessionFollowClient (t : SessionTable) (sidx : UInt32) (src : CliAddr) (ctr : UInt64) :
    SessionTable × Bool :=
  match sessionGetByServerIndex t sidx with
  | none => (t, false)
  | some s =>
      -- a new session in this entry starts without a counter
      let e := t.sessions s
      let e := if e.ctrSidx ≠ sidx then { e with ctrSidx := sidx, ctrNext := 0 } else e
      let next := e.ctrNext
      if next ≠ 0 ∧ (ctr < next ∨ ctr - next > sessionCtrLeap) then (t.set s e, false)
      else
        let e := { e with ctrNext := ctr + 1 }
        let t := t.set s e
        if cliaddrEq e.addr src then (t, false)
        else (moveClient t e.addr src, true)

/-! ### Slots and windows -/

/-- The entry in slot `s` is in use and has the index. -/
def SessionTable.Live (t : SessionTable) (s : Slot) (index : UInt32) : Prop :=
  (t.sessions s).valid = true ∧ (t.sessions s).senderIndex = index

instance (t : SessionTable) (s : Slot) (index : UInt32) : Decidable (t.Live s index) :=
  inferInstanceAs (Decidable (_ ∧ _))

@[simp] theorem sessions_set_self (t : SessionTable) (s : Slot) (e : SessionEntry) :
    (t.set s e).sessions s = e :=
  Function.update_self ..

theorem sessions_set_of_ne (t : SessionTable) {s s' : Slot} (e : SessionEntry) (h : s' ≠ s) :
    (t.set s e).sessions s' = t.sessions s' :=
  Function.update_of_ne h ..

theorem probeSlot_zero (index : UInt32) : probeSlot index 0 = homeSlot index := by
  ext
  simp [probeSlot, homeSlot]

/-- The four slots of a window are different. -/
theorem probeSlot_inj {index : UInt32} {i j : ℕ} (hi : i < 4) (hj : j < 4)
    (h : probeSlot index i = probeSlot index j) : i = j := by
  have hval : (index.toNat % 4096 + i) % 4096 = (index.toNat % 4096 + j) % 4096 :=
    congrArg Fin.val h
  omega

theorem mem_probe_iff {index : UInt32} {s : Slot} :
    s ∈ probe index ↔ ∃ i, i < 4 ∧ probeSlot index i = s := by
  simp [probe]

/-- The entry found for an index is the first of its window that is in use and has it. -/
theorem sessionGetEntry_eq_some_iff {t : SessionTable} {index : UInt32} {s : Slot} :
    sessionGetEntry t index = some s ↔
      ∃ i, i < 4 ∧ probeSlot index i = s ∧ t.Live s index ∧
        ∀ j, j < i → ¬ t.Live (probeSlot index j) index := by
  rw [sessionGetEntry, probe, List.find?_map_range_eq_some_iff]
  simp only [Bool.and_eq_true, decide_eq_true_eq, Bool.and_eq_false_iff, decide_eq_false_iff_not,
    SessionTable.Live, not_and_or, Bool.not_eq_true]
  constructor
  · rintro ⟨i, hi, rfl, hlive, hlt⟩
    exact ⟨i, hi, rfl, hlive, hlt⟩
  · rintro ⟨i, hi, rfl, hlive, hlt⟩
    exact ⟨i, hi, rfl, hlive, hlt⟩

/-- A slot an insertion may take: free, or with the index. -/
def SessionTable.Open (t : SessionTable) (s : Slot) (index : UInt32) : Prop :=
  (t.sessions s).valid = false ∨ (t.sessions s).senderIndex = index

theorem SessionTable.Live.open {t : SessionTable} {s : Slot} {index : UInt32}
    (h : t.Live s index) : t.Open s index :=
  Or.inr h.2

/-- An insertion takes the first open slot of the window. -/
theorem putSlot?_eq_some_iff {t : SessionTable} {index : UInt32} {s : Slot} :
    putSlot? t index = some s ↔
      ∃ i, i < 4 ∧ probeSlot index i = s ∧ t.Open s index ∧
        ∀ j, j < i → ¬ t.Open (probeSlot index j) index := by
  rw [putSlot?, probe, List.find?_map_range_eq_some_iff]
  simp only [Bool.or_eq_true, Bool.not_eq_true', decide_eq_true_eq, Bool.or_eq_false_iff,
    Bool.not_eq_false', decide_eq_false_iff_not, SessionTable.Open, not_or, Bool.not_eq_false]
  constructor
  · rintro ⟨i, hi, rfl, hopen, hlt⟩
    exact ⟨i, hi, rfl, hopen, hlt⟩
  · rintro ⟨i, hi, rfl, hopen, hlt⟩
    exact ⟨i, hi, rfl, hopen, hlt⟩

theorem putSlot?_eq_none_iff {t : SessionTable} {index : UInt32} :
    putSlot? t index = none ↔ ∀ i, i < 4 → ¬ t.Open (probeSlot index i) index := by
  rw [putSlot?, probe, List.find?_map_range_eq_none_iff]
  simp only [Bool.or_eq_false_iff, Bool.not_eq_false', decide_eq_false_iff_not,
    SessionTable.Open, not_or, Bool.not_eq_false]

/-- The slot an insertion writes. -/
def putSlot (t : SessionTable) (index : UInt32) : Slot :=
  (putSlot? t index).getD (homeSlot index)

/-- The slot written belongs to the window. -/
theorem putSlot_mem_probe (t : SessionTable) (index : UInt32) : putSlot t index ∈ probe index := by
  rw [mem_probe_iff]
  rcases h : putSlot? t index with _ | s
  · exact ⟨0, by decide, by rw [putSlot, h, Option.getD_none, probeSlot_zero]⟩
  · obtain ⟨i, hi, hs, -⟩ := putSlot?_eq_some_iff.mp h
    exact ⟨i, hi, by rw [putSlot, h, Option.getD_some, hs]⟩

/-- **An insertion** rewrites the entry in its slot, keeping what is known of the peer
exactly when the entry was already the index's own. -/
theorem sessionPutProf_eq (t : SessionTable) (index : UInt32) (addr : CliAddr)
    (prof : Fin awgMaxProfiles) :
    sessionPutProf t index addr prof =
      (t.set (putSlot t index) (putEntry (t.sessions (putSlot t index)) index addr prof),
        putSlot t index) := by
  rcases h : putSlot? t index with _ | s
  · have hnone := putSlot?_eq_none_iff.mp h 0 (by decide)
    rw [probeSlot_zero] at hnone
    have hother : ¬ ((t.sessions (homeSlot index)).valid = true ∧
        (t.sessions (homeSlot index)).senderIndex = index) := fun hl => hnone (Or.inr hl.2)
    simp only [sessionPutProf, putSlot, h, Option.getD_none, putEntry, if_neg hother]
    rfl
  · simp only [sessionPutProf, putSlot, h, Option.getD_some]

@[simp] theorem putEntry_valid (e : SessionEntry) (index : UInt32) (addr : CliAddr)
    (prof : Fin awgMaxProfiles) : (putEntry e index addr prof).valid = true := by
  unfold putEntry
  split <;> rfl

@[simp] theorem putEntry_senderIndex (e : SessionEntry) (index : UInt32) (addr : CliAddr)
    (prof : Fin awgMaxProfiles) : (putEntry e index addr prof).senderIndex = index := by
  unfold putEntry
  split <;> rfl

@[simp] theorem putEntry_addr (e : SessionEntry) (index : UInt32) (addr : CliAddr)
    (prof : Fin awgMaxProfiles) : (putEntry e index addr prof).addr = addr := by
  unfold putEntry
  split <;> rfl

@[simp] theorem putEntry_prof (e : SessionEntry) (index : UInt32) (addr : CliAddr)
    (prof : Fin awgMaxProfiles) : (putEntry e index addr prof).prof = prof := by
  unfold putEntry
  split <;> rfl

theorem putEntry_peerSlot (e : SessionEntry) (index : UInt32) (addr : CliAddr)
    (prof : Fin awgMaxProfiles) : (putEntry e index addr prof).peerSlot =
      if e.valid ∧ e.senderIndex = index then e.peerSlot else -1 := by
  unfold putEntry
  split <;> rfl

theorem putEntry_serverIndex (e : SessionEntry) (index : UInt32) (addr : CliAddr)
    (prof : Fin awgMaxProfiles) : (putEntry e index addr prof).serverIndex =
      if e.valid ∧ e.senderIndex = index then e.serverIndex else 0 := by
  unfold putEntry
  split <;> rfl

/-! ### Scans of the table -/

/-- The scan for a sole client, from any point on: `found` or else the first entry in
use, when every entry still to come has its address. -/
theorem sessionFindSoleLoop_eq_some_iff {t : SessionTable} {l : List Slot}
    {found : Option Slot} {f : Slot} :
    sessionFindSoleLoop t found l = some f ↔
      (∀ i ∈ l, (t.sessions i).valid = true → (t.sessions i).addr = (t.sessions f).addr) ∧
        (found = some f ∨ found = none ∧ l.find? (fun i => (t.sessions i).valid) = some f) := by
  induction l generalizing found with
  | nil => simp [sessionFindSoleLoop]
  | cons i l ih =>
      cases hv : (t.sessions i).valid with
      | false => simp [sessionFindSoleLoop, hv, ih]
      | true =>
          cases found with
          | none =>
              simp only [sessionFindSoleLoop, hv, ih, Bool.not_true, Bool.false_eq_true, if_false,
                Option.some.injEq, reduceCtorEq, false_and, or_false, false_or, true_and,
                List.find?_cons_of_pos, List.mem_cons, forall_eq_or_imp, forall_const]
              constructor
              · rintro ⟨hall, rfl⟩
                exact ⟨⟨rfl, hall⟩, rfl⟩
              · rintro ⟨⟨-, hall⟩, rfl⟩
                exact ⟨hall, rfl⟩
          | some g =>
              simp only [sessionFindSoleLoop, hv, Bool.not_true, Bool.false_eq_true, if_false,
                Option.some.injEq, reduceCtorEq, false_and, or_false, List.mem_cons,
                forall_eq_or_imp, forall_const, cliaddrEq, Bool.not_eq_true',
                decide_eq_false_iff_not]
              by_cases haddr : (t.sessions g).addr = (t.sessions i).addr
              · rw [if_neg (not_not.mpr haddr), ih]
                simp only [Option.some.injEq, reduceCtorEq, false_and, or_false]
                constructor
                · rintro ⟨hall, rfl⟩
                  exact ⟨⟨haddr.symm, hall⟩, rfl⟩
                · rintro ⟨⟨-, hall⟩, rfl⟩
                  exact ⟨hall, rfl⟩
              · rw [if_pos haddr]
                constructor
                · intro h
                  contradiction
                · rintro ⟨⟨hi, -⟩, rfl⟩
                  exact absurd hi.symm haddr

/-- **The sole client.** The entry found is the first in use, and every entry in use has
its address. -/
theorem sessionFindSoleEntry_eq_some_iff {t : SessionTable} {f : Slot} :
    sessionFindSoleEntry t = some f ↔
      (t.sessions f).valid = true ∧ (∀ i, i < f → (t.sessions i).valid = false) ∧
        ∀ i, (t.sessions i).valid = true → (t.sessions i).addr = (t.sessions f).addr := by
  rw [sessionFindSoleEntry, sessionFindSoleLoop_eq_some_iff, List.find?_finRange_eq_some_iff]
  simp only [List.mem_finRange, forall_const, reduceCtorEq, true_and, false_or]
  constructor
  · rintro ⟨haddr, hv, hlt⟩
    exact ⟨hv, hlt, haddr⟩
  · rintro ⟨hv, hlt, haddr⟩
    exact ⟨haddr, hv, hlt⟩

/-- **A peer's entry.** The entry found is the first in use that the peer has been
recognised in. -/
theorem sessionFindByPeer_eq_some_iff {t : SessionTable} {k : ℤ} {s : Slot} :
    sessionFindByPeer t k = some s ↔
      0 ≤ k ∧ ((t.sessions s).valid = true ∧ (t.sessions s).peerSlot = k) ∧
        ∀ i, i < s → ¬ ((t.sessions i).valid = true ∧ (t.sessions i).peerSlot = k) := by
  rw [sessionFindByPeer]
  by_cases hk : k < 0
  · rw [if_pos hk]
    constructor
    · intro h
      contradiction
    · rintro ⟨h, -⟩
      omega
  · rw [if_neg hk, List.find?_finRange_eq_some_iff]
    simp only [Bool.and_eq_true, decide_eq_true_eq, ← Bool.not_eq_true]
    exact ⟨fun h => ⟨by omega, h⟩, fun h => h.2⟩

/-- No entry of a peer is found exactly when there is none. -/
theorem sessionFindByPeer_eq_none_iff {t : SessionTable} {k : ℤ} (hk : 0 ≤ k) :
    sessionFindByPeer t k = none ↔
      ∀ s, (t.sessions s).valid = true → (t.sessions s).peerSlot ≠ k := by
  rw [sessionFindByPeer, if_neg (by omega), List.find?_finRange_eq_none_iff]
  simp

-- the scans are known by what they find; unfolding one walks 4096 slots
attribute [irreducible] sessionFindSoleEntry sessionFindByPeer

/-! ### The other operations, slot by slot -/

theorem sessions_sessionSetPeerSlot (t : SessionTable) (entry : Option Slot) (k : ℤ) (s : Slot) :
    (sessionSetPeerSlot t entry k).sessions s =
      if entry = some s then { t.sessions s with peerSlot := k } else t.sessions s := by
  rcases entry with _ | s'
  · rfl
  · by_cases h : s' = s
    · subst h
      simp [sessionSetPeerSlot]
    · rw [if_neg (by simpa using h), sessionSetPeerSlot,
        sessions_set_of_ne t _ (Ne.symm h)]

theorem sessions_sessionSetServerIndex (t : SessionTable) (entry : Option Slot) (sidx : UInt32)
    (s : Slot) :
    (sessionSetServerIndex t entry sidx).sessions s =
      if entry = some s ∧ sidx ≠ 0 then { t.sessions s with serverIndex := sidx }
      else t.sessions s := by
  rcases entry with _ | s'
  · rw [if_neg (by simp)]
    rfl
  · by_cases h0 : sidx = 0
    · rw [if_neg (by simp [h0]), sessionSetServerIndex, if_pos h0]
    · by_cases h : s' = s
      · subst h
        rw [if_pos ⟨rfl, h0⟩, sessionSetServerIndex, if_neg h0]
        exact sessions_set_self ..
      · rw [if_neg (by simp [h]), sessionSetServerIndex, if_neg h0]
        exact sessions_set_of_ne t _ (Ne.symm h)

theorem sessions_sessionDropMovedPeer (t : SessionTable) (k : ℤ) (cur : CliAddr) (s : Slot) :
    (sessionDropMovedPeer t k cur).sessions s =
      if 0 ≤ k ∧ (t.sessions s).valid ∧ (t.sessions s).peerSlot = k ∧
          (t.sessions s).addr ≠ cur then { t.sessions s with valid := false }
      else t.sessions s := by
  rw [sessionDropMovedPeer]
  by_cases hk : k < 0
  · rw [if_pos hk, if_neg (by omega)]
  · have h0 : 0 ≤ k := by omega
    simp only [if_neg hk, h0, true_and, cliaddrEq, decide_eq_true_eq]

theorem sessions_moveClient (t : SessionTable) (old new : CliAddr) (s : Slot) :
    (moveClient t old new).sessions s =
      if (t.sessions s).valid ∧ (t.sessions s).addr = old then
        { t.sessions s with addr := new }
      else t.sessions s := by
  simp only [moveClient, cliaddrEq, decide_eq_true_eq]

/-- Following a client changes addresses and counters. -/
theorem exists_sessions_sessionFollowClient (t : SessionTable) (sidx : UInt32) (src : CliAddr)
    (ctr : UInt64) (s : Slot) : ∃ a c n, (sessionFollowClient t sidx src ctr).1.sessions s =
      { t.sessions s with addr := a, ctrSidx := c, ctrNext := n } := by
  have hset : ∀ s' c n, ∃ c' n',
      (t.set s' { t.sessions s' with ctrSidx := c, ctrNext := n }).sessions s =
        { t.sessions s with ctrSidx := c', ctrNext := n' } := by
    intro s' c n
    by_cases h : s = s'
    · subst h
      exact ⟨c, n, sessions_set_self ..⟩
    · exact ⟨_, _, sessions_set_of_ne t _ h⟩
  rcases hget : sessionGetByServerIndex t sidx with _ | s'
  · simp only [sessionFollowClient, hget]
    exact ⟨_, _, _, rfl⟩
  · -- the entry after the restart of its counter
    obtain ⟨c, n, he⟩ : ∃ c n, (if (t.sessions s').ctrSidx ≠ sidx then
        { t.sessions s' with ctrSidx := sidx, ctrNext := 0 } else t.sessions s') =
          { t.sessions s' with ctrSidx := c, ctrNext := n } := by
      split
      · exact ⟨_, _, rfl⟩
      · exact ⟨_, _, rfl⟩
    simp only [sessionFollowClient, hget, he]
    split
    · obtain ⟨c', n', h⟩ := hset s' c n
      exact ⟨_, c', n', h⟩
    · obtain ⟨c', n', h⟩ := hset s' c (ctr + 1)
      split
      · exact ⟨_, c', n', h⟩
      · rw [sessions_moveClient, h]
        split
        · exact ⟨src, c', n', rfl⟩
        · exact ⟨_, c', n', rfl⟩

end AwgProxy
