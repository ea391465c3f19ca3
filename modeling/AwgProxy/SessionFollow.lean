import AwgProxy.Lib.Machine
import AwgProxy.Session

/-!
# Following a Client

Runs of `session_follow_client` alone, on any table, for any sessions and from any sources.
A session is named by the index our WireGuard gave it, and every call carries the counter
of a packet.

* `sessionFollowClient_of_not_accepts`, `sessionFollowClient_of_accepts` — a call that is
  not accepted changes nothing; one that is moves the entries at the session's address.
* `FollowInv.step` — the counter in the table is the one after the newest accepted.
* `follow_sound` — the counters accepted for a session increase, and a call is accepted
  exactly when its counter is new and does not leap.
-/

namespace AwgProxy

/-! ### One call -/

/-- The counter an entry expects next for the session, 0 when it has none yet. -/
def expectedCtr (e : SessionEntry) (sidx : UInt32) : UInt64 :=
  if e.ctrSidx ≠ sidx then 0 else e.ctrNext

/-- The counter is a duplicate, a straggler or a forgery. -/
def refuses (e : SessionEntry) (sidx : UInt32) (ctr : UInt64) : Prop :=
  expectedCtr e sidx ≠ 0 ∧ (ctr < expectedCtr e sidx ∨ ctr - expectedCtr e sidx > sessionCtrLeap)

instance (e : SessionEntry) (sidx : UInt32) (ctr : UInt64) : Decidable (refuses e sidx ctr) :=
  inferInstanceAs (Decidable (_ ∧ _))

/-- The call finds its session and takes the counter. -/
def sessionAccepts (t : SessionTable) (sidx : UInt32) (ctr : UInt64) : Bool :=
  match sessionGetByServerIndex t sidx with
  | none => false
  | some s => !decide (refuses (t.sessions s) sidx ctr)

theorem sessionAccepts_iff {t : SessionTable} {sidx : UInt32} {ctr : UInt64} :
    sessionAccepts t sidx ctr = true ↔
      ∃ s, sessionGetByServerIndex t sidx = some s ∧ ¬ refuses (t.sessions s) sidx ctr := by
  rw [sessionAccepts]
  rcases sessionGetByServerIndex t sidx with _ | s
  · simp
  · simp

/-- The entry found for a session is in use and has its index. -/
theorem sessionGetByServerIndex_eq_some_iff {t : SessionTable} {sidx : UInt32} {s : Slot} :
    sessionGetByServerIndex t sidx = some s ↔
      sidx ≠ 0 ∧ t.sidxMap (homeSlot sidx) = some s ∧ (t.sessions s).valid = true ∧
        (t.sessions s).serverIndex = sidx := by
  rw [sessionGetByServerIndex]
  by_cases h0 : sidx = 0
  · rw [if_pos h0]
    exact iff_of_false nofun fun h => h.1 h0
  · rw [if_neg h0]
    rcases t.sidxMap (homeSlot sidx) with _ | s'
    · exact iff_of_false nofun fun h => nomatch h.2.1
    · dsimp only
      by_cases hs : !(t.sessions s').valid ∨ (t.sessions s').serverIndex ≠ sidx
      · rw [if_pos hs]
        refine iff_of_false nofun ?_
        rintro ⟨-, hs', hv, hi⟩
        obtain rfl := Option.some.inj hs'
        rcases hs with hs | hs
        · rw [hv] at hs
          contradiction
        · exact hs hi
      · rw [if_neg hs]
        rw [not_or, Bool.not_eq_true', Bool.not_eq_false, not_not] at hs
        constructor
        · rintro h
          obtain rfl := Option.some.inj h
          exact ⟨h0, rfl, hs⟩
        · rintro ⟨-, h, -⟩
          exact h

/-- The entry of a session that takes a counter. -/
def takeCtr (e : SessionEntry) (sidx : UInt32) (ctr : UInt64) : SessionEntry :=
  { e with ctrSidx := sidx, ctrNext := ctr + 1 }

/-- A call that is not accepted changes nothing and returns 0. -/
theorem sessionFollowClient_of_not_accepts {t : SessionTable} {sidx : UInt32} (src : CliAddr)
    {ctr : UInt64} (h : sessionAccepts t sidx ctr = false) :
    sessionFollowClient t sidx src ctr = (t, false) := by
  rw [sessionAccepts] at h
  rcases hget : sessionGetByServerIndex t sidx with _ | s
  · simp only [sessionFollowClient, hget]
  · rw [hget] at h
    have hrefuses : refuses (t.sessions s) sidx ctr := by simpa using h
    -- a session with a counter is the entry's own
    have hidx : (t.sessions s).ctrSidx = sidx := by
      by_contra hne
      exact hrefuses.1 (by rw [expectedCtr, if_pos hne])
    rw [refuses, expectedCtr, if_neg (not_not.mpr hidx)] at hrefuses
    simp only [sessionFollowClient, hget, if_neg (not_not.mpr hidx), if_pos hrefuses]
    rw [SessionTable.set, Function.update_eq_self]

/-- **An accepted call** takes the counter, and moves every entry at the session's address
when the packet came from another one. -/
theorem sessionFollowClient_of_accepts {t : SessionTable} {sidx : UInt32} (src : CliAddr)
    {ctr : UInt64} {s : Slot} (hget : sessionGetByServerIndex t sidx = some s)
    (h : ¬ refuses (t.sessions s) sidx ctr) :
    sessionFollowClient t sidx src ctr =
      if (t.sessions s).addr = src then (t.set s (takeCtr (t.sessions s) sidx ctr), false)
      else (moveClient (t.set s (takeCtr (t.sessions s) sidx ctr)) (t.sessions s).addr src,
        true) := by
  rw [refuses, expectedCtr] at h
  by_cases hidx : (t.sessions s).ctrSidx = sidx
  · subst hidx
    rw [if_neg (not_not.mpr rfl)] at h
    simp only [sessionFollowClient, hget, if_neg (not_not.mpr rfl), if_neg h, cliaddrEq,
      decide_eq_true_eq, takeCtr]
  · rw [if_pos hidx] at h
    simp only [sessionFollowClient, hget, if_pos hidx, if_neg h, cliaddrEq, decide_eq_true_eq,
      takeCtr]

/-- **The table after an accepted call, slot by slot.** -/
theorem sessions_sessionFollowClient_of_accepts {t : SessionTable} {sidx : UInt32}
    (src : CliAddr) {ctr : UInt64} {s : Slot} (hget : sessionGetByServerIndex t sidx = some s)
    (h : ¬ refuses (t.sessions s) sidx ctr) (s' : Slot) :
    (sessionFollowClient t sidx src ctr).1.sessions s' =
      let e := if s' = s then takeCtr (t.sessions s') sidx ctr else t.sessions s'
      if (t.sessions s').valid ∧ (t.sessions s').addr = (t.sessions s).addr then
        { e with addr := src }
      else e := by
  have hset : (t.set s (takeCtr (t.sessions s) sidx ctr)).sessions s' =
      if s' = s then takeCtr (t.sessions s') sidx ctr else t.sessions s' := by
    by_cases hs : s' = s
    · subst hs
      rw [if_pos rfl, sessions_set_self]
    · rw [if_neg hs, sessions_set_of_ne t _ hs]
  have hsame : ((t.set s (takeCtr (t.sessions s) sidx ctr)).sessions s').valid =
      (t.sessions s').valid ∧ ((t.set s (takeCtr (t.sessions s) sidx ctr)).sessions s').addr =
        (t.sessions s').addr := by
    rw [hset]
    split
    · exact ⟨rfl, rfl⟩
    · exact ⟨rfl, rfl⟩
  rw [sessionFollowClient_of_accepts src hget h]
  by_cases haddr : (t.sessions s).addr = src
  · rw [if_pos haddr, haddr]
    dsimp only
    rw [hset]
    by_cases hmoved : (t.sessions s').valid = true ∧ (t.sessions s').addr = src
    · rw [if_pos hmoved, ← hmoved.2]
      split
      · rfl
      · rfl
    · rw [if_neg hmoved]
  · rw [if_neg haddr]
    dsimp only
    rw [sessions_moveClient, hsame.1, hsame.2, hset]

/-- The call would change nothing: the session is unknown, its counter is refused, or its
entry has the counter and the address already. -/
def FollowsNothing (t : SessionTable) (sidx : UInt32) (src : CliAddr) (ctr : UInt64) : Prop :=
  ∀ s, sessionGetByServerIndex t sidx = some s → refuses (t.sessions s) sidx ctr ∨
    (t.sessions s).ctrSidx = sidx ∧ (t.sessions s).ctrNext = ctr + 1 ∧ (t.sessions s).addr = src

theorem sessionFollowClient_fst_eq_self_iff {t : SessionTable} {sidx : UInt32} {src : CliAddr}
    {ctr : UInt64} :
    (sessionFollowClient t sidx src ctr).1 = t ↔ FollowsNothing t sidx src ctr := by
  constructor
  · intro h s hget
    by_cases href : refuses (t.sessions s) sidx ctr
    · exact Or.inl href
    right
    have hs := sessions_sessionFollowClient_of_accepts src hget href s
    obtain ⟨-, -, hv, -⟩ := sessionGetByServerIndex_eq_some_iff.mp hget
    dsimp only at hs
    rw [h, if_pos rfl, if_pos ⟨hv, rfl⟩] at hs
    exact ⟨congrArg SessionEntry.ctrSidx hs, congrArg SessionEntry.ctrNext hs,
      congrArg SessionEntry.addr hs⟩
  · intro h
    cases hacc : sessionAccepts t sidx ctr with
    | false => rw [sessionFollowClient_of_not_accepts src hacc]
    | true =>
        obtain ⟨s, hget, hno⟩ := sessionAccepts_iff.mp hacc
        obtain ⟨hidx, hnext, haddr⟩ := (h s hget).resolve_left hno
        have hsame : takeCtr (t.sessions s) sidx ctr = t.sessions s := by
          rw [takeCtr, ← hidx, ← hnext]
        rw [sessionFollowClient_of_accepts src hget hno, if_pos haddr, hsame, SessionTable.set,
          Function.update_eq_self]

/-- No call changes which entry a session has. -/
theorem sessionGetByServerIndex_sessionFollowClient (t : SessionTable) (sidx : UInt32)
    (src : CliAddr) (ctr : UInt64) (i : UInt32) :
    sessionGetByServerIndex (sessionFollowClient t sidx src ctr).1 i =
      sessionGetByServerIndex t i := by
  have hmap : (sessionFollowClient t sidx src ctr).1.sidxMap = t.sidxMap := by
    cases hacc : sessionAccepts t sidx ctr with
    | false => rw [sessionFollowClient_of_not_accepts src hacc]
    | true =>
        obtain ⟨s, hget, hno⟩ := sessionAccepts_iff.mp hacc
        rw [sessionFollowClient_of_accepts src hget hno]
        split
        · rfl
        · rfl
  refine Option.ext fun s => ?_
  obtain ⟨a, c, n, hs⟩ := exists_sessions_sessionFollowClient t sidx src ctr s
  rw [sessionGetByServerIndex_eq_some_iff, sessionGetByServerIndex_eq_some_iff, hmap, hs]

/-! ### The counters accepted -/

/-- A call of `session_follow_client`. -/
structure FollowCall where
  /-- The session. -/
  sidx : UInt32
  /-- Where the packet came from. -/
  src : CliAddr
  /-- The counter of the packet. -/
  ctr : UInt64
  deriving DecidableEq

/-- The largest counter of WireGuard is never used. -/
def rejectAfterMessages : ℕ := 2 ^ 64 - 1

/-- The table under such calls. -/
def followMachine : Machine SessionTable FollowCall where
  step t e :=
    if e.ctr.toNat < rejectAfterMessages then
      some (sessionFollowClient t e.sidx e.src e.ctr).1
    else none

/-- The counters accepted for each session, the newest first. -/
def acceptedCtrs (t : SessionTable) (e : FollowCall) (_ : SessionTable)
    (g : UInt32 → List ℕ) : UInt32 → List ℕ :=
  if sessionAccepts t e.sidx e.ctr then Function.update g e.sidx (e.ctr.toNat :: g e.sidx)
  else g

/-- The table beside that history. -/
def followGhost : Machine (SessionTable × (UInt32 → List ℕ)) FollowCall :=
  followMachine.ghost acceptedCtrs

/-- What a table remembers of the counters accepted before: of each session the newest. -/
def rememberedCtrs (t : SessionTable) (sidx : UInt32) : List ℕ :=
  match sessionGetByServerIndex t sidx with
  | none => []
  | some s =>
      match (expectedCtr (t.sessions s) sidx).toNat with
      | 0 => []
      | n + 1 => [n]

/-- The counter expected after the accepted ones. -/
def nextCtr (l : List ℕ) : ℕ :=
  l.head?.elim 0 (· + 1)

/-- The counter is not above every accepted one, or leaps beyond the next expected one. -/
def StaleCtr (l : List ℕ) (ctr : ℕ) : Prop :=
  (∃ c ∈ l, ctr ≤ c) ∨ l ≠ [] ∧ nextCtr l + 2 ^ 24 < ctr

/-- What an entry refuses, in numbers. -/
theorem refuses_iff (e : SessionEntry) (sidx : UInt32) (ctr : UInt64) :
    refuses e sidx ctr ↔ (expectedCtr e sidx).toNat ≠ 0 ∧
      (ctr.toNat < (expectedCtr e sidx).toNat ∨
        (expectedCtr e sidx).toNat + 2 ^ 24 < ctr.toNat) := by
  have hleap : sessionCtrLeap.toNat = 2 ^ 24 := by decide
  rw [refuses]
  refine and_congr (by rw [ne_eq, ne_eq, ← UInt64.toNat_inj, UInt64.toNat_zero]) ?_
  by_cases hlt : ctr < expectedCtr e sidx
  · exact iff_of_true (Or.inl hlt) (Or.inl (UInt64.lt_iff_toNat_lt.mp hlt))
  · have hle : expectedCtr e sidx ≤ ctr := UInt64.not_lt.mp hlt
    have hle' := UInt64.le_iff_toNat_le.mp hle
    rw [gt_iff_lt, UInt64.lt_iff_toNat_lt, UInt64.lt_iff_toNat_lt, hleap,
      UInt64.toNat_sub_of_le _ _ hle]
    omega

/-- In a decreasing list the first counter is the greatest. -/
theorem staleCtr_iff {l : List ℕ} (h : l.Pairwise (· > ·)) (ctr : ℕ) :
    StaleCtr l ctr ↔ nextCtr l ≠ 0 ∧ (ctr < nextCtr l ∨ nextCtr l + 2 ^ 24 < ctr) := by
  rcases l with _ | ⟨c, l⟩
  · simp [StaleCtr, nextCtr]
  · have hgt := (List.pairwise_cons.mp h).1
    have hmax : (∃ c' ∈ c :: l, ctr ≤ c') ↔ ctr < c + 1 := by
      constructor
      · rintro ⟨c', hc', hle⟩
        rcases List.mem_cons.mp hc' with rfl | hc'
        · omega
        · have := hgt c' hc'
          omega
      · intro hle
        exact ⟨c, List.mem_cons_self, by omega⟩
    rw [StaleCtr, hmax]
    simp [nextCtr]

/-- The invariant of a run: an entry expects the counter after the newest accepted one, and
the accepted ones decrease from the newest. -/
structure FollowInv (q : SessionTable × (UInt32 → List ℕ)) : Prop where
  next : ∀ i s, sessionGetByServerIndex q.1 i = some s →
    (expectedCtr (q.1.sessions s) i).toNat = nextCtr (q.2 i)
  sorted : ∀ i, (q.2 i).Pairwise (· > ·)

/-- A session's entry accepts what is not stale. -/
theorem FollowInv.accepts_iff {q : SessionTable × (UInt32 → List ℕ)} (h : FollowInv q)
    (sidx : UInt32) (ctr : UInt64) :
    sessionAccepts q.1 sidx ctr = true ↔
      (∃ s, sessionGetByServerIndex q.1 sidx = some s) ∧ ¬ StaleCtr (q.2 sidx) ctr.toNat := by
  rw [sessionAccepts_iff, staleCtr_iff (h.sorted sidx)]
  constructor
  · rintro ⟨s, hget, hno⟩
    rw [refuses_iff, h.next sidx s hget] at hno
    exact ⟨⟨s, hget⟩, hno⟩
  · rintro ⟨⟨s, hget⟩, hno⟩
    rw [← h.next sidx s hget, ← refuses_iff] at hno
    exact ⟨s, hget, hno⟩

/-- What a table remembers is what its entries expect. -/
theorem FollowInv.remembered (t : SessionTable) : FollowInv (t, rememberedCtrs t) where
  next i s hs := by
    dsimp only at hs ⊢
    rw [rememberedCtrs, hs]
    dsimp only
    rcases (expectedCtr (t.sessions s) i).toNat with _ | n
    · rfl
    · rfl
  sorted i := by
    dsimp only
    rw [rememberedCtrs]
    rcases sessionGetByServerIndex t i with _ | s
    · exact List.Pairwise.nil
    · dsimp only
      rcases (expectedCtr (t.sessions s) i).toNat with _ | n
      · exact List.Pairwise.nil
      · exact List.pairwise_singleton _ _

/-- **One call** keeps the invariant. -/
theorem FollowInv.step {q q' : SessionTable × (UInt32 → List ℕ)} {e : FollowCall}
    (h : FollowInv q) (hstep : followGhost.step q e = some q') : FollowInv q' := by
  obtain ⟨t, g⟩ := q
  obtain ⟨t', g'⟩ := q'
  obtain ⟨hmach, hg⟩ := Machine.step_ghost_eq_some.mp hstep
  simp only [followMachine, Option.ite_none_right_eq_some, Option.some.injEq] at hmach hg
  obtain ⟨hlt, rfl⟩ := hmach
  subst hg
  cases hacc : sessionAccepts t e.sidx e.ctr with
  | false =>
      rw [sessionFollowClient_of_not_accepts e.src hacc, acceptedCtrs, hacc,
        if_neg Bool.false_ne_true]
      exact h
  | true =>
      have hnew := ((h.accepts_iff e.sidx e.ctr).mp hacc).2
      obtain ⟨s, hget, hno⟩ := sessionAccepts_iff.mp hacc
      have hslots := sessions_sessionFollowClient_of_accepts e.src hget hno
      rw [acceptedCtrs, hacc, if_pos rfl]
      refine ⟨fun i s' hs' => ?_, fun i => ?_⟩
      · dsimp only at hs' ⊢
        rw [sessionGetByServerIndex_sessionFollowClient] at hs'
        have hexp : expectedCtr ((sessionFollowClient t e.sidx e.src e.ctr).1.sessions s') i =
            expectedCtr (if s' = s then takeCtr (t.sessions s') e.sidx e.ctr
              else t.sessions s') i := by
          rw [hslots s']
          dsimp only
          split
          · rfl
          · rfl
        by_cases hi : i = e.sidx
        · subst hi
          obtain rfl := Option.some.inj (hs'.symm.trans hget)
          have hsucc : (e.ctr + 1).toNat = e.ctr.toNat + 1 := by
            rw [UInt64.toNat_add, UInt64.toNat_one, Nat.mod_eq_of_lt]
            rw [rejectAfterMessages] at hlt
            omega
          rw [hexp, if_pos rfl, Function.update_self, expectedCtr, takeCtr,
            if_neg (not_not.mpr rfl), hsucc]
          rfl
        · -- two sessions never share an entry
          have hne : s' ≠ s := by
            rintro rfl
            obtain ⟨-, -, -, hi'⟩ := sessionGetByServerIndex_eq_some_iff.mp hs'
            obtain ⟨-, -, -, he⟩ := sessionGetByServerIndex_eq_some_iff.mp hget
            exact hi (hi'.symm.trans he)
          rw [hexp, if_neg hne, Function.update_of_ne hi]
          exact h.next i s' hs'
      · dsimp only
        by_cases hi : i = e.sidx
        · subst hi
          rw [Function.update_self]
          refine List.pairwise_cons.mpr ⟨fun c hc => ?_, h.sorted _⟩
          by_contra hle
          exact hnew (Or.inl ⟨c, hc, by omega⟩)
        · rw [Function.update_of_ne hi]
          exact h.sorted i

/-- The call returns 1 and moves, from the address of the session's entry `s` to `src`,
the entries in use that share it. -/
structure Moves (t t' : SessionTable) (s : Slot) (src : CliAddr) : Prop where
  shared : ∀ s', s' ≠ s → (t.sessions s').valid = true →
    (t.sessions s').addr = (t.sessions s).addr →
      t'.sessions s' = { t.sessions s' with addr := src }
  own : ∃ c n, t'.sessions s = { t.sessions s with addr := src, ctrSidx := c, ctrNext := n }
  other : ∀ s', s' ≠ s → ((t.sessions s').valid = false ∨
    (t.sessions s').addr ≠ (t.sessions s).addr) → t'.sessions s' = t.sessions s'

/-- An accepted call from another address moves the client. -/
theorem moves_of_accepts {t : SessionTable} {sidx : UInt32} {src : CliAddr} {ctr : UInt64}
    {s : Slot} (hget : sessionGetByServerIndex t sidx = some s)
    (hno : ¬ refuses (t.sessions s) sidx ctr) :
    Moves t (sessionFollowClient t sidx src ctr).1 s src := by
  have hslots := sessions_sessionFollowClient_of_accepts src hget hno
  obtain ⟨-, -, hv, -⟩ := sessionGetByServerIndex_eq_some_iff.mp hget
  refine ⟨fun s' hs' hv' haddr => ?_, ?_, fun s' hs' hother => ?_⟩
  · rw [hslots s']
    dsimp only
    rw [if_pos ⟨hv', haddr⟩, if_neg hs']
  · rw [hslots s]
    dsimp only
    rw [if_pos ⟨hv, rfl⟩, if_pos rfl]
    exact ⟨sidx, ctr + 1, rfl⟩
  · rw [hslots s']
    dsimp only
    rw [if_neg hs', if_neg]
    rintro ⟨hv', haddr⟩
    rcases hother with hother | hother
    · rw [hv'] at hother
      contradiction
    · exact hother haddr

/-- **Following a client**, after any calls on any table. The counters accepted for a session
increase; a call is accepted when its session is known and its counter is above all of them
and does not leap, and otherwise returns 0 and changes nothing; it returns 1 exactly when it
is accepted and the session's entry was at another address, and then moves the entries at
that address. -/
theorem follow_sound {t₀ t : SessionTable} {g : UInt32 → List ℕ} {es : List FollowCall}
    (hrun : followGhost.run (t₀, rememberedCtrs t₀) es = some (t, g)) (sidx : UInt32)
    (src : CliAddr) (ctr : UInt64) :
    (g sidx).Pairwise (· > ·) ∧
    (sessionAccepts t sidx ctr = true ↔
      (∃ s, sessionGetByServerIndex t sidx = some s) ∧ ¬ StaleCtr (g sidx) ctr.toNat) ∧
    (sessionAccepts t sidx ctr = false → sessionFollowClient t sidx src ctr = (t, false)) ∧
    ((sessionFollowClient t sidx src ctr).2 = true ↔ sessionAccepts t sidx ctr = true ∧
      ∃ s, sessionGetByServerIndex t sidx = some s ∧ (t.sessions s).addr ≠ src) ∧
    ((sessionFollowClient t sidx src ctr).2 = true → ∃ s,
      sessionGetByServerIndex t sidx = some s ∧
        Moves t (sessionFollowClient t sidx src ctr).1 s src) := by
  have hinv : FollowInv (t, g) :=
    Machine.run_induction (fun _ _ _ hq hstep => hq.step hstep) (FollowInv.remembered t₀) hrun
  refine ⟨hinv.sorted sidx, hinv.accepts_iff sidx ctr,
    sessionFollowClient_of_not_accepts src, ?_⟩
  cases hacc : sessionAccepts t sidx ctr with
  | false =>
      rw [sessionFollowClient_of_not_accepts src hacc]
      exact ⟨iff_of_false Bool.false_ne_true fun h => Bool.false_ne_true h.1,
        fun h => absurd h Bool.false_ne_true⟩
  | true =>
      obtain ⟨s, hget, hno⟩ := sessionAccepts_iff.mp hacc
      refine ⟨?_, fun _ => ⟨s, hget, moves_of_accepts hget hno⟩⟩
      have haddr : (∃ s', sessionGetByServerIndex t sidx = some s' ∧ (t.sessions s').addr ≠ src) ↔
          (t.sessions s).addr ≠ src := by
        constructor
        · rintro ⟨s', hs', hne⟩
          obtain rfl := Option.some.inj (hs'.symm.trans hget)
          exact hne
        · exact fun hne => ⟨s, hget, hne⟩
      rw [haddr, sessionFollowClient_of_accepts src hget hno]
      by_cases heq : (t.sessions s).addr = src
      · rw [if_pos heq]
        exact iff_of_false Bool.false_ne_true fun h => h.2 heq
      · rw [if_neg heq]
        exact iff_of_true rfl ⟨rfl, heq⟩

/-- A table with one session, whose counter is known. -/
def followTable : SessionTable :=
  let t := sessionPutProf .empty 5 (.v4 1 1) 0
  sessionSetServerIndex t.1 (some t.2) 7

/-- A packet of that session from another port, and its copy from the old one. -/
theorem follow_sound_copy : ∃ t g,
    followGhost.run (followTable, rememberedCtrs followTable) [⟨7, .v4 1 2, 3⟩] = some (t, g) ∧
      g 7 = [3] ∧ sessionFollowClient t 7 (.v4 1 1) 3 = (t, false) := by
  have hrun : ((followGhost.run (followTable, rememberedCtrs followTable)
      [⟨7, .v4 1 2, 3⟩]).map fun q => q.2 7) = some [3] := by
    decide
  obtain ⟨⟨t, g⟩, hq, hg⟩ := Option.map_eq_some_iff.mp hrun
  obtain ⟨-, hacc, hno, -⟩ := follow_sound hq 7 (.v4 1 1) 3
  dsimp only at hg
  refine ⟨t, g, hq, hg, hno ?_⟩
  rw [← Bool.not_eq_true, hacc, hg]
  exact fun h => h.2 (Or.inl ⟨3, List.mem_singleton.mpr rfl, by decide⟩)

end AwgProxy
