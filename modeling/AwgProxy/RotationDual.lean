import AwgProxy.Rotation

/-!
# A Move on Both Ports

While a move is pending every batch goes out on the new port, and a copy on the old one
`ROT_LAG_MS` later. The c2s thread sends first and then looks whether copies are wanted; the
main loop, when the new port stays silent, turns the state, stops the copies and points the
socket back. The steps of the two threads are interleaved here as they are: each store and
each load that the other thread can come between is one step.

* `dualMachine` — the sends of the c2s thread and a rollback of the main loop.
* `lossless` — when no batch falls between the stores of the rollback, and the old port is
  not closed under copies that wait, a move that went back has lost nothing.
-/

namespace AwgProxy

/-- `ROT_LAG_MS`. -/
abbrev rotLagMs : ℕ := 50

/-- `ROT_LAG_N`. -/
abbrev rotLagN : ℕ := 256

/-- `ROT_LAG_PKT`. -/
abbrev rotLagPkt : ℕ := 1600

/-- A datagram handed to `send_batch_remote`, with its number. -/
abbrev Outgoing := Bytes × ℕ

/-- `struct rot_lag`: a copy and when it is due. -/
structure RotLag where
  pkt : Outgoing
  dueUs : ℕ
  deriving DecidableEq

/-- Where the c2s thread is in `send_batch_remote`. -/
inductive SendAt
  /-- Outside. -/
  | idle
  /-- The waiting copies have been serviced. -/
  | sending (ds : List Outgoing)
  /-- The batch went to the remote socket. -/
  | sent (ds : List Outgoing)
  /-- `rot_dual` was set. -/
  | copying (ds : List Outgoing)
  deriving DecidableEq

/-- The batch the c2s thread is at. -/
def SendAt.batch : SendAt → List Outgoing
  | .idle => []
  | .sending ds => ds
  | .sent ds => ds
  | .copying ds => ds

/-- Where the main loop is in `rot_main_poll`. -/
inductive PollAt
  /-- Outside. -/
  | away
  /-- The state is turned, the move goes back. -/
  | back
  /-- `rot_dual` is cleared. -/
  | connecting
  deriving DecidableEq

/-- `proxy_t` as far as the copies and the rollback of one move read and write it. -/
structure DualMove where
  /-- The port the remote socket is connected to. -/
  peer : Port
  /-- `rot_from`. -/
  rotFrom : Port
  /-- `rot_state`. -/
  rotState : RotState
  /-- `rot_dual`. -/
  rotDual : Bool
  /-- `rot_old_fd` is open. -/
  rotOldFd : Bool
  /-- `rot_won`. -/
  rotWon : Bool
  /-- `rot_lag` is allocated. -/
  rotLag : Bool
  /-- The copies that wait, oldest first. -/
  lag : List RotLag
  c2s : SendAt
  main : PollAt
  /-- The move has gone back. -/
  rolledBack : Bool
  /-- What was handed to `send_batch_remote` since the move began. -/
  handed : List Outgoing
  /-- What was handed to a socket connected to the old port. -/
  toOld : List Outgoing

/-- A step of a thread. -/
inductive DualEvent
  /-- c2s: `rot_lag_service` in the loop. -/
  | service (now : ℕ)
  /-- c2s: a batch is handed to `send_batch_remote`, which services the copies. -/
  | hand (ds : List Bytes) (now : ℕ)
  /-- c2s: the batch goes to the remote socket. -/
  | send
  /-- c2s: `rot_dual` is read. -/
  | readDual
  /-- c2s: the copies are queued; `alloc` when memory for the queue is had. -/
  | queue (now : ℕ) (alloc : Bool)
  /-- s2c: `rot_answered`. -/
  | answered
  /-- main: the CAS of `rot_state`. -/
  | turn
  /-- main: the store of `rot_dual`. -/
  | storeDual
  /-- main: `rot_connect` back to `rot_from`. -/
  | connectBack (connects : Bool)
  /-- main: the old port is let go. -/
  | release
  deriving DecidableEq

/-! ### The copies -/

/-- `rot_lag_service`. -/
def DualMove.rotLagService (s : DualMove) (now : ℕ) : DualMove :=
  if s.lag = [] then s
  else if !s.rotOldFd || (!s.rotDual && s.rotWon) then { s with lag := [] }
  else
    let due := if s.rotDual then s.lag.takeWhile (·.dueUs ≤ now) else s.lag
    { s with toOld := s.toOld ++ due.map RotLag.pkt, lag := s.lag.drop due.length }

/-- `rot_lag_put`. -/
def DualMove.rotLagPut (s : DualMove) (now : ℕ) (alloc : Bool) (x : Outgoing) : DualMove :=
  let s := { s with rotLag := s.rotLag || (decide (x.1.length ≤ rotLagPkt) && alloc) }
  if !s.rotLag || decide (x.1.length > rotLagPkt) || decide (s.lag.length = rotLagN) then
    { s with toOld := s.toOld ++ [x] }
  else { s with lag := s.lag ++ [⟨x, now + rotLagMs * 1000⟩] }

/-- A step of a thread. A send on the old port does not fail. -/
def dualStep (s : DualMove) : DualEvent → Option DualMove
  | .service now => if s.c2s = .idle then some (s.rotLagService now) else none
  | .hand ds now =>
      if s.c2s = .idle then
        let ds := ds.zipIdx s.handed.length
        some { s.rotLagService now with c2s := .sending ds, handed := s.handed ++ ds }
      else none
  | .send =>
      match s.c2s with
      | .sending ds => some { s with
          c2s := .sent ds
          toOld := if s.peer = s.rotFrom then s.toOld ++ ds else s.toOld }
      | _ => none
  | .readDual =>
      match s.c2s with
      | .sent ds => some { s with c2s := if s.rotDual then .copying ds else .idle }
      | _ => none
  | .queue now alloc =>
      match s.c2s with
      | .copying ds =>
          let s := { s with c2s := .idle }
          some (if s.rotOldFd then ds.foldl (fun s x => s.rotLagPut now alloc x) s else s)
      | _ => none
  | .answered =>
      if s.rotState = .pending then
        some { s with rotState := .idle, rotWon := true, rotDual := false }
      else none
  | .turn =>
      if s.main = .away ∧ s.rotState = .pending then
        some { s with rotState := .idle, main := .back }
      else none
  | .storeDual =>
      if s.main = .back then some { s with rotDual := false, main := .connecting } else none
  | .connectBack connects =>
      if s.main = .connecting then
        some { s with
          peer := if connects then s.rotFrom else s.peer
          main := .away
          rolledBack := true }
      else none
  | .release =>
      if s.main = .away ∧ s.rotState = .idle ∧ s.rotOldFd then
        some { s with rotOldFd := false, rotDual := false }
      else none

/-- The sends of the c2s thread and the end of a move. -/
def dualMachine : Machine DualMove DualEvent :=
  ⟨dualStep⟩

/-- A move that went back has lost nothing: every datagram handed to `send_batch_remote`,
apart from the batch it is at, has been handed to a socket connected to the old port, or is
by the next `rot_lag_service`. -/
def Lossless (s : DualMove) : Prop :=
  s.rolledBack = true → ∀ x ∈ s.handed, x ∉ s.c2s.batch → ∀ now, x ∈ (s.rotLagService now).toOld

/-- No batch falls between the stores of the rollback: none is on its way to the load of
`rot_dual` when that is cleared, and none is sent from there until the socket is connected
back, which succeeds. And the old port is not let go while copies wait or are being made. -/
def NoneFallsBetween (s : DualMove) : DualEvent → Prop
  | .send => s.main ≠ .connecting
  | .storeDual => ∀ ds, s.c2s ≠ .sent ds
  | .connectBack connects => connects = true
  | .release => s.rolledBack = true → s.lag = [] ∧ ∀ ds, s.c2s ≠ .copying ds
  | _ => True

/-- The move has just begun, with the socket of the old port kept. -/
structure DualMove.Started (s : DualMove) : Prop where
  rotState : s.rotState = .pending
  rotDual : s.rotDual = true
  rotOldFd : s.rotOldFd = true
  rotWon : s.rotWon = false
  lag : s.lag = []
  c2s : s.c2s = .idle
  main : s.main = .away
  rolledBack : s.rolledBack = false
  handed : s.handed = []

/-! ### The phases of a move -/

/-- Where a move stands that the new port has not answered. -/
inductive MovePhase (s : DualMove) : Prop
  /-- It is pending. -/
  | pending (hmain : s.main = .away) (hst : s.rotState = .pending) (hdual : s.rotDual = true)
      (hback : s.rolledBack = false)
  /-- The state is turned. -/
  | back (hmain : s.main = .back) (hst : s.rotState = .idle) (hdual : s.rotDual = true)
      (hback : s.rolledBack = false)
  /-- The copies are stopped. -/
  | connecting (hmain : s.main = .connecting) (hst : s.rotState = .idle)
      (hdual : s.rotDual = false) (hback : s.rolledBack = false)
  /-- It has gone back. -/
  | rolledBack (hmain : s.main = .away) (hst : s.rotState = .idle) (hdual : s.rotDual = false)
      (hback : s.rolledBack = true) (hpeer : s.peer = s.rotFrom)

/-- The datagram is on the old port, or waits for it. -/
def DualMove.Holds (s : DualMove) (x : Outgoing) : Prop :=
  x ∈ s.toOld ∨ x ∈ s.lag.map RotLag.pkt

/-- A move that the new port has not answered: nothing is lost. -/
structure InPlay (s : DualMove) : Prop where
  won : s.rotWon = false
  phase : MovePhase s
  /-- The old port is open, or nothing is to go there. -/
  old : s.rotOldFd = true ∨ s.rotDual = false ∧ s.lag = [] ∧ ∀ ds, s.c2s ≠ .copying ds
  /-- A batch on its way to the load of `rot_dual` is copied there, or went to the old port. -/
  sent : ∀ ds, s.c2s = .sent ds → s.rotDual = true ∨ ∀ x ∈ ds, x ∈ s.toOld
  kept : ∀ x ∈ s.handed, s.Holds x ∨ x ∈ s.c2s.batch

/-- The new port has answered. -/
structure Answered (s : DualMove) : Prop where
  main : s.main = .away
  rotState : s.rotState = .idle
  rolledBack : s.rolledBack = false

theorem MovePhase.congr {s s' : DualMove} (h : MovePhase s) (hmain : s'.main = s.main)
    (hst : s'.rotState = s.rotState) (hdual : s'.rotDual = s.rotDual)
    (hback : s'.rolledBack = s.rolledBack) (hpeer : s'.peer = s.peer)
    (hfrom : s'.rotFrom = s.rotFrom) : MovePhase s' := by
  cases h with
  | pending h₁ h₂ h₃ h₄ =>
      exact .pending (hmain.trans h₁) (hst.trans h₂) (hdual.trans h₃) (hback.trans h₄)
  | back h₁ h₂ h₃ h₄ =>
      exact .back (hmain.trans h₁) (hst.trans h₂) (hdual.trans h₃) (hback.trans h₄)
  | connecting h₁ h₂ h₃ h₄ =>
      exact .connecting (hmain.trans h₁) (hst.trans h₂) (hdual.trans h₃) (hback.trans h₄)
  | rolledBack h₁ h₂ h₃ h₄ h₅ =>
      exact .rolledBack (hmain.trans h₁) (hst.trans h₂) (hdual.trans h₃) (hback.trans h₄)
        (hpeer.trans (h₅.trans hfrom.symm))

/-- The move is pending. -/
theorem MovePhase.of_pending {s : DualMove} (h : MovePhase s) (hst : s.rotState = .pending) :
    s.main = .away ∧ s.rotDual = true ∧ s.rolledBack = false := by
  cases h with
  | pending hmain _ hdual hback => exact ⟨hmain, hdual, hback⟩
  | back _ hidle => exact absurd (hst.symm.trans hidle) nofun
  | connecting _ hidle => exact absurd (hst.symm.trans hidle) nofun
  | rolledBack _ hidle => exact absurd (hst.symm.trans hidle) nofun

/-- The main loop stands behind the CAS. -/
theorem MovePhase.of_back {s : DualMove} (h : MovePhase s) (hmain : s.main = .back) :
    s.rotState = .idle ∧ s.rotDual = true ∧ s.rolledBack = false := by
  cases h with
  | pending haway => exact absurd (hmain.symm.trans haway) nofun
  | back _ hst hdual hback => exact ⟨hst, hdual, hback⟩
  | connecting hcon => exact absurd (hmain.symm.trans hcon) nofun
  | rolledBack haway => exact absurd (hmain.symm.trans haway) nofun

/-- The main loop stands behind the store of `rot_dual`. -/
theorem MovePhase.of_connecting {s : DualMove} (h : MovePhase s) (hmain : s.main = .connecting) :
    s.rotState = .idle ∧ s.rotDual = false ∧ s.rolledBack = false := by
  cases h with
  | pending haway => exact absurd (hmain.symm.trans haway) nofun
  | back hback => exact absurd (hmain.symm.trans hback) nofun
  | connecting _ hst hdual hback => exact ⟨hst, hdual, hback⟩
  | rolledBack haway => exact absurd (hmain.symm.trans haway) nofun

/-- The move is over and the main loop away: it has gone back. -/
theorem MovePhase.of_over {s : DualMove} (h : MovePhase s) (hmain : s.main = .away)
    (hst : s.rotState = .idle) :
    s.rotDual = false ∧ s.rolledBack = true ∧ s.peer = s.rotFrom := by
  cases h with
  | pending _ hpending => exact absurd (hst.symm.trans hpending) nofun
  | back hback => exact absurd (hmain.symm.trans hback) nofun
  | connecting hcon => exact absurd (hmain.symm.trans hcon) nofun
  | rolledBack _ _ hdual hback hpeer => exact ⟨hdual, hback, hpeer⟩

/-- A move that has gone back. -/
theorem MovePhase.of_rolledBack {s : DualMove} (h : MovePhase s) (hback : s.rolledBack = true) :
    s.rotDual = false := by
  cases h with
  | pending _ _ _ hno => exact absurd (hno.symm.trans hback) nofun
  | back _ _ _ hno => exact absurd (hno.symm.trans hback) nofun
  | connecting _ _ _ hno => exact absurd (hno.symm.trans hback) nofun
  | rolledBack _ _ hdual => exact hdual

/-- Unless the main loop is about to connect back, a batch is copied or goes to the old
port. -/
theorem MovePhase.dual_or_peer {s : DualMove} (h : MovePhase s) (hmain : s.main ≠ .connecting) :
    s.rotDual = true ∨ s.peer = s.rotFrom := by
  cases h with
  | pending _ _ hdual => exact Or.inl hdual
  | back _ _ hdual => exact Or.inl hdual
  | connecting hcon => exact absurd hcon hmain
  | rolledBack _ _ _ _ hpeer => exact Or.inr hpeer

/-! ### The copies reach the old port -/

/-- Servicing the copies touches them and the old port alone. -/
theorem exists_rotLagService_eq (s : DualMove) (now : ℕ) :
    ∃ toOld lag, s.rotLagService now = { s with toOld := toOld, lag := lag } ∧
      (∀ x ∈ s.toOld, x ∈ toOld) ∧ (s.lag = [] → lag = []) := by
  rw [DualMove.rotLagService]
  split
  · exact ⟨s.toOld, s.lag, rfl, fun _ hx => hx, id⟩
  rename_i hlag
  split
  · exact ⟨s.toOld, [], rfl, fun _ hx => hx, fun _ => rfl⟩
  · exact ⟨_, _, rfl, fun _ hx => List.mem_append_left _ hx, fun h => absurd h hlag⟩

/-- Before the new port answers, no copy is dropped. -/
theorem holds_rotLagService {s : DualMove} (hwon : s.rotWon = false)
    (hold : s.rotOldFd = true ∨ s.lag = []) (now : ℕ) {x : Outgoing} (hx : s.Holds x) :
    (s.rotLagService now).Holds x := by
  rw [DualMove.rotLagService]
  split
  · exact hx
  rename_i hlag
  rw [hold.resolve_right hlag, hwon, Bool.and_false, Bool.not_true, Bool.or_false,
    if_neg Bool.false_ne_true]
  generalize hdue : (if s.rotDual then s.lag.takeWhile (·.dueUs ≤ now) else s.lag) = due
  -- what is due is the head of the queue
  obtain ⟨rest, hrest⟩ : ∃ rest, s.lag = due ++ rest := by
    rw [← hdue]
    split
    · exact ⟨s.lag.dropWhile (·.dueUs ≤ now), List.takeWhile_append_dropWhile.symm⟩
    · exact ⟨[], (List.append_nil _).symm⟩
  have hhead : s.lag = due ++ s.lag.drop due.length := by rw [hrest, List.drop_left]
  rcases hx with hx | hx
  · exact Or.inl (List.mem_append_left _ hx)
  · rw [hhead, List.map_append] at hx
    rcases List.mem_append.mp hx with hx | hx
    · exact Or.inl (List.mem_append_right _ hx)
    · exact Or.inr hx

/-- Once the copies are stopped, all of them go out. -/
theorem mem_toOld_rotLagService {s : DualMove} (hwon : s.rotWon = false)
    (hold : s.rotOldFd = true ∨ s.lag = []) (hdual : s.rotDual = false) (now : ℕ) {x : Outgoing}
    (hx : s.Holds x) : x ∈ (s.rotLagService now).toOld := by
  rw [DualMove.rotLagService]
  split
  · rename_i hlag
    rcases hx with hx | hx
    · exact hx
    · rw [hlag] at hx
      exact absurd hx List.not_mem_nil
  rename_i hlag
  rw [hold.resolve_right hlag, hwon, Bool.and_false, Bool.not_true, Bool.or_false,
    if_neg Bool.false_ne_true, hdual, if_neg Bool.false_ne_true]
  exact List.mem_append.mpr hx

/-- Queueing the copies of `ds` touches them and the old port alone, and loses none. -/
theorem exists_queue_eq (s : DualMove) (now : ℕ) (alloc : Bool) (ds : List Outgoing) :
    ∃ rotLag toOld lag, ds.foldl (fun s x => s.rotLagPut now alloc x) s =
        { s with rotLag := rotLag, toOld := toOld, lag := lag } ∧
      (∀ x ∈ s.toOld, x ∈ toOld) ∧
      ∀ x, s.Holds x ∨ x ∈ ds → x ∈ toOld ∨ x ∈ lag.map RotLag.pkt := by
  induction ds generalizing s with
  | nil =>
      exact ⟨s.rotLag, s.toOld, s.lag, rfl, fun _ hx => hx, fun x hx =>
        hx.resolve_right List.not_mem_nil⟩
  | cons d ds ih =>
      obtain ⟨a, t, l, hput, hold, hheld, hd⟩ : ∃ a t l,
          s.rotLagPut now alloc d = { s with rotLag := a, toOld := t, lag := l } ∧
          (∀ x ∈ s.toOld, x ∈ t) ∧ (∀ x, s.Holds x → x ∈ t ∨ x ∈ l.map RotLag.pkt) ∧
          (d ∈ t ∨ d ∈ l.map RotLag.pkt) := by
        rw [DualMove.rotLagPut]
        dsimp only
        split
        · exact ⟨_, _, s.lag, rfl, fun x hx => List.mem_append_left _ hx,
            fun x hx => hx.imp_left (List.mem_append_left _),
            Or.inl (List.mem_append_right _ (List.mem_singleton.mpr rfl))⟩
        · refine ⟨_, s.toOld, _, rfl, fun x hx => hx, fun x hx => ?_, Or.inr ?_⟩
          · rw [List.map_append]
            exact hx.imp_right (List.mem_append_left _)
          · rw [List.map_append]
            exact List.mem_append_right _ (List.mem_singleton.mpr rfl)
      obtain ⟨a', t', l', hfold, hold', hheld'⟩ := ih { s with rotLag := a, toOld := t, lag := l }
      refine ⟨a', t', l', ?_, fun x hx => hold' x (hold x hx), fun x hx => hheld' x ?_⟩
      · rw [List.foldl_cons, hput, hfold]
      · rcases hx with hx | hx
        · exact Or.inl (hheld x hx)
        · rcases List.mem_cons.mp hx with rfl | hx
          · exact Or.inl hd
          · exact Or.inr hx

/-! ### Nothing is lost -/

/-- Without copies to come from an open socket, none wait. -/
theorem InPlay.old_or_lag {s : DualMove} (h : InPlay s) : s.rotOldFd = true ∨ s.lag = [] :=
  h.old.imp_right fun hclosed => hclosed.2.1

theorem InPlay.service {s : DualMove} (h : InPlay s) (now : ℕ) : InPlay (s.rotLagService now) := by
  obtain ⟨toOld, lag, heq, hold, hlag⟩ := exists_rotLagService_eq s now
  have hkept : ∀ x, s.Holds x → (s.rotLagService now).Holds x := fun x hx =>
    holds_rotLagService h.won h.old_or_lag now hx
  rw [heq] at hkept ⊢
  refine ⟨h.won, h.phase.congr rfl rfl rfl rfl rfl rfl, ?_, fun ds hds => ?_, fun x hx => ?_⟩
  · exact h.old.imp_right fun ⟨hdual, hnil, hcopy⟩ => ⟨hdual, hlag hnil, hcopy⟩
  · exact (h.sent ds hds).imp_right fun hall x hx => hold x (hall x hx)
  · exact (h.kept x hx).imp_left (hkept x)

/-- While copies are wanted, the old port is open. -/
theorem InPlay.open_of_dual {s : DualMove} (h : InPlay s) (hdual : s.rotDual = true) :
    s.rotOldFd = true :=
  h.old.resolve_right fun hclosed => absurd (hdual.symm.trans hclosed.1) nofun

/-- A batch is handed over. -/
theorem InPlay.hand {s : DualMove} (h : InPlay s) (hidle : s.c2s = .idle) (ds : List Outgoing)
    (now : ℕ) :
    InPlay { s.rotLagService now with c2s := .sending ds, handed := s.handed ++ ds } := by
  have hv := h.service now
  obtain ⟨toOld, lag, heq, -, -⟩ := exists_rotLagService_eq s now
  rw [heq] at hv ⊢
  refine ⟨hv.won, hv.phase.congr rfl rfl rfl rfl rfl rfl, ?_, nofun, fun x hx => ?_⟩
  · exact hv.old.imp_right fun ⟨hdual, hnil, _⟩ => ⟨hdual, hnil, nofun⟩
  · rcases List.mem_append.mp hx with hx | hx
    · refine (hv.kept x hx).imp_right fun hbatch => ?_
      dsimp only at hbatch
      rw [hidle] at hbatch
      exact absurd hbatch List.not_mem_nil
    · exact Or.inr hx

/-- The batch goes to the remote socket: the socket points back, or copies are wanted. -/
theorem InPlay.send {s : DualMove} (h : InPlay s) {ds : List Outgoing} (hc : s.c2s = .sending ds)
    (hmain : s.main ≠ .connecting) :
    InPlay { s with
      c2s := .sent ds
      toOld := if s.peer = s.rotFrom then s.toOld ++ ds else s.toOld } := by
  have hmono : ∀ x ∈ s.toOld, x ∈ (if s.peer = s.rotFrom then s.toOld ++ ds else s.toOld) := by
    intro x hx
    split
    · exact List.mem_append_left _ hx
    · exact hx
  refine ⟨h.won, h.phase.congr rfl rfl rfl rfl rfl rfl, ?_, fun ds' hds' => ?_, fun x hx => ?_⟩
  · exact h.old.imp_right fun ⟨hdual, hnil, _⟩ => ⟨hdual, hnil, nofun⟩
  · obtain rfl := SendAt.sent.inj hds'
    refine (h.phase.dual_or_peer hmain).imp_right fun hpeer x hx => ?_
    dsimp only
    rw [if_pos hpeer]
    exact List.mem_append_right _ hx
  · have hbatch := h.kept x hx
    rw [hc] at hbatch
    exact hbatch.imp_left fun hx => hx.imp_left (hmono x)

/-- `rot_dual` is read. -/
theorem InPlay.readDual {s : DualMove} (h : InPlay s) {ds : List Outgoing} (hc : s.c2s = .sent ds) :
    InPlay { s with c2s := if s.rotDual then .copying ds else .idle } := by
  have hbatch := h.kept
  rw [hc] at hbatch
  cases hdual : s.rotDual with
  | true =>
      exact ⟨h.won, h.phase.congr rfl rfl hdual.symm rfl rfl rfl, Or.inl (h.open_of_dual hdual),
        nofun, hbatch⟩
  | false =>
      have hall := (h.sent ds hc).resolve_left fun ht => absurd (hdual.symm.trans ht) nofun
      refine ⟨h.won, h.phase.congr rfl rfl hdual.symm rfl rfl rfl, ?_, nofun, fun x hx => ?_⟩
      · exact h.old.imp_right fun ⟨_, hnil, _⟩ => ⟨rfl, hnil, nofun⟩
      · rcases hbatch x hx with hx | hx
        · exact Or.inl hx
        · exact Or.inl (Or.inl (hall x hx))

/-- The copies are queued. -/
theorem InPlay.queue {s : DualMove} (h : InPlay s) {ds : List Outgoing} (hc : s.c2s = .copying ds)
    (now : ℕ) (alloc : Bool) :
    InPlay (if s.rotOldFd then
      ds.foldl (fun s x => s.rotLagPut now alloc x) { s with c2s := .idle }
      else { s with c2s := .idle }) := by
  have hopen : s.rotOldFd = true := h.old.resolve_right fun hclosed => hclosed.2.2 ds hc
  have hbatch := h.kept
  rw [hc] at hbatch
  rw [if_pos hopen]
  obtain ⟨rotLag, toOld, lag, heq, -, hheld⟩ := exists_queue_eq { s with c2s := .idle } now alloc ds
  rw [heq]
  exact ⟨h.won, h.phase.congr rfl rfl rfl rfl rfl rfl, Or.inl hopen, nofun,
    fun x hx => Or.inl (hheld x (hbatch x hx))⟩

/-- The old port of a move that has gone back is let go. -/
theorem InPlay.release {s : DualMove} (h : InPlay s) (hmain : s.main = .away)
    (hidle : s.rotState = .idle)
    (hg : s.rolledBack = true → s.lag = [] ∧ ∀ ds, s.c2s ≠ .copying ds) :
    InPlay { s with rotOldFd := false, rotDual := false } := by
  obtain ⟨hdual, hback, hpeer⟩ := h.phase.of_over hmain hidle
  refine ⟨h.won, .rolledBack hmain hidle rfl hback hpeer, Or.inr ⟨rfl, hg hback⟩,
    fun ds hds => Or.inr ?_, h.kept⟩
  exact (h.sent ds hds).resolve_left fun ht => absurd (hdual.symm.trans ht) nofun

/-- Every step keeps a move in play or ends it by an answer. -/
theorem InPlay.step {s s' : DualMove} {e : DualEvent} (h : InPlay s) (hg : NoneFallsBetween s e)
    (hs : dualStep s e = some s') : Answered s' ∨ InPlay s' := by
  cases e with
  | service now =>
      obtain ⟨-, rfl⟩ := Option.ite_some_none_eq_some.mp hs
      exact Or.inr (h.service now)
  | hand ds now =>
      obtain ⟨hidle, rfl⟩ := Option.ite_some_none_eq_some.mp hs
      exact Or.inr (h.hand hidle _ now)
  | send =>
      rw [dualStep] at hs
      split at hs
      · rename_i ds hsending
        obtain rfl := Option.some.inj hs
        exact Or.inr (h.send hsending hg)
      · contradiction
  | readDual =>
      rw [dualStep] at hs
      split at hs
      · rename_i ds hsent
        obtain rfl := Option.some.inj hs
        exact Or.inr (h.readDual hsent)
      · contradiction
  | queue now alloc =>
      rw [dualStep] at hs
      split at hs
      · rename_i ds hcopying
        obtain rfl := Option.some.inj hs
        exact Or.inr (h.queue hcopying now alloc)
      · contradiction
  | answered =>
      obtain ⟨hpending, rfl⟩ := Option.ite_some_none_eq_some.mp hs
      obtain ⟨hmain, -, hback⟩ := h.phase.of_pending hpending
      exact Or.inl ⟨hmain, rfl, hback⟩
  | turn =>
      obtain ⟨⟨-, hpending⟩, rfl⟩ := Option.ite_some_none_eq_some.mp hs
      obtain ⟨-, hdual, hback⟩ := h.phase.of_pending hpending
      exact Or.inr ⟨h.won, .back rfl rfl hdual hback, h.old, h.sent, h.kept⟩
  | storeDual =>
      obtain ⟨hmain, rfl⟩ := Option.ite_some_none_eq_some.mp hs
      obtain ⟨hst, hdual, hback⟩ := h.phase.of_back hmain
      exact Or.inr ⟨h.won, .connecting rfl hst rfl hback, Or.inl (h.open_of_dual hdual),
        fun ds hds => absurd hds (hg ds), h.kept⟩
  | connectBack connects =>
      obtain ⟨hmain, rfl⟩ := Option.ite_some_none_eq_some.mp hs
      obtain ⟨hst, hdual, -⟩ := h.phase.of_connecting hmain
      exact Or.inr ⟨h.won, .rolledBack rfl hst hdual rfl (if_pos hg), h.old, h.sent, h.kept⟩
  | release =>
      obtain ⟨⟨hmain, hidle, -⟩, rfl⟩ := Option.ite_some_none_eq_some.mp hs
      exact Or.inr (h.release hmain hidle hg)

/-- Once the new port has answered, the move does not go back. -/
theorem Answered.step {s s' : DualMove} {e : DualEvent} (h : Answered s)
    (hs : dualStep s e = some s') : Answered s' := by
  have hidle : ¬ s.rotState = .pending := fun hp => absurd (h.rotState.symm.trans hp) nofun
  cases e with
  | service now =>
      obtain ⟨-, rfl⟩ := Option.ite_some_none_eq_some.mp hs
      obtain ⟨toOld, lag, heq, -, -⟩ := exists_rotLagService_eq s now
      rw [heq]
      exact ⟨h.main, h.rotState, h.rolledBack⟩
  | hand ds now =>
      obtain ⟨-, rfl⟩ := Option.ite_some_none_eq_some.mp hs
      obtain ⟨toOld, lag, heq, -, -⟩ := exists_rotLagService_eq s now
      rw [heq]
      exact ⟨h.main, h.rotState, h.rolledBack⟩
  | send =>
      rw [dualStep] at hs
      split at hs
      · obtain rfl := Option.some.inj hs
        exact ⟨h.main, h.rotState, h.rolledBack⟩
      · contradiction
  | readDual =>
      rw [dualStep] at hs
      split at hs
      · obtain rfl := Option.some.inj hs
        exact ⟨h.main, h.rotState, h.rolledBack⟩
      · contradiction
  | queue now alloc =>
      rw [dualStep] at hs
      split at hs
      · rename_i ds hcopying
        obtain rfl := Option.some.inj hs
        dsimp only
        split
        · obtain ⟨rotLag, toOld, lag, heq, -, -⟩ :=
            exists_queue_eq { s with c2s := .idle } now alloc ds
          rw [heq]
          exact ⟨h.main, h.rotState, h.rolledBack⟩
        · exact ⟨h.main, h.rotState, h.rolledBack⟩
      · contradiction
  | answered => exact absurd (Option.ite_none_right_eq_some.mp hs).1 hidle
  | turn => exact absurd (Option.ite_none_right_eq_some.mp hs).1.2 hidle
  | storeDual =>
      exact absurd (h.main.symm.trans (Option.ite_none_right_eq_some.mp hs).1) nofun
  | connectBack connects =>
      exact absurd (h.main.symm.trans (Option.ite_none_right_eq_some.mp hs).1) nofun
  | release =>
      obtain ⟨-, rfl⟩ := Option.ite_some_none_eq_some.mp hs
      exact ⟨h.main, h.rotState, h.rolledBack⟩

/-- **A failed port move loses nothing the client sent**, in every state reached by a run in
which no batch falls between the stores of the rollback and the old port is not let go under
copies that wait. -/
theorem lossless {s t : DualMove} {es : List DualEvent} (h0 : s.Started)
    (hC : dualMachine.Meets NoneFallsBetween s es) (hrun : dualMachine.run s es = some t) :
    Lossless t := by
  have hinit : Answered s ∨ InPlay s := by
    refine Or.inr ⟨h0.rotWon, .pending h0.main h0.rotState h0.rotDual h0.rolledBack,
      Or.inl h0.rotOldFd, fun ds hds => absurd (h0.c2s.symm.trans hds) nofun, ?_⟩
    rw [h0.handed]
    exact nofun
  have hstep : ∀ q e q', Answered q ∨ InPlay q → NoneFallsBetween q e →
      dualMachine.step q e = some q' → Answered q' ∨ InPlay q' := by
    rintro q e q' (hq | hq) hg hs
    · exact Or.inl (hq.step hs)
    · exact hq.step hg hs
  intro hback x hx hbatch now
  rcases Machine.guarded_induction hstep hinit hC hrun with ht | ht
  · exact absurd (ht.rolledBack.symm.trans hback) nofun
  · have hheld := (ht.kept x hx).resolve_right hbatch
    exact mem_toOld_rotLagService ht.won ht.old_or_lag (ht.phase.of_rolledBack hback) now hheld

/-- A move from port 4500 to 4501 that has just begun. -/
def doubling : DualMove where
  peer := 4501
  rotFrom := 4500
  rotState := .pending
  rotDual := true
  rotOldFd := true
  rotWon := false
  rotLag := false
  lag := []
  c2s := .idle
  main := .away
  rolledBack := false
  handed := []
  toOld := []

theorem started_doubling : doubling.Started :=
  ⟨rfl, rfl, rfl, rfl, rfl, rfl, rfl, rfl, rfl⟩

/-- A batch that is copied, and a rollback behind it. -/
theorem lossless_copied : ∃ t, dualMachine.run doubling
    [.hand [[4]] 0, .send, .readDual, .queue 0 true, .turn, .storeDual, .connectBack true] =
      some t ∧ Lossless t := by
  have hC : dualMachine.Meets NoneFallsBetween doubling
      [.hand [[4]] 0, .send, .readDual, .queue 0 true, .turn, .storeDual, .connectBack true] :=
    .cons trivial rfl (.cons nofun rfl (.cons trivial rfl (.cons trivial rfl (.cons trivial rfl
      (.cons nofun rfl (.cons rfl rfl (Machine.meets_nil _ _)))))))
  exact ⟨_, rfl, lossless started_doubling hC rfl⟩

/-- A batch goes to the new port, the main loop turns the state and clears `rot_dual`, the
c2s thread reads it, and the socket is connected back. -/
def fallenEvents : List DualEvent :=
  [.hand [[4]] 0, .send, .turn, .storeDual, .readDual, .connectBack true]

/-- The batch is lost: it went to the port that never answered, and to no other. -/
theorem not_lossless_between :
    doubling.Started ∧ ∃ t, dualMachine.run doubling fallenEvents = some t ∧ ¬ Lossless t ∧
      t.c2s = .idle ∧ t.handed = [([4], 0)] ∧ t.toOld = [] ∧ t.lag = [] := by
  refine ⟨started_doubling, _, rfl, fun hl => ?_, rfl, rfl, rfl, rfl⟩
  exact absurd (hl rfl ([4], 0) (List.mem_singleton.mpr rfl) List.not_mem_nil 0) List.not_mem_nil

end AwgProxy
