import AwgProxy.Lib.Machine
import AwgProxy.S2cLoop

/-!
# Port Rotation

A port move and its end, in three threads. The c2s thread points the connected socket at
another server port (`rot_move`), the s2c thread takes what comes in for the answer of the
new port (`rot_answered`) or replaces the connection (`do_reconnect`, then `he_finish`), and
the main loop goes back when nothing came, or lets the old port go (`rot_main_poll`). What
holds `remote_mu` is one step; the loads a thread makes before it takes the mutex are steps
of their own. The clock is part of the event.

* `rotMachine` — the three threads, the kernel and the server.
* `rotStep_of_step` — what a step can do.
* `moves_end_once` — every move ends once, and the endpoint is the port of the socket.
-/

namespace AwgProxy

/-- A server port. -/
abbrev Port := UInt16

/-- A datagram the server sent. -/
structure ServerPkt where
  /-- The port it came from. -/
  port : Port
  /-- The moves begun when it was sent. -/
  sentAfter : ℕ
  /-- The packet function passes it on. -/
  forwards : Bool
  deriving DecidableEq

/-- `rot_state`. -/
inductive RotState
  | idle
  | pending
  deriving DecidableEq

/-- How a move ends. -/
inductive MoveEnd
  /-- `rot_answered` turned the state. -/
  | confirmed
  /-- `rot_main_poll` turned it. -/
  | rolledBack
  /-- A reconnect made the move moot. -/
  | abandoned
  deriving DecidableEq

/-- What `rot_main_poll` loads before it takes the mutex. -/
structure RotPoll where
  st : RotState
  dual : Bool
  refused : Bool
  deriving DecidableEq

/-- `ROT_BAD_N`. -/
abbrev rotBadN : ℕ := 8

/-- `proxy_t` as far as a move reads and writes it, the locals of the threads between two
steps, and the sockets. A socket is named by its number. -/
structure Rotation where
  /-- The port a socket is connected to. -/
  peer : ℕ → Port
  /-- The datagrams on a socket, oldest first. -/
  queued : ℕ → List ServerPkt
  /-- The number of the next socket. -/
  nextSock : ℕ
  /-- `remote_fd`; `none` for `-1`. -/
  remoteFd : Option ℕ
  /-- `remote_fd2`, the socket of the other family while the probe runs. -/
  remoteFd2 : Option ℕ
  /-- `remote_port`. -/
  remotePort : Port
  /-- The port inside `remote`. -/
  remote : Port
  /-- The port inside `remote_alt`. -/
  remoteAlt : Port
  /-- `rot_state`. -/
  rotState : RotState
  /-- `rot_old_fd`. -/
  rotOldFd : Option ℕ
  /-- `rot_dual`. -/
  rotDual : Bool
  /-- `rot_won`. -/
  rotWon : Bool
  /-- `rot_refused`. -/
  rotRefused : Bool
  /-- `rot_due`. -/
  rotDue : Bool
  /-- `rot_changed`. -/
  rotChanged : Bool
  /-- `rot_failed`. -/
  rotFailed : Bool
  /-- `rot_from`. -/
  rotFrom : Port
  /-- `rot_to`. -/
  rotTo : Port
  /-- `rot_bad`. -/
  rotBad : List Port
  /-- `rot_bad_i`. -/
  rotBadI : ℕ
  /-- c2s: `remote_fd` as loaded, once the guards of `rot_try` have held. -/
  checked : Option ℕ
  /-- s2c: the batch the packet function has seen, before the test of `rot_state`. -/
  hand : Option (List ServerPkt)
  /-- s2c: the segments of a merged read that are pending. -/
  pend : List ServerPkt
  /-- main: what `rot_main_poll` has loaded. -/
  polled : Option RotPoll
  /-- The moves begun. -/
  moves : ℕ
  /-- The moves that have ended, by their numbers, and how. -/
  ends : List (ℕ × MoveEnd)
  /-- The datagrams the s2c thread has taken. -/
  taken : List ServerPkt

/-- How the dial of a reconnect ends. -/
inductive RotDial
  /-- The name does not resolve, or no socket is had. -/
  | failed
  /-- One socket, or two of both families. -/
  | connected (both : Bool)
  deriving DecidableEq

/-- A step of a thread, the kernel or the server. -/
inductive RotEvent
  /-- main: the tick finds the port due. -/
  | due
  /-- main: the tick takes `rot_changed` and `rot_failed`. -/
  | takeNews
  /-- An ICMP refusal while a move is pending. -/
  | refuse
  /-- A datagram arrives on a socket. -/
  | arrive (fd : ℕ) (d : ServerPkt)
  /-- c2s: the guards of `rot_try`. -/
  | check
  /-- c2s: `rot_move`, with the draws of `rot_pick`, whether the old port is kept, and
  whether the socket connects to the new port or else back. -/
  | move (soft kept : Bool) (draws : List Port) (connects back : Bool)
  /-- s2c: a read of `k` datagrams, merged or not. -/
  | read (gro : Bool) (k : ℕ)
  /-- s2c: the pending segments. -/
  | drain
  /-- s2c: the test of `rot_state` behind the batch. -/
  | test
  /-- s2c: `do_reconnect`, with the port drawn unless it is kept. -/
  | reconnect (draw : Option Port) (o : RotDial)
  /-- s2c: `he_finish`. -/
  | finish (useAlt : Bool)
  /-- main: the loads of `rot_main_poll`; `aged` when the wait is over. -/
  | load (aged : Bool)
  /-- main: `rot_main_poll` under the mutex. -/
  | poll (connects : Bool)
  deriving DecidableEq

/-! ### The operations -/

/-- `rot_pick`: four draws, of which it takes the first that is another port and not known
bad. -/
def rotPick (bad : List Port) (cur : Port) (draws : List Port) : Port :=
  ((draws.take 4).find? fun c => c != cur && !bad.contains c).getD cur

/-- `rot_connect` when it succeeds. -/
def Rotation.rotConnect (s : Rotation) (fd : ℕ) (port : Port) : Rotation :=
  { s with peer := Function.update s.peer fd port, remote := port, remotePort := port }

/-- `rot_keep_old` when it succeeds: a second socket, connected to the port being left. -/
def Rotation.rotKeepOld (s : Rotation) : Rotation :=
  { s with peer := Function.update s.peer s.nextSock s.remote, nextSock := s.nextSock + 1 }

/-- `rot_move` behind the connect that moved the socket `fd`. -/
def Rotation.begin (s : Rotation) (fd : ℕ) (old : Option ℕ) (port : Port) : Rotation :=
  { s.rotConnect fd port with
    rotFrom := s.remotePort
    rotTo := port
    rotRefused := false
    rotWon := false
    rotOldFd := old
    rotDual := old.isSome
    rotState := .pending
    moves := s.moves + 1 }

/-- `rot_move`. -/
def Rotation.rotMove (s : Rotation) (fd : ℕ) (soft kept : Bool) (draws : List Port)
    (connects back : Bool) : Rotation :=
  if s.remoteFd ≠ some fd ∨ s.remoteFd2.isSome then s
  else
    let port := rotPick s.rotBad s.remotePort draws
    if port = s.remotePort then s
    else
      let old := if kept then some s.nextSock else none
      let s := if kept then s.rotKeepOld else s
      if soft && !kept then s
      else if connects then s.begin fd old port
      else if back then s.rotConnect fd s.remotePort
      else s

/-- The latest move ends. -/
def Rotation.ended (s : Rotation) (how : MoveEnd) : Rotation :=
  { s with rotState := .idle, ends := s.ends ++ [(s.moves - 1, how)] }

/-- `rot_answered`. -/
def Rotation.rotAnswered (s : Rotation) : Rotation :=
  if s.rotState = .pending then
    { s.ended .confirmed with
      rotWon := true
      rotDual := false
      rotDue := false
      rotChanged := true }
  else s

/-- The loop over the segments of a merged read: the batch, up to `room` packets that are
passed on, and the rest. -/
def groTake : ℕ → List ServerPkt → List ServerPkt × List ServerPkt
  | _, [] => ([], [])
  | 0, d :: ds => ([], d :: ds)
  | room + 1, d :: ds =>
      let r := groTake (if d.forwards then room else room + 1) ds
      (d :: r.1, r.2)

/-- `do_reconnect`. -/
def Rotation.doReconnect (s : Rotation) (draw : Option Port) (o : RotDial) : Rotation :=
  let s := if s.rotState = .pending then s.ended .abandoned else s
  let port := draw.getD s.remotePort
  let s := { s with remoteFd := none, remoteFd2 := none, remotePort := port }
  match o with
  | .failed => s
  | .connected both =>
      { s with
        peer := Function.update (Function.update s.peer s.nextSock port) (s.nextSock + 1) port
        queued := Function.update (Function.update s.queued s.nextSock []) (s.nextSock + 1) []
        nextSock := s.nextSock + 2
        remote := port
        remoteFd := some s.nextSock
        remoteFd2 := if both then some (s.nextSock + 1) else none
        remoteAlt := if both then port else s.remoteAlt
        rotDue := false
        rotChanged := true }

/-- `he_finish`. -/
def Rotation.heFinish (s : Rotation) (fd2 : ℕ) (useAlt : Bool) : Rotation :=
  let s := { s with remoteFd2 := none }
  if useAlt then { s with remote := s.remoteAlt, remoteFd := some fd2 } else s

/-- What `rot_main_poll` goes on with, from what it loads; `none` when it returns. -/
def Rotation.rotPoll (s : Rotation) (aged : Bool) : Option RotPoll :=
  let refused := decide (s.rotState = .pending) && s.rotRefused
  if s.rotOldFd = none ∧ s.rotState ≠ .pending then none
  else if s.rotState = .pending ∧ !refused ∧ !aged then none
  else if s.rotState ≠ .pending ∧ !aged then none
  else some ⟨s.rotState, s.rotDual, refused⟩

/-- The remote socket, when there is one, is connected to `rot_from` again. -/
def Rotation.connectBack (s : Rotation) (connects : Bool) : Rotation :=
  match s.remoteFd with
  | some fd => if connects then s.rotConnect fd s.rotFrom else s
  | none => s

/-- `rot_main_poll` under the mutex: a move that is still pending goes back; the old port of
one that is over is let go. -/
def Rotation.rotMainPoll (s : Rotation) (q : RotPoll) (connects : Bool) : Rotation :=
  if q.st = .pending ∧ s.rotState = .pending then
    let s := { s.ended .rolledBack with rotDual := false }.connectBack connects
    { s with
      rotBad :=
        if !q.dual || q.refused then s.rotBad.set (s.rotBadI % rotBadN) s.rotTo else s.rotBad
      rotBadI := if !q.dual || q.refused then s.rotBadI + 1 else s.rotBadI
      rotDue := false
      rotFailed := true }
  else { s with rotOldFd := none, rotDual := false }

/-- A step of a thread, the kernel or the server. -/
def rotStep (s : Rotation) : RotEvent → Option Rotation
  | .due => some { s with rotDue := true }
  | .takeNews => some { s with rotChanged := false, rotFailed := false }
  | .refuse => if s.rotState = .pending then some { s with rotRefused := true } else none
  | .arrive fd d =>
      if (s.remoteFd = some fd ∨ s.remoteFd2 = some fd) ∧ d.port = s.peer fd ∧
          d.sentAfter ≤ s.moves then
        some { s with queued := Function.update s.queued fd (s.queued fd ++ [d]) }
      else none
  | .check =>
      if s.rotDue ∧ s.rotState = .idle ∧ s.rotOldFd = none then
        s.remoteFd.map fun fd => { s with checked := some fd }
      else none
  | .move soft kept draws connects back =>
      s.checked.map fun fd =>
        { s with checked := none }.rotMove fd soft kept draws connects back
  | .read gro k =>
      s.remoteFd.bind fun fd =>
        if s.hand = none ∧ 0 < k ∧ k ≤ (s.queued fd).length ∧
            (if gro then k ≤ udpGroCntMax ∧ s.pend = [] else k ≤ batchSize) then
          let ds := (s.queued fd).take k
          some { s with
            queued := Function.update s.queued fd ((s.queued fd).drop k)
            taken := s.taken ++ ds
            hand := some (if gro then (groTake batchSize ds).1 else ds)
            pend := if gro then (groTake batchSize ds).2 else s.pend }
        else none
  | .drain =>
      if s.remoteFd.isSome ∧ s.hand = none ∧ s.pend ≠ [] then
        some { s with
          hand := some (groTake batchSize s.pend).1
          pend := (groTake batchSize s.pend).2 }
      else none
  | .test =>
      s.hand.map fun ds =>
        let s := { s with hand := none }
        if ds.any (·.forwards) then s.rotAnswered else s
  | .reconnect draw o => if s.hand = none then some (s.doReconnect draw o) else none
  | .finish useAlt =>
      if s.hand = none then s.remoteFd2.map fun fd2 => s.heFinish fd2 useAlt else none
  | .load aged => some { s with polled := s.rotPoll aged }
  | .poll connects => s.polled.map fun q => { s with polled := none }.rotMainPoll q connects

/-- The three threads, the kernel and the server. -/
def rotMachine : Machine Rotation RotEvent :=
  ⟨rotStep⟩

/-! ### The endpoint -/

/-- Whenever the mutex is free, `remote_port` and the port inside `remote` are the port the
remote socket is connected to. -/
def Rotation.EndpointOk (s : Rotation) : Prop :=
  ∀ fd, s.remoteFd = some fd → s.remotePort = s.peer fd ∧ s.remote = s.peer fd

/-- The endpoint, with what keeps it so. -/
structure EndpointInv (s : Rotation) : Prop where
  ok : s.EndpointOk
  fresh : ∀ fd, s.remoteFd = some fd → fd < s.nextSock
  /-- While the probe runs there is no move, and both sockets have one port. -/
  probe : ∀ fd, s.remoteFd2 = some fd → s.rotState = .idle ∧ fd < s.nextSock ∧
    s.remoteAlt = s.remotePort ∧ s.peer fd = s.remotePort
  /-- c2s: the guards of `rot_try` still hold. -/
  checked : s.checked ≠ none → s.rotState = .idle ∧ s.rotOldFd = none

/-! ### What a step can do -/

/-- What a reconnect leaves in the record of the moves. -/
def Rotation.abandonedEnds (s : Rotation) : List (ℕ × MoveEnd) :=
  if s.rotState = .pending then s.ends ++ [(s.moves - 1, .abandoned)] else s.ends

/-- What a step does: the flags and the locals of a thread, a datagram that arrives or is
taken, or the operations above by the branches they end in. -/
inductive RotStep (s : Rotation) : RotEvent → Rotation → Prop
  /-- `rot_changed` and `rot_failed` are lowered, other flags stored, something loaded. -/
  | flags (e : RotEvent) (due changed failed refused : Bool) (checked : Option ℕ)
      (polled : Option RotPoll) (hchanged : changed = true → s.rotChanged = true)
      (hfailed : failed = true → s.rotFailed = true)
      (hchecked : checked = s.checked ∨ s.rotState = .idle ∧ s.rotOldFd = none) :
      RotStep s e { s with
        rotDue := due
        rotChanged := changed
        rotFailed := failed
        rotRefused := refused
        checked := checked
        polled := polled }
  /-- A datagram arrives. -/
  | arrive (fd : ℕ) (d : ServerPkt) (hfd : s.remoteFd = some fd ∨ s.remoteFd2 = some fd)
      (hport : d.port = s.peer fd) (hsent : d.sentAfter ≤ s.moves) :
      RotStep s (.arrive fd d)
        { s with queued := Function.update s.queued fd (s.queued fd ++ [d]) }
  /-- A batch is read; segments of a merged read may be left. -/
  | read (gro : Bool) (k fd : ℕ) (hfd : s.remoteFd = some fd) (ds rest : List ServerPkt)
      (hds : ds ++ rest = (s.queued fd).take k ∨ ds = (s.queued fd).take k ∧ rest = s.pend) :
      RotStep s (.read gro k) { s with
        queued := Function.update s.queued fd ((s.queued fd).drop k)
        taken := s.taken ++ (s.queued fd).take k
        hand := some ds
        pend := rest }
  /-- A batch of pending segments. -/
  | drain (ds rest : List ServerPkt) (hds : ds ++ rest = s.pend) :
      RotStep s .drain { s with hand := some ds, pend := rest }
  /-- `rot_move` leaves the socket where it is. -/
  | stays (e : RotEvent) (n : ℕ) (peer : ℕ → Port) (hn : s.nextSock ≤ n)
      (hpeer : ∀ i, i < s.nextSock → peer i = s.peer i) :
      RotStep s e { s with checked := none, nextSock := n, peer := peer }
  /-- The socket moves. -/
  | moves (soft kept : Bool) (draws : List Port) (back : Bool) (fd n : ℕ) (peer : ℕ → Port)
      (old : Option ℕ) (port : Port) (hchecked : s.checked ≠ none) (hfd : s.remoteFd = some fd)
      (hfd2 : s.remoteFd2 = none) (hn : s.nextSock ≤ n) (hnew : peer fd = port) :
      RotStep s (.move soft kept draws true back) { s with
        checked := none
        nextSock := n
        peer := peer
        remote := port
        remotePort := port
        rotFrom := s.remotePort
        rotTo := port
        rotRefused := false
        rotWon := false
        rotOldFd := old
        rotDual := old.isSome
        rotState := .pending
        moves := s.moves + 1 }
  /-- The batch is done, and no move is confirmed by it. -/
  | tested (ds : List ServerPkt) (hhand : s.hand = some ds) :
      RotStep s .test { s with hand := none }
  /-- The batch confirms the move. -/
  | confirmed (ds : List ServerPkt) (hhand : s.hand = some ds)
      (hany : ds.any (·.forwards) = true) (hpending : s.rotState = .pending) :
      RotStep s .test { s with
        hand := none
        rotState := .idle
        ends := s.ends ++ [(s.moves - 1, .confirmed)]
        rotWon := true
        rotDual := false
        rotDue := false
        rotChanged := true }
  /-- A reconnect fails. -/
  | lost (draw : Option Port) (o : RotDial) (port : Port) : RotStep s (.reconnect draw o) { s with
      rotState := .idle
      ends := s.abandonedEnds
      remoteFd := none
      remoteFd2 := none
      remotePort := port }
  /-- A reconnect succeeds. -/
  | reconnected (draw : Option Port) (o : RotDial) (port : Port) (both : Bool) (alt : Port)
      (halt : both = true → alt = port) (hhand : s.hand = none) :
      RotStep s (.reconnect draw o) { s with
        rotState := .idle
        ends := s.abandonedEnds
        remotePort := port
        peer := Function.update (Function.update s.peer s.nextSock port) (s.nextSock + 1) port
        queued := Function.update (Function.update s.queued s.nextSock []) (s.nextSock + 1) []
        nextSock := s.nextSock + 2
        remote := port
        remoteFd := some s.nextSock
        remoteFd2 := if both then some (s.nextSock + 1) else none
        remoteAlt := alt
        rotDue := false
        rotChanged := true }
  /-- The probe keeps the socket. -/
  | kept (useAlt : Bool) : RotStep s (.finish useAlt) { s with remoteFd2 := none }
  /-- The probe takes the other socket. -/
  | swapped (useAlt : Bool) (fd2 : ℕ) (hfd2 : s.remoteFd2 = some fd2) :
      RotStep s (.finish useAlt)
        { s with remoteFd2 := none, remote := s.remoteAlt, remoteFd := some fd2 }
  /-- The move goes back; the socket follows when there is one and it connects. -/
  | rolledBack (connects : Bool) (peer : ℕ → Port) (remote remotePort : Port)
      (bad : List Port) (badI : ℕ) (hpending : s.rotState = .pending)
      (hback : peer = s.peer ∧ remote = s.remote ∧ remotePort = s.remotePort ∧
          (connects = true → s.remoteFd = none) ∨
        ∃ fd, s.remoteFd = some fd ∧ peer fd = s.rotFrom ∧ remote = s.rotFrom ∧
          remotePort = s.rotFrom) :
      RotStep s (.poll connects) { s with
        polled := none
        rotState := .idle
        ends := s.ends ++ [(s.moves - 1, .rolledBack)]
        rotDual := false
        peer := peer
        remote := remote
        remotePort := remotePort
        rotBad := bad
        rotBadI := badI
        rotDue := false
        rotFailed := true }
  /-- The old port is let go. -/
  | released (connects : Bool) :
      RotStep s (.poll connects) { s with polled := none, rotOldFd := none, rotDual := false }

/-- The loop over a merged read loses nothing. -/
theorem groTake_append (room : ℕ) (ds : List ServerPkt) :
    (groTake room ds).1 ++ (groTake room ds).2 = ds := by
  induction ds generalizing room with
  | nil => cases room <;> rfl
  | cons d ds ih =>
      cases room with
      | zero => rfl
      | succ room => exact congrArg (d :: ·) (ih _)

/-- What `rot_move` does. -/
theorem rotStep_rotMove {s : Rotation} (h : EndpointInv s) {fd : ℕ}
    (hchecked : s.checked = some fd) (soft kept : Bool) (draws : List Port)
    (connects back : Bool) :
    RotStep s (.move soft kept draws connects back)
      ({ s with checked := none }.rotMove fd soft kept draws connects back) := by
  have hstays : RotStep s (.move soft kept draws connects back) { s with checked := none } :=
    .stays _ s.nextSock s.peer le_rfl fun _ _ => rfl
  rw [Rotation.rotMove]
  dsimp only
  split
  · exact hstays
  rename_i hfd
  push Not at hfd
  obtain ⟨hfd, hfd2⟩ := hfd
  have hfd2' : s.remoteFd2 = none := by simpa using hfd2
  obtain ⟨hport, hremote⟩ := h.ok fd hfd
  have hlt := h.fresh fd hfd
  split
  · exact hstays
  -- the socket kept on the old port leaves the others alone
  obtain ⟨n, peer, hn, hpeer, hkept⟩ : ∃ n peer, s.nextSock ≤ n ∧
      (∀ i, i < s.nextSock → peer i = s.peer i) ∧
      (if kept then { s with checked := none }.rotKeepOld else { s with checked := none }) =
        { s with checked := none, nextSock := n, peer := peer } := by
    cases kept with
    | true =>
        exact ⟨s.nextSock + 1, Function.update s.peer s.nextSock s.remote, Nat.le_succ _,
          fun i hi => Function.update_of_ne (Nat.ne_of_lt hi) .., rfl⟩
    | false => exact ⟨s.nextSock, s.peer, le_rfl, fun _ _ => rfl, rfl⟩
  rw [hkept]
  split
  · exact .stays _ n peer hn hpeer
  split
  · rename_i hc
    subst hc
    exact .moves soft kept draws back fd n _ _ _ (by rw [hchecked]; exact nofun) hfd hfd2' hn
      (Function.update_self ..)
  split
  · -- connected back to the port it has
    have hsame :
        { s with checked := none, nextSock := n, peer := peer }.rotConnect fd s.remotePort =
          { s with checked := none, nextSock := n
                   peer := Function.update peer fd s.remotePort } := by
      rw [Rotation.rotConnect, hport, ← hremote]
    rw [hsame]
    refine .stays _ n _ hn fun i hi => ?_
    by_cases hi' : i = fd
    · subst hi'
      rw [Function.update_self, hport]
    · rw [Function.update_of_ne hi', hpeer i hi]
  · exact .stays _ n peer hn hpeer

/-- What `do_reconnect` does. -/
theorem rotStep_doReconnect (s : Rotation) (hhand : s.hand = none) (draw : Option Port)
    (o : RotDial) : RotStep s (.reconnect draw o) (s.doReconnect draw o) := by
  -- a move that was pending is over
  have hover : (if s.rotState = .pending then s.ended .abandoned else s) =
      { s with rotState := .idle, ends := s.abandonedEnds } := by
    rw [Rotation.abandonedEnds]
    cases hst : s.rotState with
    | idle => rw [if_neg nofun, if_neg nofun, ← hst]
    | pending => rw [if_pos rfl, if_pos rfl, Rotation.ended]
  unfold Rotation.doReconnect
  dsimp only
  rw [hover]
  cases o with
  | failed => exact .lost draw _ _
  | connected both =>
      refine .reconnected draw _ _ both _ (fun hboth => ?_) hhand
      rw [if_pos hboth]

/-- Connecting back touches the endpoint alone. -/
theorem exists_connectBack_eq (s : Rotation) (connects : Bool) :
    ∃ peer remote remotePort,
      s.connectBack connects =
        { s with peer := peer, remote := remote, remotePort := remotePort } ∧
      (peer = s.peer ∧ remote = s.remote ∧ remotePort = s.remotePort ∧
          (connects = true → s.remoteFd = none) ∨
        ∃ fd, s.remoteFd = some fd ∧ peer fd = s.rotFrom ∧ remote = s.rotFrom ∧
          remotePort = s.rotFrom) := by
  rcases Option.eq_none_or_eq_some s.remoteFd with hfd | ⟨fd, hfd⟩
  · have heq : s.connectBack connects = s := by rw [Rotation.connectBack, hfd]
    exact ⟨s.peer, s.remote, s.remotePort, heq, Or.inl ⟨rfl, rfl, rfl, fun _ => hfd⟩⟩
  · have heq : s.connectBack connects = if connects then s.rotConnect fd s.rotFrom else s := by
      rw [Rotation.connectBack, hfd]
    cases connects with
    | true =>
        exact ⟨Function.update s.peer fd s.rotFrom, s.rotFrom, s.rotFrom, heq,
          Or.inr ⟨fd, hfd, Function.update_self .., rfl, rfl⟩⟩
    | false => exact ⟨s.peer, s.remote, s.remotePort, heq, Or.inl ⟨rfl, rfl, rfl, nofun⟩⟩

/-- What `rot_main_poll` does under the mutex. -/
theorem rotStep_rotMainPoll (s : Rotation) (q : RotPoll) (connects : Bool) :
    RotStep s (.poll connects) ({ s with polled := none }.rotMainPoll q connects) := by
  rw [Rotation.rotMainPoll]
  split
  · rename_i hback
    obtain ⟨peer, remote, remotePort, heq, hends⟩ := exists_connectBack_eq
      { { s with polled := none }.ended .rolledBack with rotDual := false } connects
    dsimp only
    rw [heq]
    exact RotStep.rolledBack (s := s) connects peer remote remotePort _ _ hback.2 hends
  · exact .released connects

/-- What a step of the machine does. -/
theorem rotStep_of_step {s s' : Rotation} {e : RotEvent} (h : EndpointInv s)
    (hs : rotStep s e = some s') : RotStep s e s' := by
  cases e with
  | due =>
      obtain rfl := Option.some.inj hs
      exact .flags _ _ s.rotChanged s.rotFailed _ _ _ id id (Or.inl rfl)
  | takeNews =>
      obtain rfl := Option.some.inj hs
      exact .flags _ s.rotDue false false s.rotRefused _ _ nofun nofun (Or.inl rfl)
  | refuse =>
      obtain ⟨-, rfl⟩ := Option.ite_some_none_eq_some.mp hs
      exact .flags _ s.rotDue s.rotChanged s.rotFailed _ _ _ id id (Or.inl rfl)
  | arrive fd d =>
      obtain ⟨⟨hfd, hport, hsent⟩, rfl⟩ := Option.ite_some_none_eq_some.mp hs
      exact .arrive fd d hfd hport hsent
  | check =>
      obtain ⟨⟨-, hidle, hold⟩, hs⟩ := Option.ite_none_right_eq_some.mp hs
      obtain ⟨fd, -, rfl⟩ := Option.map_eq_some_iff.mp hs
      exact .flags _ s.rotDue s.rotChanged s.rotFailed s.rotRefused _ s.polled id id
        (Or.inr ⟨hidle, hold⟩)
  | move soft kept draws connects back =>
      obtain ⟨fd, hchecked, rfl⟩ := Option.map_eq_some_iff.mp hs
      exact rotStep_rotMove h hchecked soft kept draws connects back
  | read gro k =>
      obtain ⟨fd, hfd, hs⟩ := Option.bind_eq_some_iff.mp hs
      obtain ⟨-, rfl⟩ := Option.ite_some_none_eq_some.mp hs
      refine .read gro k fd hfd _ _ ?_
      cases gro with
      | true => exact Or.inl (groTake_append ..)
      | false => exact Or.inr ⟨rfl, rfl⟩
  | drain =>
      obtain ⟨-, rfl⟩ := Option.ite_some_none_eq_some.mp hs
      exact .drain _ _ (groTake_append ..)
  | test =>
      obtain ⟨ds, hhand, rfl⟩ := Option.map_eq_some_iff.mp hs
      dsimp only
      split
      · rename_i hany
        rw [Rotation.rotAnswered]
        split
        · exact .confirmed ds hhand hany ‹_›
        · exact .tested ds hhand
      · exact .tested ds hhand
  | reconnect draw o =>
      obtain ⟨hhand, rfl⟩ := Option.ite_some_none_eq_some.mp hs
      exact rotStep_doReconnect s hhand draw o
  | finish useAlt =>
      obtain ⟨-, hs⟩ := Option.ite_none_right_eq_some.mp hs
      obtain ⟨fd2, hfd2, rfl⟩ := Option.map_eq_some_iff.mp hs
      cases useAlt with
      | true => exact .swapped true fd2 hfd2
      | false => exact .kept false
  | load aged =>
      obtain rfl := Option.some.inj hs
      exact .flags _ s.rotDue s.rotChanged s.rotFailed s.rotRefused _ _ id id (Or.inl rfl)
  | poll connects =>
      obtain ⟨q, -, rfl⟩ := Option.map_eq_some_iff.mp hs
      exact rotStep_rotMainPoll s q connects

/-- Every step keeps the endpoint. -/
theorem EndpointInv.step {s s' : Rotation} {e : RotEvent} (h : EndpointInv s)
    (hs : RotStep s e s') : EndpointInv s' := by
  cases hs with
  | flags _ due changed failed refused checked polled _ _ hchecked =>
      refine ⟨h.ok, h.fresh, h.probe, fun hc => ?_⟩
      rcases hchecked with hchecked | hchecked
      · exact h.checked (hchecked ▸ hc)
      · exact hchecked
  | arrive fd d => exact ⟨h.ok, h.fresh, h.probe, h.checked⟩
  | read gro k fd hfd ds rest => exact ⟨h.ok, h.fresh, h.probe, h.checked⟩
  | drain ds rest => exact ⟨h.ok, h.fresh, h.probe, h.checked⟩
  | stays _ n peer hn hpeer =>
      refine ⟨fun fd hfd => ?_, fun fd hfd => (h.fresh fd hfd).trans_le hn, fun fd hfd => ?_,
        fun hc => absurd rfl hc⟩
      · have hsame : peer fd = s.peer fd := hpeer fd (h.fresh fd hfd)
        obtain ⟨hport, hremote⟩ := h.ok fd hfd
        exact ⟨hport.trans hsame.symm, hremote.trans hsame.symm⟩
      · obtain ⟨hidle, hlt, halt, hport⟩ := h.probe fd hfd
        exact ⟨hidle, hlt.trans_le hn, halt, (hpeer fd hlt).trans hport⟩
  | moves soft kept draws back fd n peer old port hchecked hfd hfd2 hn hnew =>
      refine ⟨fun fd' hfd' => ?_, fun fd' hfd' => (h.fresh fd' hfd').trans_le hn,
        fun fd' hfd' => ?_, fun hc => absurd rfl hc⟩
      · obtain rfl := Option.some.inj (hfd.symm.trans hfd')
        exact ⟨hnew.symm, hnew.symm⟩
      · exact absurd (hfd2.symm.trans hfd') nofun
  | tested ds hhand => exact ⟨h.ok, h.fresh, h.probe, h.checked⟩
  | confirmed ds hhand hany hpending =>
      refine ⟨h.ok, h.fresh, fun fd hfd => ⟨rfl, (h.probe fd hfd).2⟩, fun hc => ?_⟩
      exact absurd (hpending.symm.trans (h.checked hc).1) nofun
  | lost draw o port =>
      exact ⟨nofun, nofun, nofun, fun hc => ⟨rfl, (h.checked hc).2⟩⟩
  | reconnected draw o port both alt halt hhand =>
      have hfirst : Function.update (Function.update s.peer s.nextSock port) (s.nextSock + 1) port
          s.nextSock = port := by
        rw [Function.update_of_ne (Nat.ne_of_lt (Nat.lt_succ_self _)), Function.update_self]
      refine ⟨fun fd hfd => ?_, fun fd hfd => ?_, fun fd hfd => ?_,
        fun hc => ⟨rfl, (h.checked hc).2⟩⟩
      · obtain rfl := Option.some.inj hfd
        exact ⟨hfirst.symm, hfirst.symm⟩
      · obtain rfl := Option.some.inj hfd
        exact Nat.lt_add_of_pos_right Nat.two_pos
      · obtain ⟨hboth, hfd⟩ := Option.ite_none_right_eq_some.mp hfd
        obtain rfl := Option.some.inj hfd
        exact ⟨rfl, Nat.lt_succ_self _, halt hboth, Function.update_self ..⟩
  | kept useAlt => exact ⟨h.ok, h.fresh, nofun, h.checked⟩
  | swapped useAlt fd2 hfd2 =>
      obtain ⟨hidle, hlt, halt, hport⟩ := h.probe fd2 hfd2
      refine ⟨fun fd hfd => ?_, fun fd hfd => ?_, nofun, h.checked⟩
      · obtain rfl := Option.some.inj hfd
        exact ⟨hport.symm, halt.trans hport.symm⟩
      · obtain rfl := Option.some.inj hfd
        exact hlt
  | rolledBack connects peer remote remotePort bad badI hpending hback =>
      refine ⟨fun fd hfd => ?_, h.fresh, fun fd hfd => ?_, fun hc => ?_⟩
      · rcases hback with ⟨rfl, rfl, rfl, -⟩ | ⟨fd', hfd', hpeer, hremote, hport⟩
        · exact h.ok fd hfd
        · obtain rfl := Option.some.inj (hfd.symm.trans hfd')
          exact ⟨hport.trans hpeer.symm, hremote.trans hpeer.symm⟩
      · exact absurd (hpending.symm.trans (h.probe fd hfd).1) nofun
      · exact absurd (hpending.symm.trans (h.checked hc).1) nofun
  | released connects => exact ⟨h.ok, h.fresh, h.probe, fun hc => ⟨(h.checked hc).1, rfl⟩⟩

/-! ### Every move ends once -/

/-- The moves that have ended are all that were begun, each once and in their order, except
the one that is pending; and that one is at its new port. -/
structure Rotation.MovesEnd (s : Rotation) : Prop where
  idle : s.rotState = .idle → s.ends.map Prod.fst = List.range s.moves
  pending : s.rotState = .pending →
    (∃ m, s.moves = m + 1 ∧ s.ends.map Prod.fst = List.range m) ∧ s.remotePort = s.rotTo

/-- What a step may do to the moves and to what the main loop is told of them. -/
structure MovesCleanly (s : Rotation) (e : RotEvent) (s' : Rotation) : Prop where
  /-- A move begins when none is pending and no old port is open, and leads to its port. -/
  begins : s'.moves ≠ s.moves → s.rotState = .idle ∧ s.rotOldFd = none ∧
    s'.moves = s.moves + 1 ∧ s'.rotFrom = s.remotePort ∧ s'.remotePort = s'.rotTo
  /-- `rot_failed` is raised by a rollback. -/
  failed : s.rotFailed = false → s'.rotFailed = true →
    s'.ends = s.ends ++ [(s.moves - 1, .rolledBack)]
  /-- `rot_changed` is raised by a confirmation, or by a reconnect that connects. -/
  changed : s.rotChanged = false → s'.rotChanged = true →
    s'.ends = s.ends ++ [(s.moves - 1, .confirmed)] ∨
      ∃ draw o, e = .reconnect draw o ∧ s'.remoteFd ≠ none
  /-- A rollback whose connect succeeds leads back. -/
  goesBack : s.remoteFd ≠ none → e = .poll true →
    s'.ends = s.ends ++ [(s.moves - 1, .rolledBack)] → s'.remotePort = s.rotFrom

/-- The moves end. -/
theorem ended_map_fst {s : Rotation} (h : s.MovesEnd) (hpending : s.rotState = .pending)
    (how : MoveEnd) : (s.ends ++ [(s.moves - 1, how)]).map Prod.fst = List.range s.moves := by
  obtain ⟨⟨m, hm, hends⟩, -⟩ := h.pending hpending
  rw [List.map_append, hends, hm, List.range_succ]
  rfl

/-- A reconnect ends the move that is pending. -/
theorem abandonedEnds_map_fst {s : Rotation} (h : s.MovesEnd) :
    s.abandonedEnds.map Prod.fst = List.range s.moves := by
  rw [Rotation.abandonedEnds]
  cases hst : s.rotState with
  | idle =>
      rw [if_neg nofun]
      exact h.idle hst
  | pending =>
      rw [if_pos rfl]
      exact ended_map_fst h hst .abandoned

/-- Every step keeps the record of the moves. -/
theorem Rotation.MovesEnd.step {s s' : Rotation} {e : RotEvent} (hi : EndpointInv s)
    (h : s.MovesEnd) (hs : RotStep s e s') : s'.MovesEnd := by
  cases hs with
  | flags => exact ⟨h.idle, h.pending⟩
  | arrive => exact ⟨h.idle, h.pending⟩
  | read => exact ⟨h.idle, h.pending⟩
  | drain => exact ⟨h.idle, h.pending⟩
  | stays => exact ⟨h.idle, h.pending⟩
  | moves soft kept draws back fd n peer old port hchecked hfd hfd2 hn hnew =>
      exact ⟨nofun, fun _ => ⟨⟨s.moves, rfl, h.idle (hi.checked hchecked).1⟩, rfl⟩⟩
  | tested => exact ⟨h.idle, h.pending⟩
  | confirmed ds hhand hany hpending =>
      exact ⟨fun _ => ended_map_fst h hpending .confirmed, nofun⟩
  | lost => exact ⟨fun _ => abandonedEnds_map_fst h, nofun⟩
  | reconnected => exact ⟨fun _ => abandonedEnds_map_fst h, nofun⟩
  | kept => exact ⟨h.idle, h.pending⟩
  | swapped => exact ⟨h.idle, h.pending⟩
  | rolledBack connects peer remote remotePort bad badI hpending hback =>
      exact ⟨fun _ => ended_map_fst h hpending .rolledBack, nofun⟩
  | released => exact ⟨h.idle, h.pending⟩

/-- A list does not grow by nothing. -/
theorem ne_append_singleton {α : Type*} (l : List α) (a : α) : l ≠ l ++ [a] := fun h => by
  simpa using congrArg List.length h

/-- A step that neither begins nor ends a move, and raises neither flag. -/
theorem MovesCleanly.plain {s s' : Rotation} {e : RotEvent} (hmoves : s'.moves = s.moves)
    (hends : s'.ends = s.ends) (hfailed : s'.rotFailed = true → s.rotFailed = true)
    (hchanged : s'.rotChanged = true → s.rotChanged = true) : MovesCleanly s e s' := by
  refine ⟨fun hne => absurd hmoves hne, fun hf hf' => ?_, fun hc hc' => ?_, fun _ _ he => ?_⟩
  · exact absurd (hf.symm.trans (hfailed hf')) nofun
  · exact absurd (hc.symm.trans (hchanged hc')) nofun
  · exact absurd (hends.symm.trans he) (ne_append_singleton _ _)

/-- A flag that a step leaves alone is not raised by it. -/
theorem not_raised {b : Bool} {P : Prop} (hlow : b = false) (hset : b = true) : P :=
  absurd (hlow.symm.trans hset) nofun

/-- A step moves cleanly. -/
theorem movesCleanly_of_rotStep {s s' : Rotation} {e : RotEvent} (hi : EndpointInv s)
    (hs : RotStep s e s') : MovesCleanly s e s' := by
  cases hs with
  | flags _ _ _ _ _ _ _ hchanged hfailed _ => exact .plain rfl rfl hfailed hchanged
  | arrive => exact .plain rfl rfl id id
  | read => exact .plain rfl rfl id id
  | drain => exact .plain rfl rfl id id
  | stays => exact .plain rfl rfl id id
  | moves soft kept draws back fd n peer old port hchecked hfd hfd2 hn hnew =>
      obtain ⟨hidle, hold⟩ := hi.checked hchecked
      exact ⟨fun _ => ⟨hidle, hold, rfl, rfl, rfl⟩, not_raised, not_raised, nofun⟩
  | tested => exact .plain rfl rfl id id
  | confirmed ds hhand hany hpending =>
      exact ⟨fun hne => absurd rfl hne, not_raised, fun _ _ => Or.inl rfl, nofun⟩
  | lost draw o port =>
      exact ⟨fun hne => absurd rfl hne, not_raised, not_raised, nofun⟩
  | reconnected draw o port both alt halt hhand =>
      exact ⟨fun hne => absurd rfl hne, not_raised, fun _ _ => Or.inr ⟨draw, o, rfl, nofun⟩, nofun⟩
  | kept => exact .plain rfl rfl id id
  | swapped => exact .plain rfl rfl id id
  | rolledBack connects peer remote remotePort bad badI hpending hback =>
      refine ⟨fun hne => absurd rfl hne, fun _ _ => rfl, not_raised, fun hfd he _ => ?_⟩
      obtain rfl := RotEvent.poll.inj he
      rcases hback with ⟨-, -, -, hnone⟩ | ⟨fd, -, -, -, hport⟩
      · exact absurd (hnone rfl) hfd
      · exact hport
  | released => exact .plain rfl rfl id id

/-- The threads as they start: the endpoint is dialled or not, no port has been moved and
nothing read. -/
structure Rotation.Started (s : Rotation) : Prop where
  endpoint : EndpointInv s
  rotState : s.rotState = .idle
  moves : s.moves = 0
  ends : s.ends = []
  hand : s.hand = none
  pend : s.pend = []

/-- The endpoint, and the record of the moves. -/
structure RotInv (s : Rotation) : Prop extends EndpointInv s where
  movesEnd : s.MovesEnd

theorem RotInv.step {s s' : Rotation} {e : RotEvent} (h : RotInv s) (hs : RotStep s e s') :
    RotInv s' :=
  ⟨h.toEndpointInv.step hs, h.movesEnd.step h.toEndpointInv hs⟩

theorem Rotation.Started.rotInv {s : Rotation} (h : s.Started) : RotInv s := by
  refine ⟨h.endpoint, fun _ => ?_, fun hp => ?_⟩
  · rw [h.ends, h.moves]
    rfl
  · exact absurd (h.rotState.symm.trans hp) nofun

/-- **Every move ends exactly once and leaves a consistent endpoint**, in every state of
every interleaving of the threads; and every step of it begins a move only after the last
one is over and its old port closed, and tells the main loop of rollbacks, confirmations and
reconnects as what they are. -/
theorem moves_end_once {s t : Rotation} {es : List RotEvent} (h0 : s.Started)
    (hrun : rotMachine.run s es = some t) :
    t.MovesEnd ∧ t.EndpointOk ∧ ∀ e t', rotStep t e = some t' → MovesCleanly t e t' := by
  have hstep : ∀ q e q', RotInv q → rotMachine.step q e = some q' → RotInv q' :=
    fun q e q' hq hs => hq.step (rotStep_of_step hq.toEndpointInv hs)
  obtain ⟨hinv, hends⟩ := Machine.run_induction hstep h0.rotInv hrun
  exact ⟨hends, hinv.ok, fun e t' hs => movesCleanly_of_rotStep hinv (rotStep_of_step hinv hs)⟩

/-- A connection to port 4500 of a server that listens on 4500 and 4501. -/
def dialled : Rotation where
  peer := fun _ => 4500
  queued := fun _ => []
  nextSock := 1
  remoteFd := some 0
  remoteFd2 := none
  remotePort := 4500
  remote := 4500
  remoteAlt := 0
  rotState := .idle
  rotOldFd := none
  rotDual := false
  rotWon := false
  rotRefused := false
  rotDue := false
  rotChanged := false
  rotFailed := false
  rotFrom := 0
  rotTo := 0
  rotBad := List.replicate rotBadN 0
  rotBadI := 0
  checked := none
  hand := none
  pend := []
  polled := none
  moves := 0
  ends := []
  taken := []

theorem started_dialled : dialled.Started := by
  refine ⟨⟨fun fd _ => ⟨rfl, rfl⟩, fun fd hfd => ?_, nofun, fun hc => absurd rfl hc⟩, rfl, rfl, rfl,
    rfl, rfl⟩
  obtain rfl := Option.some.inj hfd
  exact Nat.one_pos

/-- A move to 4501 that stays silent and goes back, and a move that is answered. -/
def rotatingEvents : List RotEvent :=
  [.due, .check, .move false true [4500, 4501] true true, .load true, .poll true,
    .load true, .poll true,
    .due, .check, .move false true [4501] true true, .arrive 0 ⟨4501, 2, true⟩, .read false 1,
    .test]

/-- The run of these events, and the record of its moves. -/
theorem moves_end_once_rotating : ∃ t, rotMachine.run dialled rotatingEvents = some t ∧
    t.ends = [(0, .rolledBack), (1, .confirmed)] ∧ t.MovesEnd ∧ t.EndpointOk ∧
    ∀ e t', rotStep t e = some t' → MovesCleanly t e t' := by
  have hend : (rotMachine.run dialled rotatingEvents).map (fun t => t.ends) =
      some [(0, .rolledBack), (1, .confirmed)] := by
    decide
  obtain ⟨t, hrun, hends⟩ := Option.map_eq_some_iff.mp hend
  exact ⟨t, hrun, hends, moves_end_once started_dialled hrun⟩

end AwgProxy
