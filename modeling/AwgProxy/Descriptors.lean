import AwgProxy.Lib.Handles
import AwgProxy.Rotation

/-!
# Descriptors

Who closes which socket. The remote end has up to three of them: `remote_fd`, `remote_fd2` while
the probe runs, and `rot_old_fd` for the port a move has left. The c2s thread opens the third
(`rot_keep_old`), the s2c thread the other two (`dial_remote`), the main loop lets the third go,
and the kernel gives a number out again as soon as it is closed. `remote_mu` is held over the
changes, not over the loads in front of them.

Every load, store and call with which these functions open, hand over and close a socket, or use
one they hold or have inside the mutex, is a step here, in any order of the threads. What a thread
has opened and not yet published, or taken out of a variable and not yet closed, it holds itself;
what the resolver, the state file and the counters open and close comes and goes beside it, and
may take any number. The calls on a number that was loaded outside of the mutex are in
`LoadedFds`, over these steps.

* `fdStep` — the steps of the threads.
* `FdInv` — what a thread may rely on where it is.
* `FdInv.step` — every step keeps it: each open descriptor has one holder.
-/

namespace AwgProxy

open Handles

/-- The threads. -/
inductive FdThread
  | c2s
  | s2c
  | main
  deriving DecidableEq

/-- Where the c2s thread is between a batch and the end of `rot_move`. -/
inductive C2sFdAt
  /-- At the top of the loop. -/
  | top
  /-- `remote_fd` is loaded. -/
  | loaded (fd : ℕ)
  /-- `rot_state` was `ROT_IDLE`. -/
  | idle (fd : ℕ)
  /-- `rot_old_fd` was `-1`. -/
  | checked (fd : ℕ) (soft : Bool)
  /-- `rot_move` has the mutex. -/
  | locked (fd : ℕ) (soft : Bool)
  /-- The socket is still the one of the endpoint, and another port is drawn. -/
  | keeping (fd : ℕ) (soft : Bool)
  /-- `rot_keep_old` has its socket. -/
  | opened (fd h : ℕ) (soft : Bool)
  /-- It cannot be bound or connected. -/
  | spoilt (fd h : ℕ) (soft : Bool)
  /-- `rot_keep_old` has returned. -/
  | kept (fd : ℕ) (old : Option ℕ) (soft : Bool)
  /-- The socket does not connect to the new port. -/
  | unmoved (fd : ℕ) (old : Option ℕ)
  /-- It is to be connected to the port it had. -/
  | reverting (fd : ℕ)
  /-- It is connected to the new port. -/
  | moved (old : Option ℕ)
  /-- `rot_old_fd` is stored. -/
  | published
  /-- The mutex is to be let go. -/
  | leaving
  /-- The thread has returned. -/
  | ended
  deriving DecidableEq

/-- The sockets of a dial: the first family, the other one when the first has no route, the
other one beside the first. -/
inductive DialFd
  | first
  | instead
  | beside (fd : ℕ)
  deriving DecidableEq

/-- Where the s2c thread is between a read, `do_reconnect` and `he_probe`. -/
inductive S2cFdAt
  /-- At the top of the loop. -/
  | top
  /-- `remote_fd` is loaded. -/
  | reading (fd : ℕ)
  /-- The batch is handed on; `rot_state` is next. -/
  | testing
  /-- A reconnect waits for the mutex. -/
  | reconnecting
  /-- `do_reconnect_locked`. -/
  | entered
  /-- The socket of `remote_fd` is closed. -/
  | closed
  /-- `remote_fd` is `-1`. -/
  | cleared
  /-- `remote_fd2` is `-1`, and its socket to be closed. -/
  | parked (old : Option ℕ)
  /-- `rot_state` is to be reset. -/
  | resetting
  /-- `dial_one`. -/
  | dialing (k : DialFd)
  /-- It has its socket. -/
  | connecting (k : DialFd) (fd : ℕ)
  /-- The socket cannot be bound or connected. -/
  | spoilt (k : DialFd) (fd : ℕ)
  /-- The sockets are there; `remote_fd2` is next. -/
  | dialled (fd : ℕ) (fd2 : Option ℕ)
  /-- `remote_fd` is next. -/
  | returned (fd : ℕ)
  /-- The mutex is to be let go. -/
  | leaving (ok : Bool)
  /-- `he_probe`. -/
  | probe
  /-- It polls both sockets. -/
  | probing (fd fd2 : ℕ)
  /-- `he_finish` waits for the mutex. -/
  | finish
  /-- It has it. -/
  | settling
  /-- `remote_fd2` is `-1`, and its socket taken. -/
  | taken (fd2 : ℕ)
  /-- A socket that has lost is to be closed. -/
  | losing (fd : Option ℕ)
  /-- The mutex is to be let go. -/
  | settled
  /-- The thread has returned. -/
  | ended
  deriving DecidableEq

/-- Where the main thread is between a wake, `rot_main_poll` and the end. -/
inductive MainFdAt
  /-- In `epoll_wait`. -/
  | waiting
  /-- `rot_old_fd` is loaded. -/
  | old (isOpen : Bool)
  /-- The move is due for a look, with the state loaded. -/
  | polled (st : RotState)
  /-- It has the mutex. -/
  | locked (st : RotState)
  /-- `rot_old_fd` is `-1`, and its socket to be drained. -/
  | taken (old : Option ℕ)
  /-- It is drained. -/
  | drained (old : ℕ)
  /-- The move goes back. -/
  | back
  /-- The mutex is to be let go. -/
  | leaving
  /-- The events of the wake. -/
  | events
  /-- `rot_drain_old`. -/
  | draining (fd : ℕ)
  /-- The threads are to be joined. -/
  | joining
  /-- They have returned; these are to be closed. -/
  | closing (fds : List ℕ)
  deriving DecidableEq

/-- `proxy_t` as far as the sockets go, and the threads. -/
structure Descriptors where
  /-- The descriptors of the process. -/
  fds : Handles ℕ
  /-- Those of the standard streams, and of the files and sockets that the resolver, the state
  file and the counters open for themselves. -/
  files : Multiset ℕ
  /-- `main_epfd`. -/
  epfd : ℕ
  /-- `listen_fd`, `signal_fd`, `timer_fd` and `he_evfd`, as far as they are there. -/
  fixed : List ℕ
  /-- `remote_fd`; `none` for `-1`. -/
  remoteFd : Option ℕ
  /-- `remote_fd2`. -/
  remoteFd2 : Option ℕ
  /-- `rot_old_fd`. -/
  rotOldFd : Option ℕ
  /-- `rot_state`. -/
  rotState : RotState
  /-- `remote_mu`. -/
  remoteMu : Option FdThread
  /-- `stopped`. -/
  stopped : Bool
  c2s : C2sFdAt
  s2c : S2cFdAt
  main : MainFdAt

/-- A step: of a thread, with the answer of its call or the turn it takes where what it looks at
is not modelled, and with the number of the socket if it opens one; or of the files. -/
inductive FdEvent
  | c2s (ok : Bool) (fd : ℕ)
  | s2c (ok : Bool) (fd : ℕ)
  | main (ok : Bool)
  | openFile (fd : ℕ)
  | closeFile (fd : ℕ)
  deriving DecidableEq

/-! ### The threads -/

namespace Descriptors

variable (s : Descriptors)

/-- A call on an open descriptor. -/
def use (fd : ℕ) : Descriptors := { s with fds := s.fds.use fd }

/-- `close`. -/
def close (fd : ℕ) : Descriptors := { s with fds := s.fds.release fd }

/-- `close` of a descriptor unless it is `-1`. -/
def closeAny (fd : Option ℕ) : Descriptors := { s with fds := s.fds.releaseAny fd }

/-- `socket`, with the number the kernel gives. -/
def socket (fd : ℕ) : Option Descriptors :=
  (s.fds.acquire fd).map fun t => { s with fds := t }

/-- The mutex, for a thread that waits for it or tries it once. -/
def lock (k : FdThread) : Option Descriptors :=
  if s.remoteMu = none then some { s with remoteMu := some k } else none

/-- The mutex is let go. -/
def unlock : Descriptors := { s with remoteMu := none }

/-- The c2s thread: `remote_fd` for the batch, the guards of `rot_try` and `rot_move`. -/
def c2sStep (ok : Bool) (n : ℕ) : Option Descriptors :=
  let goto (s : Descriptors) (a : C2sFdAt) : Descriptors := { s with c2s := a }
  match s.c2s with
  | .top =>
      -- the look at `stopped` may be older than the batch
      if ok then some (goto s (s.remoteFd.elim .top .loaded))
      else if s.stopped then some (goto s .ended) else none
  | .loaded fd => some (goto s (if s.rotState = .idle ∧ ok = true then .idle fd else .top))
  | .idle fd => some (goto s (if s.rotOldFd = none then .checked fd ok else .top))
  | .checked fd soft =>
      some (if ok then ((s.lock .c2s).map (goto · (.locked fd soft))).getD (goto s .top)
        else goto s .top)
  | .locked fd soft =>
      some (goto s (if s.remoteFd = some fd ∧ s.remoteFd2 = none ∧ ok = true then .keeping fd soft
        else .leaving))
  | .keeping fd soft =>
      if ok then ((s.use fd).socket n).map (goto · (.opened fd n soft))
      else some (goto (s.use fd) (.kept fd none soft))
  | .opened fd h soft =>
      some (goto (s.use h) (if ok then .kept fd (some h) soft else .spoilt fd h soft))
  | .spoilt fd h soft => some (goto (s.close h) (.kept fd none soft))
  | .kept fd old soft =>
      if soft = true ∧ old = none then some (goto s .leaving)
      else some (goto (s.use fd) (if ok then .moved old else .unmoved fd old))
  | .unmoved fd old => some (goto (s.closeAny old) (.reverting fd))
  | .reverting fd => some (goto (s.use fd) .leaving)
  | .moved old => some (goto { s with rotOldFd := old } .published)
  | .published => some (goto { s with rotState := .pending } .leaving)
  | .leaving => some (goto s.unlock .top)
  | .ended => none

/-- Where `dial_remote` goes on when `dial_one` has no socket. -/
def afterFailed : DialFd → S2cFdAt
  | .first => .dialing .instead
  | .instead => .leaving false
  | .beside fd => .dialled fd none

/-- And when it has one. -/
def afterDialled (fd : ℕ) : DialFd → S2cFdAt
  | .first => .dialing (.beside fd)
  | .instead => .dialled fd none
  | .beside fd' => .dialled fd' (some fd)

/-- The s2c thread: a read, or `do_reconnect`, and `he_probe`. An address family the name has no
record of is a `dial_one` that fails. -/
def s2cStep (ok : Bool) (n : ℕ) : Option Descriptors :=
  let goto (s : Descriptors) (a : S2cFdAt) : Descriptors := { s with s2c := a }
  match s.s2c with
  | .top =>
      if ok then some (goto s (s.remoteFd.elim .reconnecting .reading))
      else if s.stopped then some (goto s .ended) else none
  | .reading fd => some (if ok then goto (s.use fd) .testing else goto s .reconnecting)
  | .testing =>
      -- `rot_answered`
      some (goto (if ok = true ∧ s.rotState = .pending then { s with rotState := .idle } else s)
        .top)
  | .reconnecting =>
      if ok then (s.lock .s2c).map (goto · .entered)
      else if s.stopped then some (goto s .ended) else none
  | .entered =>
      some (match s.remoteFd with
        | some fd => goto (s.close fd) .closed
        | none => goto s .cleared)
  | .closed => some (goto { s with remoteFd := none } .cleared)
  | .cleared => some (goto { s with remoteFd2 := none } (.parked s.remoteFd2))
  | .parked old => some (goto (s.closeAny old) .resetting)
  | .resetting =>
      some (goto { s with rotState := .idle } (if ok then .dialing .first else .leaving false))
  | .dialing k =>
      if ok then (s.socket n).map (goto · (.connecting k n))
      else some (goto s (afterFailed k))
  | .connecting k fd =>
      some (goto (s.use fd) (if ok then afterDialled fd k else .spoilt k fd))
  | .spoilt k fd => some (goto (s.close fd) (afterFailed k))
  | .dialled fd fd2 => some (goto { s with remoteFd2 := fd2 } (.returned fd))
  | .returned fd => some (goto { s with remoteFd := some fd } (.leaving true))
  | .leaving done => some (goto s.unlock (if done then .probe else .top))
  | .probe =>
      -- nobody else stores the two, so they are loaded together
      some (goto s (match s.remoteFd, s.remoteFd2 with
        | some fd, some fd2 => .probing fd fd2
        | _, _ => .top))
  | .probing fd fd2 => some (goto ((s.use fd).use fd2) (if ok then .probing fd fd2 else .finish))
  | .finish => (s.lock .s2c).map (goto · .settling)
  | .settling =>
      some (match s.remoteFd2 with
        | some fd2 => goto { s with remoteFd2 := none } (.taken fd2)
        | none => goto s .settled)
  | .taken fd2 =>
      some (if ok then goto { s with remoteFd := some fd2 } (.losing s.remoteFd)
        else goto s (.losing (some fd2)))
  | .losing fd => some (goto (s.closeAny fd) .settled)
  | .settled => some (goto s.unlock .top)
  | .ended => none

/-- The main thread: a wake, and the end. -/
def mainStep (ok : Bool) : Option Descriptors :=
  let goto (s : Descriptors) (a : MainFdAt) : Descriptors := { s with main := a }
  match s.main with
  | .waiting =>
      some (if ok then goto s (.old s.rotOldFd.isSome)
        else goto { s with stopped := true } .joining)
  | .old isOpen =>
      some (goto s (if (isOpen = true ∨ s.rotState = .pending) ∧ ok = true then .polled s.rotState
        else .events))
  | .polled st => some (((s.lock .main).map (goto · (.locked st))).getD (goto s .events))
  | .locked st =>
      some (if st = .pending ∧ s.rotState = .pending then goto { s with rotState := .idle } .back
        else goto { s with rotOldFd := none } (.taken s.rotOldFd))
  | .taken old =>
      some (match old with
        | some fd => goto (s.use fd) (.drained fd)
        | none => goto s .leaving)
  | .drained old => some (goto (s.close old) .leaving)
  | .back =>
      some (match s.remoteFd with
        | some fd => goto (s.use fd) .leaving
        | none => goto s .leaving)
  | .leaving => some (goto s.unlock .events)
  | .events => some (goto s (if ok then s.rotOldFd.elim .waiting .draining else .waiting))
  | .draining fd => some (goto (s.use fd) .events)
  | .joining =>
      -- behind the joins nobody else stores the variables, so they are loaded together
      if s.c2s = .ended ∧ s.s2c = .ended then
        some (goto { s with rotOldFd := none } (.closing (s.rotOldFd.toList ++ s.epfd ::
          (s.remoteFd.toList ++ s.remoteFd2.toList ++ s.fixed))))
      else none
  | .closing (fd :: fds) => some (goto (s.close fd) (.closing fds))
  | .closing [] => none

end Descriptors

/-- A step. -/
def fdStep (s : Descriptors) : FdEvent → Option Descriptors
  | .c2s ok fd => s.c2sStep ok fd
  | .s2c ok fd => s.s2cStep ok fd
  | .main ok => s.mainStep ok
  | .openFile fd => (s.socket fd).map fun s => { s with files := {fd} + s.files }
  | .closeFile fd =>
      if fd ∈ s.files then some { s.close fd with files := s.files.erase fd } else none

/-! ### Who holds what -/

/-- The thread has the mutex. -/
def C2sFdAt.holds : C2sFdAt → Bool
  | .top | .loaded _ | .idle _ | .checked _ _ | .ended => false
  | _ => true

/-- From the look at `rot_old_fd` to the store. -/
def C2sFdAt.moves : C2sFdAt → Bool
  | .top | .loaded _ | .idle _ | .published | .leaving | .ended => false
  | _ => true

/-- The socket `rot_move` moves, once it has compared it. -/
def C2sFdAt.moving? : C2sFdAt → Option ℕ
  | .keeping fd _ | .opened fd _ _ | .spoilt fd _ _ | .kept fd _ _ | .unmoved fd _
  | .reverting fd => some fd
  | _ => none

/-- The socket it has opened and not yet published. -/
def C2sFdAt.own? : C2sFdAt → Option ℕ
  | .opened _ h _ | .spoilt _ h _ => some h
  | .kept _ old _ | .unmoved _ old | .moved old => old
  | _ => none

/-- What a dial has beside the socket it is at. -/
def DialFd.own? : DialFd → Option ℕ
  | .beside fd => some fd
  | _ => none

/-- The thread has the mutex. -/
def S2cFdAt.holds : S2cFdAt → Bool
  | .top | .reading _ | .testing | .reconnecting | .probe | .probing _ _ | .finish
  | .ended => false
  | _ => true

/-- What `remote_fd` holds: nothing, when its socket is closed and the number still there. -/
def S2cFdAt.remote (fd : Option ℕ) : S2cFdAt → Multiset ℕ
  | .closed => 0
  | _ => holding fd

/-- What it has taken out of the variables or not yet stored. -/
def S2cFdAt.own : S2cFdAt → Multiset ℕ
  | .parked old => holding old
  | .dialing k => holding k.own?
  | .connecting k fd | .spoilt k fd => holding k.own? + {fd}
  | .dialled fd fd2 => {fd} + holding fd2
  | .returned fd | .taken fd => {fd}
  | .losing fd => holding fd
  | _ => 0

/-- What the thread, which is the only one to store them, knows of `remote_fd` and
`remote_fd2`. -/
def S2cFdAt.Knows (fd fd2 : Option ℕ) : S2cFdAt → Prop
  | .reading a => fd = some a
  | .cleared | .returned _ => fd = none
  | .parked _ | .resetting | .dialing _ | .connecting _ _ | .spoilt _ _ | .dialled _ _ =>
      fd = none ∧ fd2 = none
  | .probing a b => fd = some a ∧ fd2 = some b
  | .taken _ | .losing _ => fd2 = none
  | _ => True

/-- The thread has the mutex. -/
def MainFdAt.holds : MainFdAt → Bool
  | .locked _ | .taken _ | .drained _ | .back | .leaving => true
  | _ => false

/-- The old port's socket once it is taken out of `rot_old_fd`. -/
def MainFdAt.own? : MainFdAt → Option ℕ
  | .taken fd => fd
  | .drained fd => some fd
  | _ => none

/-- What the thread, which is the only one to take it out, knows of `rot_old_fd`. -/
def MainFdAt.Knows (old : Option ℕ) : MainFdAt → Prop
  | .draining fd => old = some fd
  | .taken _ | .drained _ | .closing _ => old = none
  | _ => True

/-- What is left to be closed at the end. -/
def MainFdAt.left? : MainFdAt → Option (List ℕ)
  | .closing fds => some fds
  | _ => none

namespace Descriptors

variable (s : Descriptors)

/-- What `remote_fd` and `remote_fd2` hold, and the s2c thread beside them. -/
def endpointFds : Multiset ℕ :=
  s.s2c.remote s.remoteFd + holding s.remoteFd2 + s.s2c.own

/-- What `rot_old_fd` holds, or the thread that opens or lets go the old port's socket. -/
def oldPortFds : Multiset ℕ :=
  holding s.rotOldFd + holding s.c2s.own? + holding s.main.own?

/-- The remote sockets. -/
def sockets : Multiset ℕ := s.endpointFds + s.oldPortFds

/-- Everything that is held. -/
def held : Multiset ℕ :=
  s.files + s.main.left?.elim (s.sockets + {s.epfd} + s.fixed) (↑)

end Descriptors

/-- The thread has the mutex. -/
def Descriptors.holds (s : Descriptors) : FdThread → Bool
  | .c2s => s.c2s.holds
  | .s2c => s.s2c.holds
  | .main => s.main.holds

/-- What holds between two steps. -/
structure FdInv (s : Descriptors) : Prop where
  /-- Every open descriptor has one holder. -/
  balanced : s.fds.Balanced s.held
  /-- The mutex is with the thread that is inside. -/
  mu : ∀ k, s.remoteMu = some k ↔ s.holds k = true
  /-- Nobody else fills `rot_old_fd`. -/
  moves : s.c2s.moves = true → s.rotOldFd = none
  /-- The mutex keeps the endpoint. -/
  moving : ∀ fd, s.c2s.moving? = some fd → s.remoteFd = some fd
  knows_s2c : s.s2c.Knows s.remoteFd s.remoteFd2
  knows_main : s.main.Knows s.rotOldFd
  /-- The main thread closes what is left behind the joins. -/
  joined : s.main.left? ≠ none → s.c2s = .ended ∧ s.s2c = .ended

/-! ### The mutex -/

/-- What a step of the thread `k` does to the mutex, and whether the thread is inside before and
after it. -/
inductive TurnsMutex (k : FdThread) : Option FdThread → Option FdThread → Bool → Bool → Prop
  | keeps (m : Option FdThread) (b : Bool) : TurnsMutex k m m b b
  | takes : TurnsMutex k none (some k) false true
  | drops (m : Option FdThread) : TurnsMutex k m none true false

/-- The mutex stays with the thread that is inside. -/
theorem TurnsMutex.mu {k : FdThread} {m m' : Option FdThread} {holds holds' : FdThread → Bool}
    (hmu : ∀ j, m = some j ↔ holds j = true) (h : TurnsMutex k m m' (holds k) (holds' k))
    (hother : ∀ j, j ≠ k → holds' j = holds j) (j : FdThread) :
    m' = some j ↔ holds' j = true := by
  generalize hb : holds k = b at h
  generalize hb' : holds' k = b' at h
  by_cases hj : j = k
  · subst hj
    cases h with
    | keeps => rw [hmu, hb, hb']
    | takes => exact iff_of_true rfl hb'
    | drops => exact iff_of_false (by simp) (by simp [hb'])
  · rw [hother j hj, ← hmu]
    cases h with
    | keeps => rfl
    | takes => simp [Ne.symm hj]
    | drops =>
        have hk := (hmu k).mpr hb
        simp [hk, Ne.symm hj]

namespace FdInv

variable {s : Descriptors}

/-- The mutex has one holder. -/
theorem holds_eq_false (h : FdInv s) {j k : FdThread} (hj : s.holds j = true) (hk : k ≠ j) :
    s.holds k = false := by
  have hmu := (h.mu j).mpr hj
  refine Bool.eq_false_iff.mpr fun hs => hk ?_
  rw [(h.mu k).mpr hs] at hmu
  exact Option.some.inj hmu

theorem left_of_c2s (h : FdInv s) (hlive : s.c2s ≠ .ended) : s.main.left? = none := by
  by_contra hleft
  exact hlive (h.joined hleft).1

theorem left_of_s2c (h : FdInv s) (hlive : s.s2c ≠ .ended) : s.main.left? = none := by
  by_contra hleft
  exact hlive (h.joined hleft).2

end FdInv

/-! ### The ledger, thread by thread -/

namespace Descriptors

theorem lock_eq_some {s s' : Descriptors} {k : FdThread} :
    s.lock k = some s' ↔ s.remoteMu = none ∧ { s with remoteMu := some k } = s' :=
  Option.ite_some_none_eq_some

theorem socket_eq_some {s s' : Descriptors} {fd : ℕ} :
    s.socket fd = some s' ↔ ∃ t, s.fds.acquire fd = some t ∧ { s with fds := t } = s' :=
  Option.map_eq_some_iff

/-- What the c2s thread does not touch. -/
def besideC2s (s : Descriptors) : Multiset ℕ :=
  s.files + (s.endpointFds + holding s.main.own? + {s.epfd} + s.fixed)

/-- What the s2c thread does not touch. -/
def besideS2c (s : Descriptors) : Multiset ℕ :=
  s.files + (s.oldPortFds + {s.epfd} + s.fixed)

/-- What the main thread does not touch before the end. -/
def besideMain (s : Descriptors) : Multiset ℕ :=
  s.files + (s.endpointFds + holding s.c2s.own? + {s.epfd} + s.fixed)

/-- While the s2c thread is outside of the mutex the socket of `remote_fd` is open. -/
theorem mem_endpointFds {s : Descriptors} {fd : ℕ} (hout : s.s2c.holds = false)
    (hfd : s.remoteFd = some fd) : fd ∈ s.endpointFds := by
  have hopen : fd ∈ s.s2c.remote s.remoteFd := by
    rw [hfd]
    cases hs2c : s.s2c <;>
      first | exact Multiset.mem_singleton_self fd | simp [hs2c, S2cFdAt.holds] at hout
  simp [endpointFds, hopen]

variable {s : Descriptors} (h : s.main.left? = none)

include h

theorem held_eq_c2s : s.held = holding s.c2s.own? + holding s.rotOldFd + s.besideC2s := by
  rw [held, h, Option.elim_none, sockets, oldPortFds, besideC2s]
  abel

theorem held_eq_s2c : s.held = s.endpointFds + s.besideS2c := by
  rw [held, h, Option.elim_none, sockets, besideS2c]
  abel

theorem held_eq_main : s.held = holding s.main.own? + holding s.rotOldFd + s.besideMain := by
  rw [held, h, Option.elim_none, sockets, oldPortFds, besideMain]
  abel

end Descriptors

/-! ### The c2s thread -/

section

variable {s s' : Descriptors} {a a' : C2sFdAt} {f : Handles ℕ} {o : Option ℕ}
  {m : Option FdThread} {r : RotState} {ok : Bool} {n : ℕ}

/-- The ledger as the c2s thread sees it. -/
theorem FdInv.balanced_c2s (h : FdInv s) (hpc : s.c2s = a) (hlive : a ≠ .ended) :
    s.fds.Balanced (holding a.own? + holding s.rotOldFd + s.besideC2s) :=
  h.balanced.of_eq (hpc ▸ Descriptors.held_eq_c2s (h.left_of_c2s (hpc ▸ hlive)))

/-- What a step of the c2s thread has to keep. -/
theorem FdInv.c2s_step (h : FdInv s) (hpc : s.c2s = a) (hlive : a ≠ .ended)
    (hf : f.Balanced (holding a'.own? + holding o + s.besideC2s))
    (hm : TurnsMutex .c2s s.remoteMu m a.holds a'.holds)
    (ho : o = s.rotOldFd ∨ a.moves = true ∧ a.holds = true)
    (hmoves : a'.moves = true → o = none)
    (hmoving : ∀ fd, a'.moving? = some fd → s.remoteFd = some fd) :
    FdInv { s with c2s := a', fds := f, rotOldFd := o, remoteMu := m, rotState := r } := by
  subst hpc
  have hleft := h.left_of_c2s hlive
  have hheld := Descriptors.held_eq_c2s (s := { s with
    c2s := a', fds := f, rotOldFd := o, remoteMu := m, rotState := r }) hleft
  refine ⟨hf.of_eq hheld.symm, ?_, hmoves, hmoving, h.knows_s2c, ?_,
    fun hne => absurd hleft hne⟩
  · refine TurnsMutex.mu h.mu hm fun j hj => ?_
    cases j with
    | c2s => exact absurd rfl hj
    | s2c => rfl
    | main => rfl
  · obtain rfl | ⟨hmv, hhold⟩ := ho
    · exact h.knows_main
    -- the port kept is stored: the main thread is neither draining nor closing one
    have hnone := h.moves hmv
    have hout : s.main.holds = false := h.holds_eq_false (j := .c2s) (k := .main) hhold (by decide)
    have hknows := h.knows_main
    rw [hnone] at hknows
    cases hmain : s.main <;> simp_all [MainFdAt.Knows, MainFdAt.holds, MainFdAt.left?]

/-- The variables stay, and the mutex. -/
theorem FdInv.c2s_goes (h : FdInv s) (hpc : s.c2s = a) (hlive : a ≠ .ended)
    (hf : f.Balanced (holding a'.own? + holding s.rotOldFd + s.besideC2s))
    (hholds : a'.holds = a.holds) (hmoves : a'.moves = true → s.rotOldFd = none)
    (hmoving : ∀ fd, a'.moving? = some fd → s.remoteFd = some fd) :
    FdInv { s with c2s := a', fds := f } :=
  h.c2s_step hpc hlive hf (hholds ▸ .keeps _ _) (.inl rfl) hmoves hmoving

/-- The socket that is moved is open: only the s2c thread closes it, inside the mutex. -/
theorem FdInv.mem_of_moving (h : FdInv s) (hpc : s.c2s = a) (hholds : a.holds = true) {fd : ℕ}
    (hfd : a.moving? = some fd) : fd ∈ s.besideC2s := by
  subst hpc
  have hout := h.holds_eq_false (j := .c2s) (k := .s2c) hholds (by decide)
  have hopen := Descriptors.mem_endpointFds hout (h.moving fd hfd)
  simp [Descriptors.besideC2s, hopen]

/-- Every step of the c2s thread keeps it. -/
theorem FdInv.c2sStep (h : FdInv s) (hs : s.c2sStep ok n = some s') : FdInv s' := by
  cases hpc : s.c2s with
  | ended =>
      rw [Descriptors.c2sStep, hpc] at hs
      cases hs
  | top =>
      have hb := h.balanced_c2s hpc (by simp)
      simp only [Descriptors.c2sStep, hpc] at hs
      split_ifs at hs
      · obtain rfl := Option.some.inj hs
        refine h.c2s_goes hpc (by simp) ?_ ?_ ?_ ?_ <;> cases s.remoteFd
        · exact hb
        · exact hb
        all_goals simp [C2sFdAt.holds, C2sFdAt.moves, C2sFdAt.moving?]
      · obtain rfl := Option.some.inj hs
        exact h.c2s_goes hpc (by simp) hb rfl (by simp [C2sFdAt.moves])
          (by simp [C2sFdAt.moving?])
  | loaded fd =>
      have hb := h.balanced_c2s hpc (by simp)
      simp only [Descriptors.c2sStep, hpc] at hs
      obtain rfl := Option.some.inj hs
      split_ifs
      · exact h.c2s_goes hpc (by simp) hb rfl (by simp [C2sFdAt.moves])
          (by simp [C2sFdAt.moving?])
      · exact h.c2s_goes hpc (by simp) hb rfl (by simp [C2sFdAt.moves])
          (by simp [C2sFdAt.moving?])
  | idle fd =>
      have hb := h.balanced_c2s hpc (by simp)
      simp only [Descriptors.c2sStep, hpc] at hs
      obtain rfl := Option.some.inj hs
      split_ifs with hold
      · exact h.c2s_goes hpc (by simp) hb rfl (fun _ => hold) (by simp [C2sFdAt.moving?])
      · exact h.c2s_goes hpc (by simp) hb rfl (by simp [C2sFdAt.moves])
          (by simp [C2sFdAt.moving?])
  | checked fd soft =>
      have hb := h.balanced_c2s hpc (by simp)
      have hnone : s.rotOldFd = none := h.moves (by simp [hpc, C2sFdAt.moves])
      simp only [Descriptors.c2sStep, hpc, Descriptors.lock] at hs
      obtain rfl := Option.some.inj hs
      split_ifs with hok hmu
      · exact h.c2s_step hpc (by simp) hb (hmu ▸ .takes) (.inl rfl) (fun _ => hnone)
          (by simp [C2sFdAt.moving?])
      · exact h.c2s_goes hpc (by simp) hb rfl (by simp [C2sFdAt.moves])
          (by simp [C2sFdAt.moving?])
      · exact h.c2s_goes hpc (by simp) hb rfl (by simp [C2sFdAt.moves])
          (by simp [C2sFdAt.moving?])
  | locked fd soft =>
      have hb := h.balanced_c2s hpc (by simp)
      have hnone : s.rotOldFd = none := h.moves (by simp [hpc, C2sFdAt.moves])
      simp only [Descriptors.c2sStep, hpc] at hs
      obtain rfl := Option.some.inj hs
      split_ifs with hend
      · exact h.c2s_goes hpc (by simp) hb rfl (fun _ => hnone)
          (by simpa [C2sFdAt.moving?] using hend.1)
      · exact h.c2s_goes hpc (by simp) hb rfl (by simp [C2sFdAt.moves])
          (by simp [C2sFdAt.moving?])
  | keeping fd soft =>
      have hb := h.balanced_c2s hpc (by simp)
      have hnone : s.rotOldFd = none := h.moves (by simp [hpc, C2sFdAt.moves])
      have hremote : s.remoteFd = some fd := h.moving fd (by simp [hpc, C2sFdAt.moving?])
      have hused := hb.use (Multiset.mem_add.mpr (.inr (h.mem_of_moving hpc rfl rfl)))
      simp only [Descriptors.c2sStep, hpc] at hs
      split_ifs at hs
      · obtain ⟨u, hu, rfl⟩ := Option.map_eq_some_iff.mp hs
        obtain ⟨t, ht, rfl⟩ := Descriptors.socket_eq_some.mp hu
        refine h.c2s_goes hpc (by simp) ((hused.acquire ht).of_eq ?_) rfl (fun _ => hnone)
          (by simpa [C2sFdAt.moving?] using hremote)
        simp [C2sFdAt.own?, hnone]
      · obtain rfl := Option.some.inj hs
        exact h.c2s_goes hpc (by simp) hused rfl (fun _ => hnone)
          (by simpa [C2sFdAt.moving?] using hremote)
  | opened fd k soft =>
      have hb := h.balanced_c2s hpc (by simp)
      have hnone : s.rotOldFd = none := h.moves (by simp [hpc, C2sFdAt.moves])
      have hremote : s.remoteFd = some fd := h.moving fd (by simp [hpc, C2sFdAt.moving?])
      have hused := hb.use (x := k) (by simp [C2sFdAt.own?])
      simp only [Descriptors.c2sStep, hpc, Descriptors.use] at hs
      obtain rfl := Option.some.inj hs
      split_ifs
      · exact h.c2s_goes hpc (by simp) hused rfl (fun _ => hnone)
          (by simpa [C2sFdAt.moving?] using hremote)
      · exact h.c2s_goes hpc (by simp) hused rfl (fun _ => hnone)
          (by simpa [C2sFdAt.moving?] using hremote)
  | spoilt fd k soft =>
      have hb := h.balanced_c2s hpc (by simp)
      have hnone : s.rotOldFd = none := h.moves (by simp [hpc, C2sFdAt.moves])
      have hremote : s.remoteFd = some fd := h.moving fd (by simp [hpc, C2sFdAt.moving?])
      simp only [Descriptors.c2sStep, hpc] at hs
      obtain rfl := Option.some.inj hs
      refine h.c2s_goes hpc (by simp) (hb.of_eq ?_).release rfl (fun _ => hnone)
        (by simpa [C2sFdAt.moving?] using hremote)
      simp [C2sFdAt.own?, hnone]
  | kept fd old soft =>
      have hb := h.balanced_c2s hpc (by simp)
      have hnone : s.rotOldFd = none := h.moves (by simp [hpc, C2sFdAt.moves])
      have hremote : s.remoteFd = some fd := h.moving fd (by simp [hpc, C2sFdAt.moving?])
      have hused := hb.use (Multiset.mem_add.mpr (.inr (h.mem_of_moving hpc rfl rfl)))
      simp only [Descriptors.c2sStep, hpc, Descriptors.use] at hs
      split_ifs at hs with hsoft hok
      · obtain rfl := Option.some.inj hs
        obtain ⟨-, rfl⟩ := hsoft
        exact h.c2s_goes hpc (by simp) hb rfl (by simp [C2sFdAt.moves])
          (by simp [C2sFdAt.moving?])
      · obtain rfl := Option.some.inj hs
        exact h.c2s_goes hpc (by simp) hused rfl (fun _ => hnone) (by simp [C2sFdAt.moving?])
      · obtain rfl := Option.some.inj hs
        exact h.c2s_goes hpc (by simp) hused rfl (fun _ => hnone)
          (by simpa [C2sFdAt.moving?] using hremote)
  | unmoved fd old =>
      have hb := h.balanced_c2s hpc (by simp)
      have hnone : s.rotOldFd = none := h.moves (by simp [hpc, C2sFdAt.moves])
      have hremote : s.remoteFd = some fd := h.moving fd (by simp [hpc, C2sFdAt.moving?])
      simp only [Descriptors.c2sStep, hpc] at hs
      obtain rfl := Option.some.inj hs
      refine h.c2s_goes hpc (by simp) (hb.of_eq ?_).releaseAny rfl (fun _ => hnone)
        (by simpa [C2sFdAt.moving?] using hremote)
      simp [C2sFdAt.own?, hnone]
  | reverting fd =>
      have hb := h.balanced_c2s hpc (by simp)
      have hused := hb.use (Multiset.mem_add.mpr (.inr (h.mem_of_moving hpc rfl rfl)))
      simp only [Descriptors.c2sStep, hpc] at hs
      obtain rfl := Option.some.inj hs
      exact h.c2s_goes hpc (by simp) hused rfl (by simp [C2sFdAt.moves])
        (by simp [C2sFdAt.moving?])
  | moved old =>
      have hb := h.balanced_c2s hpc (by simp)
      have hnone : s.rotOldFd = none := h.moves (by simp [hpc, C2sFdAt.moves])
      simp only [Descriptors.c2sStep, hpc] at hs
      obtain rfl := Option.some.inj hs
      refine h.c2s_step hpc (by simp) (hb.of_eq ?_) (.keeps _ _) (.inr ⟨rfl, rfl⟩)
        (by simp [C2sFdAt.moves]) (by simp [C2sFdAt.moving?])
      simp [C2sFdAt.own?, hnone]
  | published =>
      have hb := h.balanced_c2s hpc (by simp)
      simp only [Descriptors.c2sStep, hpc] at hs
      obtain rfl := Option.some.inj hs
      exact h.c2s_step hpc (by simp) hb (.keeps _ _) (.inl rfl) (by simp [C2sFdAt.moves])
        (by simp [C2sFdAt.moving?])
  | leaving =>
      have hb := h.balanced_c2s hpc (by simp)
      simp only [Descriptors.c2sStep, hpc] at hs
      obtain rfl := Option.some.inj hs
      exact h.c2s_step hpc (by simp) hb (.drops _) (.inl rfl) (by simp [C2sFdAt.moves])
        (by simp [C2sFdAt.moving?])

end

/-! ### The s2c thread -/

section

variable {s s' : Descriptors} {a a' : S2cFdAt} {f : Handles ℕ} {fd fd2 : Option ℕ}
  {m : Option FdThread} {r : RotState} {ok : Bool} {n : ℕ}

theorem C2sFdAt.holds_of_moving {b : C2sFdAt} {x : ℕ} (h : b.moving? = some x) :
    b.holds = true := by
  cases b <;> first | rfl | cases h

/-- The ledger as the s2c thread sees it. -/
theorem FdInv.balanced_s2c (h : FdInv s) (hpc : s.s2c = a) (hlive : a ≠ .ended) :
    s.fds.Balanced (a.remote s.remoteFd + holding s.remoteFd2 + a.own + s.besideS2c) :=
  h.balanced.of_eq (hpc ▸ Descriptors.held_eq_s2c (h.left_of_s2c (hpc ▸ hlive)))

/-- What a step of the s2c thread has to keep. -/
theorem FdInv.s2c_step (h : FdInv s) (hpc : s.s2c = a) (hlive : a ≠ .ended)
    (hf : f.Balanced (a'.remote fd + holding fd2 + a'.own + s.besideS2c))
    (hm : TurnsMutex .s2c s.remoteMu m a.holds a'.holds)
    (hfd : fd = s.remoteFd ∨ a.holds = true) (hknows : a'.Knows fd fd2) :
    FdInv { s with
      s2c := a', fds := f, remoteFd := fd, remoteFd2 := fd2, remoteMu := m, rotState := r } := by
  subst hpc
  have hleft := h.left_of_s2c hlive
  have hheld := Descriptors.held_eq_s2c (s := { s with
    s2c := a', fds := f, remoteFd := fd, remoteFd2 := fd2, remoteMu := m, rotState := r }) hleft
  refine ⟨hf.of_eq hheld.symm, ?_, h.moves, ?_, hknows, h.knows_main,
    fun hne => absurd hleft hne⟩
  · refine TurnsMutex.mu h.mu hm fun j hj => ?_
    cases j with
    | c2s => rfl
    | s2c => exact absurd rfl hj
    | main => rfl
  · intro x hx
    obtain rfl | hhold := hfd
    · exact h.moving x hx
    -- the c2s thread moves a socket only inside the mutex
    have hout := h.holds_eq_false (j := .s2c) (k := .c2s) hhold (by decide)
    exact absurd (C2sFdAt.holds_of_moving hx) (Bool.eq_false_iff.mp hout)

/-- The variables stay, and the mutex. -/
theorem FdInv.s2c_goes (h : FdInv s) (hpc : s.s2c = a) (hlive : a ≠ .ended)
    (hf : f.Balanced (a'.remote s.remoteFd + holding s.remoteFd2 + a'.own + s.besideS2c))
    (hholds : a'.holds = a.holds) (hknows : a'.Knows s.remoteFd s.remoteFd2) :
    FdInv { s with s2c := a', fds := f } :=
  h.s2c_step hpc hlive hf (hholds ▸ .keeps _ _) (.inl rfl) hknows

/-- A dial that has no socket goes on with what it has beside it. -/
theorem FdInv.s2c_failed {k : DialFd} (h : FdInv s) (hpc : s.s2c = a)
    (ha : a = .dialing k ∨ ∃ x, a = .spoilt k x)
    (hf : f.Balanced (holding s.remoteFd + holding s.remoteFd2 + holding k.own? + s.besideS2c)) :
    FdInv { s with s2c := Descriptors.afterFailed k, fds := f } := by
  have hlive : a ≠ .ended := by
    obtain rfl | ⟨x, rfl⟩ := ha <;> simp
  have hholds : a.holds = true := by
    obtain rfl | ⟨x, rfl⟩ := ha <;> rfl
  have hknows : s.remoteFd = none ∧ s.remoteFd2 = none := by
    obtain rfl | ⟨x, rfl⟩ := ha <;> simpa [hpc, S2cFdAt.Knows] using h.knows_s2c
  have hstays : (Descriptors.afterFailed k).holds = true := by
    cases k <;> rfl
  refine h.s2c_goes hpc hlive (hf.of_eq ?_) (hstays.trans hholds.symm) ?_ <;> cases k <;>
    simp [Descriptors.afterFailed, S2cFdAt.remote, S2cFdAt.own, S2cFdAt.Knows, DialFd.own?, hknows]

/-- Every step of the s2c thread keeps it. -/
theorem FdInv.s2cStep (h : FdInv s) (hs : s.s2cStep ok n = some s') : FdInv s' := by
  cases hpc : s.s2c with
  | ended =>
      rw [Descriptors.s2cStep, hpc] at hs
      cases hs
  | top =>
      have hb := h.balanced_s2c hpc (by simp)
      simp only [Descriptors.s2cStep, hpc] at hs
      split_ifs at hs
      · obtain rfl := Option.some.inj hs
        refine h.s2c_goes hpc (by simp) (hb.of_eq ?_) ?_ ?_ <;> cases s.remoteFd <;>
          simp [S2cFdAt.remote, S2cFdAt.own, S2cFdAt.holds, S2cFdAt.Knows]
      · obtain rfl := Option.some.inj hs
        exact h.s2c_goes hpc (by simp) hb rfl trivial
  | reading x =>
      have hb := h.balanced_s2c hpc (by simp)
      have hremote : s.remoteFd = some x := by simpa [hpc, S2cFdAt.Knows] using h.knows_s2c
      simp only [Descriptors.s2cStep, hpc, Descriptors.use] at hs
      obtain rfl := Option.some.inj hs
      split_ifs
      · exact h.s2c_goes hpc (by simp) (hb.use (by simp [S2cFdAt.remote, hremote])) rfl trivial
      · exact h.s2c_goes hpc (by simp) hb rfl trivial
  | testing =>
      have hb := h.balanced_s2c hpc (by simp)
      simp only [Descriptors.s2cStep, hpc] at hs
      obtain rfl := Option.some.inj hs
      split_ifs
      · exact h.s2c_step hpc (by simp) hb (.keeps _ _) (.inl rfl) trivial
      · exact h.s2c_goes hpc (by simp) hb rfl trivial
  | reconnecting =>
      have hb := h.balanced_s2c hpc (by simp)
      simp only [Descriptors.s2cStep, hpc] at hs
      split_ifs at hs
      · obtain ⟨t, ht, rfl⟩ := Option.map_eq_some_iff.mp hs
        obtain ⟨hmu, rfl⟩ := Descriptors.lock_eq_some.mp ht
        exact h.s2c_step hpc (by simp) hb (hmu ▸ .takes) (.inl rfl) trivial
      · obtain rfl := Option.some.inj hs
        exact h.s2c_goes hpc (by simp) hb rfl trivial
  | entered =>
      have hb := h.balanced_s2c hpc (by simp)
      simp only [Descriptors.s2cStep, hpc] at hs
      obtain rfl := Option.some.inj hs
      split
      · rename_i x hremote
        refine h.s2c_goes hpc (by simp) (hb.of_eq ?_).release rfl trivial
        simp [S2cFdAt.remote, S2cFdAt.own, hremote]
      · rename_i hremote
        exact h.s2c_goes hpc (by simp) hb rfl hremote
  | closed =>
      have hb := h.balanced_s2c hpc (by simp)
      simp only [Descriptors.s2cStep, hpc] at hs
      obtain rfl := Option.some.inj hs
      exact h.s2c_step hpc (by simp) hb (.keeps _ _) (.inr rfl) rfl
  | cleared =>
      have hb := h.balanced_s2c hpc (by simp)
      have hremote : s.remoteFd = none := by simpa [hpc, S2cFdAt.Knows] using h.knows_s2c
      simp only [Descriptors.s2cStep, hpc] at hs
      obtain rfl := Option.some.inj hs
      refine h.s2c_step hpc (by simp) (hb.of_eq ?_) (.keeps _ _) (.inl rfl) ⟨hremote, rfl⟩
      simp [S2cFdAt.remote, S2cFdAt.own]
  | parked old =>
      have hb := h.balanced_s2c hpc (by simp)
      have hknows : s.remoteFd = none ∧ s.remoteFd2 = none := by
        simpa [hpc, S2cFdAt.Knows] using h.knows_s2c
      simp only [Descriptors.s2cStep, hpc] at hs
      obtain rfl := Option.some.inj hs
      refine h.s2c_goes hpc (by simp) (hb.of_eq ?_).releaseAny rfl hknows
      simp [S2cFdAt.remote, S2cFdAt.own, hknows]
  | resetting =>
      have hb := h.balanced_s2c hpc (by simp)
      have hknows : s.remoteFd = none ∧ s.remoteFd2 = none := by
        simpa [hpc, S2cFdAt.Knows] using h.knows_s2c
      simp only [Descriptors.s2cStep, hpc] at hs
      obtain rfl := Option.some.inj hs
      split_ifs
      · exact h.s2c_step hpc (by simp) hb (.keeps _ _) (.inl rfl) hknows
      · exact h.s2c_step hpc (by simp) hb (.keeps _ _) (.inl rfl) trivial
  | dialing k =>
      have hb := h.balanced_s2c hpc (by simp)
      have hknows : s.remoteFd = none ∧ s.remoteFd2 = none := by
        simpa [hpc, S2cFdAt.Knows] using h.knows_s2c
      simp only [Descriptors.s2cStep, hpc] at hs
      split_ifs at hs
      · obtain ⟨u, hu, rfl⟩ := Option.map_eq_some_iff.mp hs
        obtain ⟨t, ht, rfl⟩ := Descriptors.socket_eq_some.mp hu
        refine h.s2c_goes hpc (by simp) ((hb.acquire ht).of_eq ?_) rfl hknows
        simp only [S2cFdAt.remote, S2cFdAt.own]
        abel
      · obtain rfl := Option.some.inj hs
        exact h.s2c_failed hpc (.inl rfl) hb
  | connecting k x =>
      have hb := h.balanced_s2c hpc (by simp)
      have hknows : s.remoteFd = none ∧ s.remoteFd2 = none := by
        simpa [hpc, S2cFdAt.Knows] using h.knows_s2c
      have hused := hb.use (x := x) (by simp [S2cFdAt.own])
      simp only [Descriptors.s2cStep, hpc, Descriptors.use] at hs
      obtain rfl := Option.some.inj hs
      split_ifs
      · refine h.s2c_goes hpc (by simp) (hused.of_eq ?_) ?_ ?_ <;> cases k <;>
          simp [Descriptors.afterDialled, S2cFdAt.remote, S2cFdAt.own, S2cFdAt.holds,
            S2cFdAt.Knows, DialFd.own?, hknows]
      · exact h.s2c_goes hpc (by simp) hused rfl hknows
  | spoilt k x =>
      have hb := h.balanced_s2c hpc (by simp)
      simp only [Descriptors.s2cStep, hpc] at hs
      obtain rfl := Option.some.inj hs
      refine h.s2c_failed hpc (.inr ⟨x, rfl⟩) (hb.of_eq ?_).release
      simp only [S2cFdAt.remote, S2cFdAt.own]
      abel
  | dialled x fd2 =>
      have hb := h.balanced_s2c hpc (by simp)
      have hknows : s.remoteFd = none ∧ s.remoteFd2 = none := by
        simpa [hpc, S2cFdAt.Knows] using h.knows_s2c
      simp only [Descriptors.s2cStep, hpc] at hs
      obtain rfl := Option.some.inj hs
      refine h.s2c_step hpc (by simp) (hb.of_eq ?_) (.keeps _ _) (.inl rfl) hknows.1
      simp only [S2cFdAt.remote, S2cFdAt.own, hknows, holding_none]
      abel
  | returned x =>
      have hb := h.balanced_s2c hpc (by simp)
      have hremote : s.remoteFd = none := by simpa [hpc, S2cFdAt.Knows] using h.knows_s2c
      simp only [Descriptors.s2cStep, hpc] at hs
      obtain rfl := Option.some.inj hs
      refine h.s2c_step hpc (by simp) (hb.of_eq ?_) (.keeps _ _) (.inr rfl) trivial
      simp only [S2cFdAt.remote, S2cFdAt.own, hremote, holding_none, holding_some]
      abel
  | leaving done =>
      have hb := h.balanced_s2c hpc (by simp)
      simp only [Descriptors.s2cStep, hpc] at hs
      obtain rfl := Option.some.inj hs
      split_ifs
      · exact h.s2c_step hpc (by simp) hb (.drops _) (.inl rfl) trivial
      · exact h.s2c_step hpc (by simp) hb (.drops _) (.inl rfl) trivial
  | probe =>
      have hb := h.balanced_s2c hpc (by simp)
      simp only [Descriptors.s2cStep, hpc] at hs
      obtain rfl := Option.some.inj hs
      split
      · rename_i x x2 hremote hremote2
        exact h.s2c_goes hpc (by simp) hb rfl ⟨hremote, hremote2⟩
      · exact h.s2c_goes hpc (by simp) hb rfl trivial
  | probing x x2 =>
      have hb := h.balanced_s2c hpc (by simp)
      have hknows : s.remoteFd = some x ∧ s.remoteFd2 = some x2 := by
        simpa [hpc, S2cFdAt.Knows] using h.knows_s2c
      have hused := (hb.use (x := x) (by simp [S2cFdAt.remote, hknows])).use (x := x2)
        (by simp [hknows])
      simp only [Descriptors.s2cStep, hpc, Descriptors.use] at hs
      obtain rfl := Option.some.inj hs
      split_ifs
      · exact h.s2c_goes hpc (by simp) hused rfl hknows
      · exact h.s2c_goes hpc (by simp) hused rfl trivial
  | finish =>
      have hb := h.balanced_s2c hpc (by simp)
      simp only [Descriptors.s2cStep, hpc] at hs
      obtain ⟨t, ht, rfl⟩ := Option.map_eq_some_iff.mp hs
      obtain ⟨hmu, rfl⟩ := Descriptors.lock_eq_some.mp ht
      exact h.s2c_step hpc (by simp) hb (hmu ▸ .takes) (.inl rfl) trivial
  | settling =>
      have hb := h.balanced_s2c hpc (by simp)
      simp only [Descriptors.s2cStep, hpc] at hs
      obtain rfl := Option.some.inj hs
      split
      · rename_i x hremote2
        refine h.s2c_step hpc (by simp) (hb.of_eq ?_) (.keeps _ _) (.inl rfl) rfl
        simp [S2cFdAt.remote, S2cFdAt.own, hremote2]
      · exact h.s2c_goes hpc (by simp) hb rfl trivial
  | taken x =>
      have hb := h.balanced_s2c hpc (by simp)
      have hremote2 : s.remoteFd2 = none := by simpa [hpc, S2cFdAt.Knows] using h.knows_s2c
      simp only [Descriptors.s2cStep, hpc] at hs
      obtain rfl := Option.some.inj hs
      split_ifs
      · refine h.s2c_step hpc (by simp) (hb.of_eq ?_) (.keeps _ _) (.inr rfl) hremote2
        simp only [S2cFdAt.remote, S2cFdAt.own, holding_some]
        abel
      · exact h.s2c_goes hpc (by simp) hb rfl hremote2
  | losing x =>
      have hb := h.balanced_s2c hpc (by simp)
      simp only [Descriptors.s2cStep, hpc] at hs
      obtain rfl := Option.some.inj hs
      refine h.s2c_goes hpc (by simp) (hb.of_eq ?_).releaseAny rfl trivial
      simp only [S2cFdAt.remote, S2cFdAt.own]
      abel
  | settled =>
      have hb := h.balanced_s2c hpc (by simp)
      simp only [Descriptors.s2cStep, hpc] at hs
      obtain rfl := Option.some.inj hs
      exact h.s2c_step hpc (by simp) hb (.drops _) (.inl rfl) trivial

end

/-! ### The main thread and the files -/

section

variable {s s' : Descriptors} {a a' : MainFdAt} {f : Handles ℕ} {o : Option ℕ}
  {m : Option FdThread} {r : RotState} {ok stop : Bool} {n : ℕ}

/-- The ledger as the main thread sees it. -/
theorem FdInv.balanced_main (h : FdInv s) (hpc : s.main = a) (hleft : a.left? = none) :
    s.fds.Balanced (holding a.own? + holding s.rotOldFd + s.besideMain) :=
  h.balanced.of_eq (hpc ▸ Descriptors.held_eq_main (hpc ▸ hleft))

/-- What a step of the main thread has to keep before the end. -/
theorem FdInv.main_step (h : FdInv s) (hpc : s.main = a) (hleft : a'.left? = none)
    (hf : f.Balanced (holding a'.own? + holding o + s.besideMain))
    (hm : TurnsMutex .main s.remoteMu m a.holds a'.holds)
    (ho : s.rotOldFd = none → o = none) (hknows : a'.Knows o) :
    FdInv { s with
      main := a', fds := f, rotOldFd := o, remoteMu := m, rotState := r, stopped := stop } := by
  subst hpc
  have hheld := Descriptors.held_eq_main (s := { s with
    main := a', fds := f, rotOldFd := o, remoteMu := m, rotState := r, stopped := stop }) hleft
  refine ⟨hf.of_eq hheld.symm, ?_, fun hmv => ho (h.moves hmv), h.moving, h.knows_s2c, hknows,
    fun hne => absurd hleft hne⟩
  refine TurnsMutex.mu h.mu hm fun j hj => ?_
  cases j with
  | c2s => rfl
  | s2c => rfl
  | main => exact absurd rfl hj

/-- The variables stay, and the mutex. -/
theorem FdInv.main_goes (h : FdInv s) (hpc : s.main = a) (hleft : a'.left? = none)
    (hf : f.Balanced (holding a'.own? + holding s.rotOldFd + s.besideMain))
    (hholds : a'.holds = a.holds) (hknows : a'.Knows s.rotOldFd) :
    FdInv { s with main := a', fds := f, stopped := stop } :=
  h.main_step hpc hleft hf (hholds ▸ .keeps _ _) id hknows

/-- Every step of the main thread keeps it. -/
theorem FdInv.mainStep (h : FdInv s) (hs : s.mainStep ok = some s') : FdInv s' := by
  cases hpc : s.main with
  | waiting =>
      have hb := h.balanced_main hpc rfl
      simp only [Descriptors.mainStep, hpc] at hs
      obtain rfl := Option.some.inj hs
      split_ifs
      · exact h.main_goes hpc rfl hb rfl trivial
      · exact h.main_goes hpc rfl hb rfl trivial
  | old isOpen =>
      have hb := h.balanced_main hpc rfl
      simp only [Descriptors.mainStep, hpc] at hs
      obtain rfl := Option.some.inj hs
      split_ifs
      · exact h.main_goes hpc rfl hb rfl trivial
      · exact h.main_goes hpc rfl hb rfl trivial
  | polled st =>
      have hb := h.balanced_main hpc rfl
      simp only [Descriptors.mainStep, hpc, Descriptors.lock] at hs
      obtain rfl := Option.some.inj hs
      split_ifs with hmu
      · exact h.main_step hpc rfl hb (hmu ▸ .takes) id trivial
      · exact h.main_goes hpc rfl hb rfl trivial
  | locked st =>
      have hb := h.balanced_main hpc rfl
      simp only [Descriptors.mainStep, hpc] at hs
      obtain rfl := Option.some.inj hs
      split_ifs
      · exact h.main_step hpc rfl hb (.keeps _ _) id trivial
      · refine h.main_step hpc rfl (hb.of_eq ?_) (.keeps _ _) (fun _ => rfl) rfl
        simp only [MainFdAt.own?, holding_none]
        abel
  | taken old =>
      have hb := h.balanced_main hpc rfl
      have hnone : s.rotOldFd = none := by simpa [hpc, MainFdAt.Knows] using h.knows_main
      simp only [Descriptors.mainStep, hpc] at hs
      obtain rfl := Option.some.inj hs
      cases old with
      | none => exact h.main_goes hpc rfl hb rfl trivial
      | some fd =>
          exact h.main_goes hpc rfl (hb.use (x := fd) (by simp [MainFdAt.own?])) rfl hnone
  | drained fd =>
      have hb := h.balanced_main hpc rfl
      simp only [Descriptors.mainStep, hpc] at hs
      obtain rfl := Option.some.inj hs
      refine h.main_goes hpc rfl (hb.of_eq ?_).release rfl trivial
      simp only [MainFdAt.own?, holding_none, holding_some]
      abel
  | back =>
      have hb := h.balanced_main hpc rfl
      simp only [Descriptors.mainStep, hpc] at hs
      obtain rfl := Option.some.inj hs
      split
      · rename_i fd hremote
        have hout := h.holds_eq_false (j := .main) (k := .s2c) (by simp [Descriptors.holds, hpc,
          MainFdAt.holds]) (by decide)
        have hmem : fd ∈ s.besideMain := by
          simp [Descriptors.besideMain, Descriptors.mem_endpointFds hout hremote]
        exact h.main_goes hpc rfl (hb.use (Multiset.mem_add.mpr (.inr hmem))) rfl trivial
      · exact h.main_goes hpc rfl hb rfl trivial
  | leaving =>
      have hb := h.balanced_main hpc rfl
      simp only [Descriptors.mainStep, hpc] at hs
      obtain rfl := Option.some.inj hs
      exact h.main_step hpc rfl hb (.drops _) id trivial
  | events =>
      have hb := h.balanced_main hpc rfl
      simp only [Descriptors.mainStep, hpc] at hs
      obtain rfl := Option.some.inj hs
      split_ifs
      · refine h.main_goes hpc ?_ (hb.of_eq ?_) ?_ ?_ <;> cases s.rotOldFd <;>
          simp [MainFdAt.left?, MainFdAt.own?, MainFdAt.holds, MainFdAt.Knows]
      · exact h.main_goes hpc rfl hb rfl trivial
  | draining fd =>
      have hb := h.balanced_main hpc rfl
      have hold : s.rotOldFd = some fd := by simpa [hpc, MainFdAt.Knows] using h.knows_main
      simp only [Descriptors.mainStep, hpc] at hs
      obtain rfl := Option.some.inj hs
      exact h.main_goes hpc rfl (hb.use (x := fd) (by simp [hold])) rfl trivial
  | joining =>
      have hb := h.balanced_main hpc rfl
      simp only [Descriptors.mainStep, hpc] at hs
      obtain ⟨⟨hc2s, hs2c⟩, rfl⟩ := Option.ite_some_none_eq_some.mp hs
      refine ⟨hb.of_eq ?_, fun k => ?_, fun _ => rfl, h.moving, h.knows_s2c, rfl,
        fun _ => ⟨hc2s, hs2c⟩⟩
      · simp only [Descriptors.held, Descriptors.besideMain, Descriptors.endpointFds,
          MainFdAt.left?, Option.elim_some, MainFdAt.own?, C2sFdAt.own?, hc2s, hs2c,
          S2cFdAt.remote, S2cFdAt.own, holding_eq_coe, Option.toList_none, Multiset.coe_nil,
          ← Multiset.coe_add, ← Multiset.cons_coe, ← Multiset.singleton_add]
        abel
      · refine (h.mu k).trans ?_
        cases k <;> simp [Descriptors.holds, hpc, MainFdAt.holds]
  | closing fds =>
      cases fds with
      | nil =>
          rw [Descriptors.mainStep, hpc] at hs
          cases hs
      | cons fd fds =>
          have hb := h.balanced
          simp only [Descriptors.held, hpc, MainFdAt.left?, Option.elim_some,
            ← Multiset.cons_coe, ← Multiset.singleton_add] at hb
          have hknows : s.rotOldFd = none := by simpa [hpc, MainFdAt.Knows] using h.knows_main
          simp only [Descriptors.mainStep, hpc] at hs
          obtain rfl := Option.some.inj hs
          refine ⟨(hb.of_eq (add_left_comm _ _ _)).release, fun k => ?_, h.moves, h.moving,
            h.knows_s2c, hknows, fun _ => h.joined (by simp [hpc, MainFdAt.left?])⟩
          refine (h.mu k).trans ?_
          cases k <;> simp [Descriptors.holds, hpc, MainFdAt.holds, Descriptors.close]

/-- What goes on beside the threads keeps it. -/
theorem FdInv.files {t : Handles ℕ} {files : Multiset ℕ} (h : FdInv s)
    (ht : t.Balanced (files + s.main.left?.elim (s.sockets + {s.epfd} + s.fixed) (↑))) :
    FdInv { s with fds := t, files := files } :=
  ⟨ht, h.mu, h.moves, h.moving, h.knows_s2c, h.knows_main, h.joined⟩

/-- **Every step keeps it.** -/
theorem FdInv.step {e : FdEvent} (h : FdInv s) (hs : fdStep s e = some s') : FdInv s' := by
  cases e with
  | c2s ok n => exact h.c2sStep hs
  | s2c ok n => exact h.s2cStep hs
  | main ok => exact h.mainStep hs
  | openFile fd =>
      obtain ⟨u, hu, rfl⟩ := Option.map_eq_some_iff.mp hs
      obtain ⟨t, ht, rfl⟩ := Descriptors.socket_eq_some.mp hu
      exact h.files ((h.balanced.acquire ht).of_eq (add_assoc _ _ _).symm)
  | closeFile fd =>
      obtain ⟨hmem, rfl⟩ := Option.ite_some_none_eq_some.mp hs
      have hsplit : s.files = {fd} + s.files.erase fd := by
        rw [Multiset.singleton_add, Multiset.cons_erase hmem]
      have hb := h.balanced
      rw [Descriptors.held, hsplit, add_assoc] at hb
      exact h.files hb.release

end

/-! ### How many there are -/

section

variable {s : Descriptors}

/-- There are at most two sockets of the endpoint, also in the middle of a reconnect. -/
theorem FdInv.card_endpointFds_le (h : FdInv s) : s.endpointFds.card ≤ 2 := by
  have h1 := card_holding_le s.remoteFd
  have h2 := card_holding_le s.remoteFd2
  have hknows := h.knows_s2c
  rw [Descriptors.endpointFds, Multiset.card_add, Multiset.card_add]
  cases hs2c : s.s2c with
  | parked old | losing old =>
      have h3 := card_holding_le old
      simp_all [S2cFdAt.Knows, S2cFdAt.remote, S2cFdAt.own]
      try omega
  | dialing k | connecting k fd | spoilt k fd =>
      have h3 := card_holding_le k.own?
      simp_all [S2cFdAt.Knows, S2cFdAt.remote, S2cFdAt.own]
      try omega
  | dialled fd fd2 =>
      have h3 := card_holding_le fd2
      simp_all [S2cFdAt.Knows, S2cFdAt.remote, S2cFdAt.own]
      try omega
  | _ =>
      simp_all [S2cFdAt.Knows, S2cFdAt.remote, S2cFdAt.own]
      try omega

theorem C2sFdAt.moves_of_own {a : C2sFdAt} (h : a.own? ≠ none) :
    a.moves = true ∧ a.holds = true := by
  cases a <;> simp_all [C2sFdAt.own?, C2sFdAt.moves, C2sFdAt.holds]

/-- And at most one for the old port. -/
theorem FdInv.card_oldPortFds_le (h : FdInv s) : s.oldPortFds.card ≤ 1 := by
  have h1 := card_holding_le s.rotOldFd
  have h2 := card_holding_le s.c2s.own?
  have h3 := card_holding_le s.main.own?
  have hknows := h.knows_main
  rw [Descriptors.oldPortFds, Multiset.card_add, Multiset.card_add]
  by_cases hown : s.c2s.own? = none
  · cases hmain : s.main with
    | taken fd | drained fd =>
        have hnone : s.rotOldFd = none := by simpa [hmain, MainFdAt.Knows] using hknows
        simpa [hown, hnone, hmain] using h3
    | _ => simpa [hown, MainFdAt.own?] using h1
  · obtain ⟨hmv, hhold⟩ := C2sFdAt.moves_of_own hown
    have hout : s.main.holds = false := h.holds_eq_false (j := .c2s) (k := .main) hhold (by decide)
    have hmain : s.main.own? = none := by
      cases hm : s.main <;> simp_all [MainFdAt.holds, MainFdAt.own?]
    simpa [h.moves hmv, hmain] using h2

/-- So there are at most three remote sockets. -/
theorem FdInv.card_sockets_le (h : FdInv s) : s.sockets.card ≤ 3 := by
  rw [Descriptors.sockets, Multiset.card_add]
  exact Nat.add_le_add h.card_endpointFds_le h.card_oldPortFds_le

/-! ### The start -/

/-- Both threads are created and nothing is under way: `remote_fd` is connected, `remote_fd2` too
when the name has both families. -/
structure Descriptors.Started (s : Descriptors) : Prop where
  opened : s.fds.opened.val =
    s.files + (holding s.remoteFd + holding s.remoteFd2 + {s.epfd} + s.fixed)
  not_refused : s.fds.refused = false
  old : s.rotOldFd = none
  mu : s.remoteMu = none
  c2s : s.c2s = .top
  s2c : s.s2c = .probe
  main : s.main = .waiting

theorem Descriptors.Started.inv (h : s.Started) : FdInv s := by
  refine ⟨⟨h.opened.trans ?_, h.not_refused⟩, fun k => ?_, fun _ => h.old, ?_, ?_, ?_, ?_⟩
  · simp [Descriptors.held, Descriptors.sockets, Descriptors.endpointFds, Descriptors.oldPortFds,
      h.c2s, h.s2c, h.main, h.old, MainFdAt.left?, S2cFdAt.remote, S2cFdAt.own, C2sFdAt.own?,
      MainFdAt.own?]
  · cases k <;> simp [h.mu, Descriptors.holds, h.c2s, h.s2c, h.main, C2sFdAt.holds, S2cFdAt.holds,
      MainFdAt.holds]
  · simp [h.c2s, C2sFdAt.moving?]
  · simp [h.s2c, S2cFdAt.Knows]
  · simp [h.main, MainFdAt.Knows]
  · simp [h.main, MainFdAt.left?]

end

end AwgProxy
