import AwgProxy.Descriptors

/-!
# Loaded Descriptors

The calls that go to a number without holding its socket. The c2s thread sends a whole batch to
the `remote_fd` it has loaded for it, and the copies of a move to the `rot_old_fd` it has loaded;
`note_remote_send_err` and the main loop shut down what `remote_fd` was a moment ago, after a
check of the name even from before a look-up that may take seconds, and the main loop sets and
asks for the options of that socket. None of them has the mutex, so the number may be closed
between the load and the call, and may be somebody else's by then.

* `fdMachine` — the threads with these loads and calls.
* `descriptors_owned` — in every run each open descriptor has one holder, each call of a holder or
  inside the mutex is on an open one, there are at most three remote sockets, and the end leaves
  nothing open. A call outside of the mutex is on the socket its number was loaded from unless
  the one thread that closes this socket has closed it: the s2c thread the endpoint's, the main
  thread the old port's.
* `shutdown_strays` — such a call may hit what is none of the proxy's sockets.
-/

namespace AwgProxy

open Handles

/-- The local variables that keep a number outside of the mutex. -/
inductive FdVar
  /-- `remote_fd` of the c2s thread, for a batch. -/
  | batch
  /-- `rfd` of `note_remote_send_err`. -/
  | failed
  /-- `old` of `rot_lag_service` and `send_batch_remote`. -/
  | lag
  /-- `rfd2`, `rfd3` and the like of the main thread, of `remote_fd`. -/
  | main
  /-- Its `rfd` of `remote_fd2`, ahead of the joins. -/
  | last
  deriving DecidableEq

/-- A number in such a variable, and who has closed the socket it was loaded from. -/
structure LoadedFd where
  fd : ℕ
  closedBy : Option FdThread
  deriving DecidableEq

/-- A call on such a number, and whether the number was open then. -/
structure FdCall where
  var : FdVar
  on : LoadedFd
  isOpen : Bool
  deriving DecidableEq

/-- The threads with their local variables, and the calls on these so far. -/
structure FdRun extends Descriptors where
  loaded : FdVar → Option LoadedFd
  calls : List FdCall

/-- A step of a thread or of the files; a load; a call. -/
inductive FdRunEvent
  | step (e : FdEvent)
  | load (v : FdVar)
  | call (v : FdVar)

/-- The thread that closes the socket a number is loaded from. -/
def FdVar.closer : FdVar → FdThread
  | .lag => .main
  | .batch | .failed | .main | .last => .s2c

/-- What is loaded. Between its `close` and the store of `-1` the s2c thread leaves the number of
a closed socket in `remote_fd`; the other two variables are cleared first. -/
def Descriptors.load (s : Descriptors) : FdVar → Option LoadedFd
  | .batch | .failed | .main =>
      s.remoteFd.map fun fd => ⟨fd, if s.s2c = .closed then some .s2c else none⟩
  | .last => s.remoteFd2.map fun fd => ⟨fd, none⟩
  | .lag => s.rotOldFd.map fun fd => ⟨fd, none⟩

/-- Where a variable is in scope: in the c2s thread's batch, in the main thread's look at its
timer, which goes by `remote_fd` alone, and ahead of the joins. -/
def Descriptors.InScope (s : Descriptors) : FdVar → Prop
  | .batch | .failed | .lag => s.c2s = .top
  | .main => s.main = .events ∨ s.main = .joining
  | .last => s.main = .joining

instance (s : Descriptors) : (v : FdVar) → Decidable (s.InScope v)
  | .batch | .failed | .lag => inferInstanceAs (Decidable (_ = _))
  | .main => inferInstanceAs (Decidable (_ ∨ _))
  | .last => inferInstanceAs (Decidable (_ = _))

/-- A number after a step of the thread `k`, which leaves `opened` open. -/
def LoadedFd.after (l : LoadedFd) (k : FdThread) (opened : Finset ℕ) : LoadedFd :=
  { l with closedBy := l.closedBy.or (if l.fd ∈ opened then none else some k) }

/-- The variables behind a step, which itself loads the number for the next batch and leaves the
scope of the others. -/
def FdRun.keeps (s : FdRun) (t : Descriptors) : FdEvent → FdVar → Option LoadedFd
  | .c2s ok _, v =>
      if s.c2s = .top ∧ v ≠ .main ∧ v ≠ .last then
        if v = .batch ∧ ok = true then s.load .batch else none
      else (s.loaded v).map (·.after .c2s t.fds.opened)
  | .s2c _ _, v => (s.loaded v).map (·.after .s2c t.fds.opened)
  | .main _, v =>
      if v = .main ∨ v = .last then none else (s.loaded v).map (·.after .main t.fds.opened)
  | .openFile _, v | .closeFile _, v => s.loaded v

/-- The threads, the kernel that gives the numbers, and the calls outside of the mutex. -/
def fdMachine : Machine FdRun FdRunEvent where
  step s
    | .step e => (fdStep s.toDescriptors e).map fun t => ⟨t, s.keeps t e, s.calls⟩
    | .load v =>
        if s.InScope v ∧ v ≠ .batch then
          some { s with loaded := Function.update s.loaded v (s.load v) }
        else none
    | .call v =>
        if s.InScope v then
          (s.loaded v).map fun l =>
            { s with calls := s.calls ++ [⟨v, l, decide (l.fd ∈ s.fds.opened)⟩] }
        else none

/-! ### What a step leaves as it is -/

namespace Descriptors

variable {s t : Descriptors} {ok : Bool} {n : ℕ}

/-- The c2s thread fills `rot_old_fd` in a move, and ends at the top of its loop. -/
theorem c2sStep_keeps (hs : s.c2sStep ok n = some t) :
    t.s2c = s.s2c ∧ t.main = s.main ∧ t.remoteFd = s.remoteFd ∧ t.remoteFd2 = s.remoteFd2 ∧
      (t.rotOldFd = s.rotOldFd ∨ s.c2s.moves = true) ∧
      s.c2s ≠ .ended ∧ (t.c2s = .ended → s.c2s = .top) := by
  cases hpc : s.c2s <;>
    simp only [c2sStep, lock, socket, hpc, Option.map_map] at hs <;>
    grind [use, close, closeAny, unlock, C2sFdAt.moves, Option.map_eq_some_iff]

/-- The s2c thread has nothing to do with the old port. -/
theorem s2cStep_keeps (hs : s.s2cStep ok n = some t) :
    t.c2s = s.c2s ∧ t.main = s.main ∧ t.rotOldFd = s.rotOldFd ∧ t.files = s.files ∧
      t.epfd = s.epfd ∧ t.fixed = s.fixed ∧ s.s2c ≠ .ended := by
  cases hpc : s.s2c <;>
    simp only [s2cStep, lock, socket, hpc, Option.map_map] at hs <;>
    grind [use, close, closeAny, unlock, Option.map_eq_some_iff]

/-- The main thread stores neither of the endpoint's variables. -/
theorem mainStep_keeps (hs : s.mainStep ok = some t) :
    t.c2s = s.c2s ∧ t.s2c = s.s2c ∧ t.remoteFd = s.remoteFd ∧ t.remoteFd2 = s.remoteFd2 ∧
      t.files = s.files ∧ t.epfd = s.epfd ∧ t.fixed = s.fixed := by
  cases hpc : s.main <;>
    simp only [mainStep, lock, hpc] at hs <;>
    grind [use, close, closeAny, unlock, Option.map_eq_some_iff]

/-- The sockets that a variable's number is one of, as long as it is good: the endpoint's, or the
old port's once it is published. -/
def lender (s : Descriptors) : FdVar → Multiset ℕ
  | .lag => holding s.main.own? + holding s.rotOldFd
  | .batch | .failed | .main | .last => s.endpointFds

/-- They are remote sockets. -/
theorem lender_le (s : Descriptors) (v : FdVar) : s.lender v ≤ s.sockets := by
  have hold : holding s.main.own? + holding s.rotOldFd ≤ s.oldPortFds := by
    rw [oldPortFds, add_right_comm, add_comm (holding s.main.own?)]
    exact Multiset.le_add_right _ _
  cases v with
  | lag => exact hold.trans (Multiset.le_add_left _ _)
  | batch | failed | main | last => exact Multiset.le_add_right _ _

end Descriptors

/-- Before the end the remote sockets are open. -/
theorem FdInv.mem_opened {s : Descriptors} {fd : ℕ} (h : FdInv s) (hleft : s.main.left? = none)
    (hfd : fd ∈ s.sockets) : fd ∈ s.fds.opened := by
  refine h.balanced.mem ?_
  rw [Descriptors.held, hleft]
  simp [hfd]

/-- What is loaded is a number of its lender's, or was closed by it. -/
theorem Descriptors.load_spec {s : Descriptors} {v : FdVar} {l : LoadedFd}
    (hl : s.load v = some l) :
    (l.closedBy = none → l.fd ∈ s.lender v) ∧ ∀ k, l.closedBy = some k → k = v.closer := by
  cases v with
  | lag =>
      obtain ⟨fd, hfd, rfl⟩ := Option.map_eq_some_iff.mp hl
      refine ⟨fun _ => ?_, fun k hk => by cases hk⟩
      simp [Descriptors.lender, hfd]
  | last =>
      obtain ⟨fd, hfd, rfl⟩ := Option.map_eq_some_iff.mp hl
      refine ⟨fun _ => ?_, fun k hk => by cases hk⟩
      simp [Descriptors.lender, Descriptors.endpointFds, hfd]
  | batch | failed | main =>
      obtain ⟨fd, hfd, rfl⟩ := Option.map_eq_some_iff.mp hl
      refine ⟨fun hopen => ?_, fun k hk => ?_⟩
      · have hs2c : s.s2c ≠ .closed := by
          intro heq
          rw [if_pos heq] at hopen
          cases hopen
        have hmem : fd ∈ s.s2c.remote s.remoteFd := by
          cases hpc : s.s2c <;> simp_all [S2cFdAt.remote]
        simp [Descriptors.lender, Descriptors.endpointFds, hmem]
      · split_ifs at hk
        exact (Option.some.inj hk).symm

/-! ### The numbers that are loaded -/

/-- What holds of the loaded numbers and of the calls. -/
structure FdRunInv (s : FdRun) : Prop where
  threads : FdInv s.toDescriptors
  /-- A number is one of its lender's sockets until this is closed, by the one who closes it. -/
  loaded : ∀ v l, s.loaded v = some l →
    (l.closedBy = none → l.fd ∈ s.lender v) ∧ ∀ k, l.closedBy = some k → k = v.closer
  /-- A thread that has returned has no variables. -/
  ended : s.c2s = .ended → ∀ v, v ≠ .main → v ≠ .last → s.loaded v = none
  calls : ∀ c ∈ s.calls,
    (c.on.closedBy = none → c.isOpen = true) ∧ ∀ k, c.on.closedBy = some k → k = c.var.closer

section

variable {s : FdRun} {t : Descriptors} {v : FdVar} {l : LoadedFd} {k : FdThread} {ok : Bool}
  {n : ℕ}

/-- A number after a step: its lender has it still, or the thread that has closed its socket is
the one who may. -/
theorem LoadedFd.after_spec {before after : Multiset ℕ}
    (h : (l.closedBy = none → l.fd ∈ before) ∧ ∀ j, l.closedBy = some j → j = v.closer)
    (hstays : l.fd ∈ before → l.fd ∈ t.fds.opened → l.fd ∈ after)
    (hcloses : l.fd ∈ before → l.fd ∉ t.fds.opened → k = v.closer) :
    ((l.after k t.fds.opened).closedBy = none → l.fd ∈ after) ∧
      ∀ j, (l.after k t.fds.opened).closedBy = some j → j = v.closer := by
  rw [LoadedFd.after]
  dsimp only
  cases hclosed : l.closedBy with
  | some j =>
      rw [Option.some_or]
      exact ⟨fun hnone => absurd hnone (Option.some_ne_none j), hclosed ▸ h.2⟩
  | none =>
      have hmem := h.1 hclosed
      rw [Option.none_or]
      split_ifs with hopen
      · exact ⟨fun _ => hstays hmem hopen, fun j hj => by cases hj⟩
      · refine ⟨fun hnone => hnone.elim, fun j hj => ?_⟩
        obtain rfl := Option.some.inj hj
        exact hcloses hmem hopen

/-- A step of the c2s thread. -/
theorem FdRunInv.c2s_loaded (h : FdRunInv s) (hs : s.c2sStep ok n = some t) (ht : FdInv t)
    (hl : s.keeps t (.c2s ok n) v = some l) :
    (l.closedBy = none → l.fd ∈ t.lender v) ∧ ∀ k, l.closedBy = some k → k = v.closer := by
  obtain ⟨hs2c, hmain, hfd, hfd2, hold, hlive, -⟩ := Descriptors.c2sStep_keeps hs
  have hleft : t.main.left? = none := hmain ▸ h.threads.left_of_c2s hlive
  -- it closes no socket that a number may have been loaded from
  have hlender : s.lender v ≤ t.lender v := by
    cases v with
    | lag =>
        rw [Descriptors.lender, Descriptors.lender, hmain]
        rcases hold with heq | hmoves
        · rw [heq]
        · rw [h.threads.moves hmoves, holding_none, add_zero]
          exact Multiset.le_add_right _ _
    | batch | failed | main | last =>
        rw [Descriptors.lender, Descriptors.lender, Descriptors.endpointFds,
          Descriptors.endpointFds, hs2c, hfd, hfd2]
  rw [FdRun.keeps] at hl
  split_ifs at hl with htop hload
  · rw [hload.1]
    obtain ⟨hmem, hcloser⟩ := Descriptors.load_spec hl
    exact ⟨fun hnone => Multiset.mem_of_le (hload.1 ▸ hlender) (hmem hnone), hcloser⟩
  · obtain ⟨l, hkeeps, rfl⟩ := Option.map_eq_some_iff.mp hl
    refine LoadedFd.after_spec (h.loaded v l hkeeps) (fun hmem _ => Multiset.mem_of_le hlender hmem)
      fun hmem hclosed => absurd (ht.mem_opened hleft ?_) hclosed
    exact Multiset.mem_of_le (hlender.trans (t.lender_le v)) hmem

/-- A step of the s2c thread. -/
theorem FdRunInv.s2c_loaded (h : FdRunInv s) (hs : s.s2cStep ok n = some t) (ht : FdInv t)
    (hl : s.keeps t (.s2c ok n) v = some l) :
    (l.closedBy = none → l.fd ∈ t.lender v) ∧ ∀ k, l.closedBy = some k → k = v.closer := by
  obtain ⟨hc2s, hmain, hold, hfiles, hepfd, hfixed, hlive⟩ := Descriptors.s2cStep_keeps hs
  have hleft := h.threads.left_of_s2c hlive
  have hleft' : t.main.left? = none := hmain ▸ hleft
  have hbeside : t.besideS2c = s.besideS2c := by
    rw [Descriptors.besideS2c, Descriptors.besideS2c, Descriptors.oldPortFds,
      Descriptors.oldPortFds, hc2s, hmain, hold, hfiles, hepfd, hfixed]
  have hb := h.threads.balanced.of_eq (Descriptors.held_eq_s2c hleft)
  have hb' := ht.balanced.of_eq (Descriptors.held_eq_s2c hleft')
  rw [hbeside] at hb'
  obtain ⟨l, hkeeps, rfl⟩ := Option.map_eq_some_iff.mp hl
  cases v with
  | lag =>
      have hlender : s.lender .lag = t.lender .lag := by
        rw [Descriptors.lender, Descriptors.lender, hmain, hold]
      refine LoadedFd.after_spec (h.loaded _ l hkeeps) (fun hmem _ => hlender ▸ hmem)
        fun hmem hclosed => absurd (ht.mem_opened hleft' ?_) hclosed
      exact Multiset.mem_of_le (t.lender_le .lag) (hlender ▸ hmem)
  | batch | failed | main | last =>
      exact LoadedFd.after_spec (h.loaded _ l hkeeps) (fun hmem hopen => hb.stays hb' hmem hopen)
        fun _ _ => rfl

/-- A step of the main thread. -/
theorem FdRunInv.main_loaded (h : FdRunInv s) (hs : s.mainStep ok = some t) (ht : FdInv t)
    (hl : s.keeps t (.main ok) v = some l) :
    (l.closedBy = none → l.fd ∈ t.lender v) ∧ ∀ k, l.closedBy = some k → k = v.closer := by
  obtain ⟨hc2s, hs2c, hfd, hfd2, hfiles, hepfd, hfixed⟩ := Descriptors.mainStep_keeps hs
  have hendpoint : t.endpointFds = s.endpointFds := by
    rw [Descriptors.endpointFds, Descriptors.endpointFds, hs2c, hfd, hfd2]
  rw [FdRun.keeps] at hl
  split_ifs at hl with hmain
  rw [not_or] at hmain
  obtain ⟨l, hkeeps, rfl⟩ := Option.map_eq_some_iff.mp hl
  -- behind the joins nobody has a number
  have hleft' : t.main.left? = none := by
    by_contra hleft
    have hended := (ht.joined hleft).1
    rw [h.ended (hc2s ▸ hended) v hmain.1 hmain.2] at hkeeps
    cases hkeeps
  cases v with
  | lag =>
      have hleft : s.main.left? = none := by
        cases hpc : s.main <;> first | rfl | skip
        rw [Descriptors.mainStep, hpc] at hs
        rename_i fds
        cases fds <;> cases hs
        cases hleft'
      have hbeside : t.besideMain = s.besideMain := by
        rw [Descriptors.besideMain, Descriptors.besideMain, hendpoint, hc2s, hfiles, hepfd, hfixed]
      have hb := h.threads.balanced.of_eq (Descriptors.held_eq_main hleft)
      have hb' := ht.balanced.of_eq (Descriptors.held_eq_main hleft')
      rw [hbeside] at hb'
      exact LoadedFd.after_spec (h.loaded _ l hkeeps) (fun hmem hopen => hb.stays hb' hmem hopen)
        fun _ _ => rfl
  | batch | failed =>
      refine LoadedFd.after_spec (h.loaded _ l hkeeps) (fun hmem _ => ?_)
        fun hmem hclosed => absurd (ht.mem_opened hleft' ?_) hclosed
      · rw [Descriptors.lender, hendpoint]
        exact hmem
      · refine Multiset.mem_of_le (t.lender_le .batch) ?_
        rw [Descriptors.lender, hendpoint]
        exact hmem
  | main => exact absurd rfl hmain.1
  | last => exact absurd rfl hmain.2

/-- A thread that returns leaves the scope of its variables. -/
theorem FdRunInv.keeps_ended (h : FdRunInv s) {e : FdEvent} (hs : fdStep s.toDescriptors e = some t)
    (hended : t.c2s = .ended) (hmain : v ≠ .main) (hlast : v ≠ .last) : s.keeps t e v = none := by
  cases e with
  | c2s ok n =>
      have htop := (Descriptors.c2sStep_keeps hs).2.2.2.2.2.2 hended
      rw [FdRun.keeps, if_pos ⟨htop, hmain, hlast⟩]
      refine if_neg fun hload => ?_
      -- with a number for a batch it does not return
      simp only [fdStep, Descriptors.c2sStep, htop, if_pos hload.2, Option.some.injEq] at hs
      obtain rfl := hs
      dsimp only at hended
      cases hfd : s.remoteFd <;> rw [hfd] at hended <;> cases hended
  | s2c ok n =>
      rw [FdRun.keeps, h.ended ((Descriptors.s2cStep_keeps hs).1 ▸ hended) v hmain hlast]
      rfl
  | main ok =>
      rw [FdRun.keeps, if_neg (not_or.mpr ⟨hmain, hlast⟩),
        h.ended ((Descriptors.mainStep_keeps hs).1 ▸ hended) v hmain hlast]
      rfl
  | openFile fd =>
      obtain ⟨u, hu, rfl⟩ := Option.map_eq_some_iff.mp hs
      obtain ⟨f, -, rfl⟩ := Descriptors.socket_eq_some.mp hu
      exact h.ended hended v hmain hlast
  | closeFile fd =>
      obtain ⟨-, rfl⟩ := Option.ite_some_none_eq_some.mp hs
      exact h.ended hended v hmain hlast

/-- A step of a thread or of the files. -/
theorem FdRunInv.step_loaded (h : FdRunInv s) {e : FdEvent}
    (hs : fdStep s.toDescriptors e = some t) (hl : s.keeps t e v = some l) :
    (l.closedBy = none → l.fd ∈ t.lender v) ∧ ∀ k, l.closedBy = some k → k = v.closer := by
  have ht : FdInv t := h.threads.step hs
  cases e with
  | c2s ok n => exact h.c2s_loaded hs ht hl
  | s2c ok n => exact h.s2c_loaded hs ht hl
  | main ok => exact h.main_loaded hs ht hl
  | openFile fd =>
      obtain ⟨u, hu, rfl⟩ := Option.map_eq_some_iff.mp hs
      obtain ⟨f, -, rfl⟩ := Descriptors.socket_eq_some.mp hu
      exact h.loaded v l hl
  | closeFile fd =>
      obtain ⟨-, rfl⟩ := Option.ite_some_none_eq_some.mp hs
      exact h.loaded v l hl

/-- A number is loaded and used before the end alone. -/
theorem FdRunInv.left_of_inScope (h : FdRunInv s) (hv : s.InScope v) : s.main.left? = none := by
  cases v with
  | batch | failed | lag =>
      have htop : s.c2s = .top := hv
      exact h.threads.left_of_c2s (by rw [htop]; simp)
  | main =>
      rcases (hv : s.main = .events ∨ s.main = .joining) with heq | heq <;> rw [heq] <;> rfl
  | last =>
      rw [(hv : s.main = .joining)]
      rfl

/-- **Every step keeps it.** -/
theorem FdRunInv.step (h : FdRunInv s) {e : FdRunEvent} {u : FdRun}
    (hs : fdMachine.step s e = some u) : FdRunInv u := by
  cases e with
  | step e =>
      obtain ⟨t, ht, rfl⟩ := Option.map_eq_some_iff.mp hs
      exact ⟨h.threads.step ht, fun v l hl => h.step_loaded ht hl,
        fun hended v hmain hlast => h.keeps_ended ht hended hmain hlast, h.calls⟩
  | load v =>
      obtain ⟨⟨hv, -⟩, rfl⟩ := Option.ite_some_none_eq_some.mp hs
      refine ⟨h.threads, fun w l hl => ?_, fun hended w hmain hlast => ?_, h.calls⟩
      · dsimp only at hl
        by_cases hwv : w = v
        · subst hwv
          rw [Function.update_self] at hl
          exact Descriptors.load_spec hl
        · rw [Function.update_of_ne hwv] at hl
          exact h.loaded w l hl
      · dsimp only
        by_cases hwv : w = v
        · subst hwv
          cases w with
          | batch | failed | lag => cases (hv : s.c2s = .top).symm.trans hended
          | main => exact absurd rfl hmain
          | last => exact absurd rfl hlast
        · rw [Function.update_of_ne hwv]
          exact h.ended hended w hmain hlast
  | call v =>
      obtain ⟨hv, hs⟩ := Option.ite_none_right_eq_some.mp hs
      obtain ⟨l, hl, rfl⟩ := Option.map_eq_some_iff.mp hs
      refine ⟨h.threads, h.loaded, h.ended, fun c hc => ?_⟩
      rcases List.mem_append.mp hc with hc | hc
      · exact h.calls c hc
      · obtain rfl := List.mem_singleton.mp hc
        obtain ⟨hmem, hcloser⟩ := h.loaded v l hl
        refine ⟨fun hgood => decide_eq_true ?_, hcloser⟩
        exact h.threads.mem_opened (h.left_of_inScope hv)
          (Multiset.mem_of_le (s.lender_le v) (hmem hgood))

/-- Both threads are created, and nothing is loaded yet. -/
structure FdRun.Started (s : FdRun) : Prop where
  threads : s.toDescriptors.Started
  loaded : ∀ v, s.loaded v = none
  calls : s.calls = []

theorem FdRun.Started.inv (h : s.Started) : FdRunInv s := by
  refine ⟨h.threads.inv, fun v l hl => ?_, fun _ v _ _ => h.loaded v, ?_⟩
  · rw [h.loaded v] at hl
    cases hl
  · rw [h.calls]
    exact List.forall_mem_nil _

end

/-! ### Every run -/

/-- **Each descriptor has one holder**: in every run from the start, whatever the order of the
threads and whichever numbers the kernel gives again, no descriptor is closed that is not open,
or used by its holder or inside the mutex, each one that is open is held once, so that none
leaks, at most three are remote sockets, and at the end only the files of the others are open. A
call on a number that was loaded outside of the mutex is on the open socket it was loaded from,
unless the one thread that closes this socket has closed it. -/
theorem descriptors_owned {s t : FdRun} {es : List FdRunEvent} (hs : s.Started)
    (hrun : fdMachine.run s es = some t) :
    t.fds.refused = false ∧ t.fds.opened.val = t.held ∧ t.sockets.card ≤ 3 ∧
      (t.main = .closing [] → t.fds.opened.val = t.files) ∧
      ∀ c ∈ t.calls, (c.on.closedBy = none → c.isOpen = true) ∧
        ∀ k, c.on.closedBy = some k → k = c.var.closer := by
  have h : FdRunInv t := Machine.run_induction (fun _ _ _ hi hstep => hi.step hstep) hs.inv hrun
  refine ⟨h.threads.balanced.not_refused, h.threads.balanced.opened, h.threads.card_sockets_le,
    fun hend => ?_, h.calls⟩
  rw [h.threads.balanced.opened, Descriptors.held, hend]
  simp [MainFdAt.left?]

/-- Both families are connected: 6 is IPv4, 7 is IPv6. -/
def bothConnected : FdRun where
  fds := ⟨{0, 1, 2, 3, 4, 5, 6, 7}, false⟩
  files := {0, 1, 2}
  epfd := 3
  fixed := [4, 5]
  remoteFd := some 6
  remoteFd2 := some 7
  rotOldFd := none
  rotState := .idle
  remoteMu := none
  stopped := false
  c2s := .top
  s2c := .probe
  main := .waiting
  loaded := fun _ => none
  calls := []

theorem bothConnected_started : bothConnected.Started :=
  ⟨⟨by decide, rfl, rfl, rfl, rfl, rfl, rfl⟩, fun _ => rfl, rfl⟩

/-- The probe: IPv6 answers, and 6 is closed. -/
def probeSteps : List FdEvent :=
  [.s2c true 0, .s2c false 0, .s2c true 0, .s2c true 0, .s2c true 0, .s2c true 0, .s2c true 0]

/-- A batch, ahead of which the port moves; the old port is kept on a socket that is 6 again. -/
def moveSteps : List FdEvent :=
  [.c2s true 0, .c2s true 0, .c2s true 0, .c2s true 0, .c2s true 0, .c2s true 6, .c2s true 0,
    .c2s true 0, .c2s true 0, .c2s true 0, .c2s true 0]

/-- A look at the old port; a read, which answers the move; the next one fails, and the reconnect
closes 7 and gets it back. -/
def reconnectSteps : List FdEvent :=
  [.main true, .main true, .s2c true 0, .s2c true 0, .s2c true 0, .s2c true 0, .s2c false 0,
    .s2c true 0, .s2c true 0, .openFile 8, .s2c true 0, .s2c true 0, .s2c true 0, .s2c true 0,
    .s2c true 7, .s2c true 0, .s2c false 0, .s2c true 0, .s2c true 0, .s2c true 0, .closeFile 8]

/-- The old port is let go, and the proxy is to stop. -/
def letGoSteps : List FdEvent :=
  [.main true, .main true, .main true, .main true, .main true, .main true, .main false]

/-- The threads return, and the rest is closed. -/
def endSteps : List FdEvent :=
  [.c2s false 0, .s2c true 0, .s2c false 0, .main true, .main true, .main true, .main true,
    .main true]

/-- The batch goes out on 7, and its copies on 6, the old port's. A send that fails shuts down what
the reconnect has dialled, with 7 for its number again; so does the main thread at the end. -/
def numbersComeBack : List FdRunEvent :=
  (probeSteps ++ moveSteps).map .step ++ [.call .batch, .load .lag, .call .lag] ++
    reconnectSteps.map .step ++ [.load .failed, .call .failed] ++
    letGoSteps.map .step ++ [.load .main, .call .main] ++
    endSteps.map .step

/-- It ends with the streams alone, and each call was on an open socket. -/
theorem descriptors_owned_numbersComeBack : ∃ t,
    fdMachine.run bothConnected numbersComeBack = some t ∧ t.main = .closing [] ∧
      t.fds.opened.val = {0, 1, 2} ∧ t.calls.map (·.on.fd) = [7, 6, 7, 7] ∧
      ∀ c ∈ t.calls, c.isOpen = true := by
  have hend : (fdMachine.run bothConnected numbersComeBack).map
      (fun t => (t.main, t.files, t.calls.map fun c => (c.on.fd, c.on.closedBy))) =
      some (.closing [], {0, 1, 2}, [(7, none), (6, none), (7, none), (7, none)]) := by
    decide +kernel
  obtain ⟨t, ht, hend⟩ := Option.map_eq_some_iff.mp hend
  obtain ⟨hmain, hrest⟩ := Prod.mk.inj hend
  obtain ⟨hfiles, hcalls⟩ := Prod.mk.inj hrest
  obtain ⟨-, -, -, hclosed, hopen⟩ := descriptors_owned bothConnected_started ht
  refine ⟨t, ht, hmain, (hclosed hmain).trans hfiles, ?_, fun c hc => (hopen c hc).1 ?_⟩
  · have hfds := congrArg (List.map Prod.fst) hcalls
    rwa [List.map_map] at hfds
  · have hmem : (c.on.fd, c.on.closedBy) ∈ t.calls.map fun c => (c.on.fd, c.on.closedBy) :=
      List.mem_map_of_mem hc
    rw [hcalls] at hmem
    have hall : ∀ x ∈ [(7, (none : Option FdThread)), (6, none), (7, none), (7, none)],
        x.2 = none := by decide
    exact hall _ hmem

/-- The main thread wakes for its timer. -/
def wakeSteps : List FdEvent :=
  [.main true, .main true]

/-- Of a reconnect: a read fails, and 7 is closed; a file is opened with this number. -/
def closeSteps : List FdEvent :=
  [.s2c true 0, .s2c false 0, .s2c true 0, .s2c true 0, .openFile 7]

/-- The main thread loads 7 and looks up the name; meanwhile a reconnect closes 7, and a file is
opened with this number. -/
def lookUp : List FdRunEvent :=
  (probeSteps ++ wakeSteps).map .step ++ [.load .main] ++
    closeSteps.map .step ++ [.call .main]

/-- **A call outside of the mutex may stray**: this one shuts down what is no socket of the
proxy's. -/
theorem shutdown_strays : ∃ t, fdMachine.run bothConnected lookUp = some t ∧ 7 ∈ t.files ∧
    7 ∉ t.sockets ∧ t.calls = [⟨.main, ⟨7, some .s2c⟩, true⟩] := by
  have hend : (fdMachine.run bothConnected lookUp).map
      (fun t => (decide (7 ∈ t.files), decide (7 ∈ t.sockets), t.calls)) =
      some (true, false, [⟨.main, ⟨7, some .s2c⟩, true⟩]) := by
    decide +kernel
  obtain ⟨t, ht, hend⟩ := Option.map_eq_some_iff.mp hend
  obtain ⟨hfile, hrest⟩ := Prod.mk.inj hend
  obtain ⟨hsocket, hcalls⟩ := Prod.mk.inj hrest
  exact ⟨t, ht, of_decide_eq_true hfile, of_decide_eq_false hsocket, hcalls⟩

end AwgProxy
