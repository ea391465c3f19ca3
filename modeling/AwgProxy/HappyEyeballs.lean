import AwgProxy.Lib.Bytes
import AwgProxy.Lib.Machine

/-!
# The Family Probe

After a dial with addresses of both families the s2c thread watches two sockets (`he_probe`).
The c2s thread keeps a copy of the packet it has sent (`he_stash`), and the probe replays it on
the alternative, first when `he_delay` has passed, then again and again, ever slower; the
socket that speaks first is kept.

The two threads share the copy without a lock. Each of their accesses to it is a step of its
own (`HeEvent.c2s`, `HeEvent.probe`), and the steps come in any order; the outcome of a `poll`
is part of the event, so how long it waits makes no difference. A time is a reading of the
clock: a stash has the time it stores, a copy on the alternative the time it is found due at
and the time it leaves.

* `probe_decidesOnce` — what is left when the probe returns, and what it goes by.
* `probe_spaced` — how far the copies on the alternative are apart.
* `probe_replays` — both, and how old the first stash is when it is copied, in every run in
  which the copy is not overwritten under the eyes of the probe.
-/

namespace AwgProxy

/-! ### The code -/

/-- `HE_PROBE_MAX_MS`. -/
abbrev heProbeMaxMs : ℕ := 15000

/-- `HE_PROBE_SLOW_MS`. -/
abbrev heProbeSlowMs : ℕ := 5000

/-- An address the proxy may connect to, as far as the probe tells them apart. -/
structure HeAddr where
  /-- `sa.ss_family` is `AF_INET6`. -/
  v6 : Bool
  sa : Bytes
  deriving DecidableEq

/-- `revents` of a socket. -/
structure Revents where
  pollin : Bool
  /-- Some other bit, `POLLERR` say. -/
  other : Bool
  deriving DecidableEq

/-- `revents` is not zero. -/
def Revents.any (r : Revents) : Bool := r.pollin || r.other

/-- What the probe starts from: two sockets. -/
structure HeStart where
  /-- The clock. -/
  now : ℕ
  /-- `he_delay`. -/
  heDelay : ℕ
  /-- `remote_fd`. -/
  fd : ℤ
  /-- `remote_fd2`. -/
  fd2 : ℤ
  /-- `remote`. -/
  primary : HeAddr
  /-- `remote_alt`. -/
  alt : HeAddr
  /-- There is an eventfd. -/
  evfd : Bool
  /-- The clock counts the milliseconds since the boot, far below what is signed 64 bits. -/
  now_lt : now < 2 ^ 63
  heDelay_le : heDelay ≤ 5000
  fd_nonneg : 0 ≤ fd
  fd2_nonneg : 0 ≤ fd2
  fd_ne : fd ≠ fd2

/-- Where the c2s thread stands in `he_stash`: at its next store. -/
inductive StashPc
  | idle
  | copy
  | length
  | date
  | raise
  deriving DecidableEq

/-- Where the s2c thread stands in `he_probe`. -/
inductive ProbePc
  /-- Before it takes the time. -/
  | start
  /-- At the loop's condition. -/
  | head
  /-- Past its deadline, before the load of `he_sent`. -/
  | quiet
  /-- At `poll`. -/
  | poll
  /-- Before the loads of the replay: `he_sent`, `he_pkt_len`, the clock, `he_sent_ms`. -/
  | sent
  | length
  | clock
  | since
  /-- Before the `send`. -/
  | send
  /-- Before `he_finish`. -/
  | finish (useAlt learn : Bool)
  | done
  deriving DecidableEq

/-- A copy of the stash on the alternative. -/
structure HeCopy where
  /-- The time it was found due. -/
  time : ℕ
  /-- The time it leaves. -/
  left : ℕ
  /-- The time of the stash it copies; `none` before that stash has one. -/
  stashed : Option ℕ
  /-- The interval it had to wait for, `dup_every`. -/
  interval : ℕ
  bytes : Bytes
  deriving DecidableEq

/-- What the two threads share and what each has of its own, with the record of the copies. -/
structure HeState where
  /-- The clock, in milliseconds. -/
  now : ℕ
  stopped : Bool
  reconnectNeeded : Bool
  remoteFd : ℤ
  remoteFd2 : ℤ
  remote : HeAddr
  remoteV6 : Bool
  remoteAlt : Option HeAddr
  /-- The sockets that were closed. -/
  closed : List ℤ
  /-- The calls of `he_learn`. -/
  learned : List Bool
  heSent : Bool
  hePkt : Bytes
  hePktLen : ℕ
  heSentMs : ℕ
  /-- The time of the stash in `he_pkt`. -/
  pktStashed : Option ℕ
  /-- The packets the client has sent that were stashed. -/
  stashes : ℕ
  /-- c2s: its next store, with the packet. -/
  stashPc : StashPc
  stashData : Bytes
  /-- s2c: the locals of `he_probe`. -/
  pc : ProbePc
  pfd : Revents
  pfd2 : Revents
  probeStart : ℕ
  dupEvery : ℕ
  lastDupMs : ℕ
  replayed : Bool
  probeNow : ℕ
  /-- The copies sent on the alternative, the last one first. -/
  copies : List HeCopy
  deriving DecidableEq

/-- How `poll` returns. -/
inductive PollResult
  /-- `EINTR`. -/
  | interrupted
  | failed
  /-- With these events on the sockets, and on the eventfd or not; all of them empty after a
  timeout. -/
  | ready (pfd pfd2 : Revents) (ev : Bool)

/-- A step of a thread, or of the world around. -/
inductive HeEvent
  /-- Time passes. -/
  | wait (ms : ℕ)
  /-- The proxy is stopped. -/
  | stop
  /-- The watchdog wants a reconnect. -/
  | reconnect
  /-- c2s: `he_stash` is called, up to its first store. -/
  | stash (data : Bytes) (replace : Bool)
  /-- c2s: the next store of `he_stash`. -/
  | c2s
  /-- s2c: the next step of `he_probe`. -/
  | probe
  /-- s2c: `poll` returns. -/
  | poll (r : PollResult)

/-- `(int64_t)(a - b)`. -/
def signedDiff (a b : ℕ) : ℤ :=
  let d : ℕ := (a + (2 ^ 64 - b % 2 ^ 64)) % 2 ^ 64
  if d < 2 ^ 63 then d else d - 2 ^ 64

/-- The size of `he_pkt`. -/
abbrev hePktSize : ℕ := 1756

namespace HeStart

variable (st : HeStart)

/-- `dup_every` at the start. -/
def dupEvery : ℕ := if st.heDelay > 0 then st.heDelay else 250

/-- Where `he_probe` is called: behind the dial, with nothing stashed. -/
def state : HeState where
  now := st.now
  stopped := false
  reconnectNeeded := false
  remoteFd := st.fd
  remoteFd2 := st.fd2
  remote := st.primary
  remoteV6 := st.primary.v6
  remoteAlt := some st.alt
  closed := []
  learned := []
  heSent := false
  hePkt := []
  hePktLen := 0
  heSentMs := 0
  pktStashed := none
  stashes := 0
  stashPc := .idle
  stashData := []
  pc := .start
  pfd := ⟨false, false⟩
  pfd2 := ⟨false, false⟩
  probeStart := 0
  dupEvery := st.dupEvery
  lastDupMs := 0
  replayed := false
  probeNow := 0
  copies := []

end HeStart

/-- `he_stash`, up to its first store. -/
def heStash (s : HeState) (data : Bytes) (replace : Bool) : HeState :=
  if s.remoteFd2 < 0 then s
  else if replace = false ∧ s.heSent = true then s
  else if data.length = 0 ∨ data.length > hePktSize then s
  else { s with heSent := false, stashPc := .copy, stashData := data, stashes := s.stashes + 1 }

/-- Its next store. -/
def heStashStep (s : HeState) : Option HeState :=
  match s.stashPc with
  | .idle => none
  | .copy => some { s with
      hePkt := s.stashData ++ s.hePkt.drop s.stashData.length, pktStashed := none
      stashPc := .length }
  | .length => some { s with hePktLen := s.stashData.length, stashPc := .date }
  | .date => some { s with heSentMs := s.now, pktStashed := some s.now, stashPc := .raise }
  | .raise => some { s with heSent := true, stashPc := .idle }

/-- `he_finish`. -/
def heFinish (s : HeState) (useAlt learn : Bool) : HeState :=
  if s.remoteFd2 < 0 then s
  else
    let s' := if useAlt then
        let remote := s.remoteAlt.getD s.remote
        { s with
          remoteFd2 := -1, remote := remote, remoteV6 := remote.v6, remoteFd := s.remoteFd2
          closed := if s.remoteFd ≥ 0 then s.remoteFd :: s.closed else s.closed }
      else { s with remoteFd2 := -1, closed := s.remoteFd2 :: s.closed }
    { s' with
      remoteAlt := none
      learned := if learn then s'.remote.v6 :: s'.learned else s'.learned }

/-- A replay is due. -/
def HeState.due (st : HeStart) (s : HeState) : Prop :=
  if s.replayed then (s.dupEvery : ℤ) ≤ signedDiff s.probeNow s.lastDupMs
  else (st.heDelay : ℤ) ≤ signedDiff s.probeNow s.heSentMs

instance (st : HeStart) (s : HeState) : Decidable (s.due st) :=
  inferInstanceAs (Decidable (if s.replayed then _ else _))

/-- The next step of `he_probe`. -/
def heProbeStep (st : HeStart) (s : HeState) : Option HeState :=
  match s.pc with
  | .start => some { s with probeStart := s.now, pc := .head }
  | .head =>
      if s.stopped || s.reconnectNeeded then some { s with pc := .finish false false }
      else if (s.now + (2 ^ 64 - s.probeStart % 2 ^ 64)) % 2 ^ 64 ≥ heProbeMaxMs then
        some { s with probeNow := s.now, pc := .quiet }
      else some { s with probeNow := s.now, pc := .poll }
  | .quiet =>
      -- nothing to probe with, or both silent: the next window sounds them slower
      if s.heSent = false then some { s with pc := .finish false false }
      else some { s with
        probeStart := s.probeNow
        dupEvery := if s.dupEvery < heProbeSlowMs then min (s.dupEvery * 2) heProbeSlowMs
          else s.dupEvery
        pc := .head }
  | .poll => none
  | .sent => some { s with pc := if s.heSent then .length else .head }
  | .length => some { s with pc := if s.hePktLen > 0 then .clock else .head }
  | .clock => some { s with probeNow := s.now, pc := .since }
  | .since => some { s with pc := if s.due st then .send else .head }
  | .send => some { s with
      copies := ⟨s.probeNow, s.now, s.pktStashed, s.dupEvery, s.hePkt.take s.hePktLen⟩ :: s.copies
      lastDupMs := s.probeNow, replayed := true, pc := .head }
  | .finish useAlt learn => some { heFinish s useAlt learn with pc := .done }
  | .done => none

/-- The alternative is taken. -/
def useAlt (pfd pfd2 : Revents) : Bool :=
  if pfd.pollin then false else if pfd2.pollin then true else pfd.any

/-- `poll` returns. -/
def hePoll (st : HeStart) (s : HeState) : PollResult → Option HeState
  | .interrupted => some { s with pc := .head }
  | .failed => some { s with pc := .finish false false }
  | .ready pfd pfd2 ev =>
      if ev = true ∧ st.evfd = false then none
      else some { s with
        pfd := pfd, pfd2 := pfd2
        pc := if pfd.any || pfd2.any then .finish (useAlt pfd pfd2) true else .sent }

/-- A step. -/
def heStep (st : HeStart) (s : HeState) : HeEvent → Option HeState
  | .wait ms => if s.now + ms < 2 ^ 63 then some { s with now := s.now + ms } else none
  | .stop => some { s with stopped := true }
  | .reconnect => some { s with reconnectNeeded := true }
  | .stash data replace => if s.stashPc = .idle then some (heStash s data replace) else none
  | .c2s => heStashStep s
  | .probe => heProbeStep st s
  | .poll r => if s.pc = .poll then hePoll st s r else none

/-- The probe beside the c2s thread, under every schedule. -/
def heMachine (st : HeStart) : Machine HeState HeEvent where
  step := heStep st

/-! ### What the probe is for -/

/-- What speaks for the alternative: it is readable and the primary is not, or the primary
reports an error and neither is. -/
def SpeaksForAlt (s : HeState) : Prop :=
  s.pfd2.pollin = true ∧ s.pfd.pollin = false ∨
    s.pfd.any = true ∧ s.pfd.pollin = false ∧ s.pfd2.pollin = false

/-- One socket is left, the other is closed, and the choice goes by what the sockets said. -/
structure Committed (st : HeStart) (s : HeState) : Prop where
  remoteFd2 : s.remoteFd2 = -1
  remoteV6 : s.remoteV6 = s.remote.v6
  left : s.remoteFd = st.fd ∧ s.remote = st.primary ∧ s.closed = [st.fd2] ∨
    s.remoteFd = st.fd2 ∧ s.remote = st.alt ∧ s.closed = [st.fd] ∧ SpeaksForAlt s
  learned : s.learned ≠ [] → s.pfd.any = true ∨ s.pfd2.any = true

/-- The copies on the alternative: none before the client has sent something, and each found
due at least an interval behind the one before it; the interval never gets shorter and stays
within its bounds. A copy leaves at the reading it is found due at, or later. -/
structure Spaced (st : HeStart) (s : HeState) : Prop where
  sent : s.copies ≠ [] → 0 < s.stashes
  apart : s.copies.IsChain fun c d => d.time + c.interval ≤ c.time ∧ d.interval ≤ c.interval
  interval : ∀ c ∈ s.copies, st.dupEvery ≤ c.interval ∧ c.interval ≤ heProbeSlowMs
  left : ∀ c ∈ s.copies, c.time ≤ c.left

/-- The first copy is found due no earlier than `he_delay` after the stash it copies. -/
def FirstCopyWaits (st : HeStart) (s : HeState) : Prop :=
  ∀ c, s.copies.getLast? = some c → ∃ t, c.stashed = some t ∧ t + st.heDelay ≤ c.time

/-- Until the first copy has left, the stash is not overwritten between the load of its time and
the `send`: the probe does not find a copy due while a packet is stored and its time is not,
and no packet is stored once it has. -/
def KeepsCopy (st : HeStart) (s : HeState) : HeEvent → Prop
  | .c2s => s.replayed = false → s.pc = .send → s.stashPc ≠ .copy
  | .probe => s.replayed = false → s.pc = .since → s.due st →
      s.stashPc ≠ .length ∧ s.stashPc ≠ .date
  | _ => True

instance (st : HeStart) (s : HeState) (e : HeEvent) : Decidable (KeepsCopy st s e) :=
  match e with
  | .c2s => inferInstanceAs (Decidable (_ → _ → _))
  | .probe => inferInstanceAs (Decidable (_ → _ → _ → _))
  | .wait _ | .stop | .reconnect | .stash .. | .poll _ => isTrue trivial

/-! ### Steps -/

/-- Differences of times are exact. -/
theorem signedDiff_eq {a b : ℕ} (ha : a < 2 ^ 63) (hb : b < 2 ^ 63) :
    signedDiff a b = (a : ℤ) - b := by
  rw [signedDiff]
  split <;> omega

/-- What a step of the c2s thread does, or one of the world around. -/
inductive ClientMove (s : HeState) : HeState → Prop
  | wait (ms : ℕ) (hms : s.now + ms < 2 ^ 63) : ClientMove s { s with now := s.now + ms }
  /-- A flag is set, or a packet is not stashed. -/
  | world (stopped reconnectNeeded : Bool) :
      ClientMove s { s with stopped := stopped, reconnectNeeded := reconnectNeeded }
  | stash (data : Bytes) (hpc : s.stashPc = .idle) (hlen : 0 < data.length) :
      ClientMove s { s with
        heSent := false, stashPc := .copy, stashData := data, stashes := s.stashes + 1 }
  | copy (hpc : s.stashPc = .copy) : ClientMove s { s with
      hePkt := s.stashData ++ s.hePkt.drop s.stashData.length, pktStashed := none
      stashPc := .length }
  | length (hpc : s.stashPc = .length) :
      ClientMove s { s with hePktLen := s.stashData.length, stashPc := .date }
  | date (hpc : s.stashPc = .date) : ClientMove s { s with
      heSentMs := s.now, pktStashed := some s.now, stashPc := .raise }
  | raise (hpc : s.stashPc = .raise) : ClientMove s { s with heSent := true, stashPc := .idle }

/-- What a step of the probe does. -/
inductive ProbeMove (st : HeStart) (s : HeState) : HeState → Prop
  /-- The loop goes round, or it ends without a verdict. -/
  | loop (probeStart probeNow : ℕ) (pc : ProbePc) (hpc : s.pc ≠ .done)
      (hnow : probeNow = s.probeNow ∨ probeNow = s.now)
      (hloop : pc = .head ∨ pc = .quiet ∨ pc = .poll ∨ pc = .finish false false) :
      ProbeMove st s { s with probeStart := probeStart, probeNow := probeNow, pc := pc }
  | slower (hpc : s.pc = .quiet) : ProbeMove st s { s with
      probeStart := s.probeNow
      dupEvery := if s.dupEvery < heProbeSlowMs then min (s.dupEvery * 2) heProbeSlowMs
        else s.dupEvery
      pc := .head }
  | answered (pfd pfd2 : Revents) (hpc : s.pc = .poll) (hany : pfd.any || pfd2.any) :
      ProbeMove st s { s with
        pfd := pfd, pfd2 := pfd2, pc := .finish (useAlt pfd pfd2) true }
  | silent (pfd pfd2 : Revents) (hpc : s.pc = .poll) :
      ProbeMove st s { s with pfd := pfd, pfd2 := pfd2, pc := .sent }
  | sent (hpc : s.pc = .sent) (hsent : s.heSent = true) : ProbeMove st s { s with pc := .length }
  | length (hpc : s.pc = .length) (hlen : 0 < s.hePktLen) : ProbeMove st s { s with pc := .clock }
  | clock (hpc : s.pc = .clock) : ProbeMove st s { s with probeNow := s.now, pc := .since }
  | due (hpc : s.pc = .since) (hdue : s.due st) : ProbeMove st s { s with pc := .send }
  | send (hpc : s.pc = .send) : ProbeMove st s { s with
      copies := ⟨s.probeNow, s.now, s.pktStashed, s.dupEvery, s.hePkt.take s.hePktLen⟩ :: s.copies
      lastDupMs := s.probeNow, replayed := true, pc := .head }
  | finish (useAlt learn : Bool) (hpc : s.pc = .finish useAlt learn) :
      ProbeMove st s { heFinish s useAlt learn with pc := .done }

theorem clientMove_heStash {s : HeState} (hpc : s.stashPc = .idle) (data : Bytes)
    (replace : Bool) : ClientMove s (heStash s data replace) := by
  rw [heStash]
  split_ifs with hfd hsent hlen
  · exact .world s.stopped s.reconnectNeeded
  · exact .world s.stopped s.reconnectNeeded
  · exact .world s.stopped s.reconnectNeeded
  · exact .stash data hpc (by omega)

theorem clientMove_heStashStep {s s' : HeState} (h : heStashStep s = some s') :
    ClientMove s s' := by
  rw [heStashStep] at h
  split at h
  case h_1 => cases h
  case h_2 hpc =>
    obtain rfl := Option.some.inj h
    exact .copy hpc
  case h_3 hpc =>
    obtain rfl := Option.some.inj h
    exact .length hpc
  case h_4 hpc =>
    obtain rfl := Option.some.inj h
    exact .date hpc
  case h_5 hpc =>
    obtain rfl := Option.some.inj h
    exact .raise hpc

theorem probeMove_heProbeStep {st : HeStart} {s s' : HeState}
    (h : heProbeStep st s = some s') : ProbeMove st s s' := by
  have hloop : ∀ pc, s.pc ≠ .done →
      (pc = .head ∨ pc = .quiet ∨ pc = .poll ∨ pc = .finish false false) →
      ProbeMove st s { s with pc := pc } :=
    fun pc hpc hpc' => .loop s.probeStart s.probeNow pc hpc (.inl rfl) hpc'
  rw [heProbeStep] at h
  split at h
  case h_1 hpc =>
    obtain rfl := Option.some.inj h
    exact .loop s.now s.probeNow .head (by simp [hpc]) (.inl rfl) (.inl rfl)
  case h_2 hpc =>
    split_ifs at h <;> obtain rfl := Option.some.inj h
    · exact hloop _ (by simp [hpc]) (.inr (.inr (.inr rfl)))
    · exact .loop s.probeStart s.now .quiet (by simp [hpc]) (.inr rfl) (.inr (.inl rfl))
    · exact .loop s.probeStart s.now .poll (by simp [hpc]) (.inr rfl) (.inr (.inr (.inl rfl)))
  case h_3 hpc =>
    by_cases hsent : s.heSent = false
    · obtain rfl := Option.some.inj ((if_pos hsent).symm.trans h)
      exact hloop _ (by simp [hpc]) (.inr (.inr (.inr rfl)))
    · obtain rfl := Option.some.inj ((if_neg hsent).symm.trans h)
      exact .slower hpc
  case h_4 => cases h
  case h_5 hpc =>
    obtain rfl := Option.some.inj h
    split_ifs with hsent
    · exact .sent hpc hsent
    · exact hloop _ (by simp [hpc]) (.inl rfl)
  case h_6 hpc =>
    obtain rfl := Option.some.inj h
    split_ifs with hlen
    · exact .length hpc hlen
    · exact hloop _ (by simp [hpc]) (.inl rfl)
  case h_7 hpc =>
    obtain rfl := Option.some.inj h
    exact .clock hpc
  case h_8 hpc =>
    obtain rfl := Option.some.inj h
    split_ifs with hdue
    · exact .due hpc hdue
    · exact hloop _ (by simp [hpc]) (.inl rfl)
  case h_9 hpc =>
    obtain rfl := Option.some.inj h
    exact .send hpc
  case h_10 useAlt learn hpc =>
    obtain rfl := Option.some.inj h
    exact .finish useAlt learn hpc
  case h_11 => cases h

theorem probeMove_hePoll {st : HeStart} {s s' : HeState} {r : PollResult}
    (hpc : s.pc = .poll) (h : hePoll st s r = some s') : ProbeMove st s s' := by
  cases r with
  | interrupted =>
      obtain rfl := Option.some.inj h
      exact .loop s.probeStart s.probeNow .head (by simp [hpc]) (.inl rfl) (.inl rfl)
  | failed =>
      obtain rfl := Option.some.inj h
      exact .loop s.probeStart s.probeNow _ (by simp [hpc]) (.inl rfl) (.inr (.inr (.inr rfl)))
  | ready pfd pfd2 ev =>
      obtain ⟨-, h⟩ := Option.ite_none_left_eq_some.mp h
      obtain rfl := Option.some.inj h
      split_ifs with hany
      · exact .answered pfd pfd2 hpc hany
      · exact .silent pfd pfd2 hpc

/-- Once it has returned the probe takes no step. -/
theorem ProbeMove.pc_ne {st : HeStart} {s s' : HeState} (h : ProbeMove st s s') :
    s.pc ≠ .done := by
  cases h <;> simp [*]

/-- **A step** is one of the probe, or it leaves the probe alone; the two the guard speaks of
are known by their event. -/
theorem heStep_cases {st : HeStart} {s s' : HeState} {e : HeEvent}
    (h : heStep st s e = some s') :
    ProbeMove st s s' ∧ (s.pc = .since → e = .probe) ∨
      ClientMove s s' ∧ (s'.stashPc = .length → s.stashPc = .length ∨ e = .c2s) := by
  cases e with
  | wait ms =>
      obtain ⟨hms, h⟩ := Option.ite_none_right_eq_some.mp h
      obtain rfl := Option.some.inj h
      exact .inr ⟨.wait ms hms, .inl⟩
  | stop =>
      obtain rfl := Option.some.inj h
      exact .inr ⟨.world true s.reconnectNeeded, .inl⟩
  | reconnect =>
      obtain rfl := Option.some.inj h
      exact .inr ⟨.world s.stopped true, .inl⟩
  | stash data replace =>
      obtain ⟨hpc, h⟩ := Option.ite_none_right_eq_some.mp h
      obtain rfl := Option.some.inj h
      refine .inr ⟨clientMove_heStash hpc data replace, fun hlength => .inl ?_⟩
      rw [heStash] at hlength
      split_ifs at hlength <;> exact hlength
  | c2s => exact .inr ⟨clientMove_heStashStep h, fun _ => .inr rfl⟩
  | probe => exact .inl ⟨probeMove_heProbeStep h, fun _ => rfl⟩
  | poll r =>
      obtain ⟨hpc, h⟩ := Option.ite_none_right_eq_some.mp h
      exact .inl ⟨probeMove_hePoll hpc h, fun hsince => by simp [hpc] at hsince⟩

/-- The probe is left alone. -/
structure SameProbe (s s' : HeState) : Prop where
  remoteFd : s'.remoteFd = s.remoteFd
  remoteFd2 : s'.remoteFd2 = s.remoteFd2
  remote : s'.remote = s.remote
  remoteV6 : s'.remoteV6 = s.remoteV6
  remoteAlt : s'.remoteAlt = s.remoteAlt
  closed : s'.closed = s.closed
  learned : s'.learned = s.learned
  pc : s'.pc = s.pc
  pfd : s'.pfd = s.pfd
  pfd2 : s'.pfd2 = s.pfd2
  dupEvery : s'.dupEvery = s.dupEvery
  lastDupMs : s'.lastDupMs = s.lastDupMs
  replayed : s'.replayed = s.replayed
  probeNow : s'.probeNow = s.probeNow
  copies : s'.copies = s.copies

theorem ClientMove.sameProbe {s s' : HeState} (h : ClientMove s s') : SameProbe s s' := by
  cases h <;> exact ⟨rfl, rfl, rfl, rfl, rfl, rfl, rfl, rfl, rfl, rfl, rfl, rfl, rfl, rfl, rfl⟩

/-! ### The sockets -/

/-- Both sockets are there, and nothing is decided. -/
structure TwoSockets (st : HeStart) (s : HeState) : Prop where
  remoteFd : s.remoteFd = st.fd
  remoteFd2 : s.remoteFd2 = st.fd2
  remote : s.remote = st.primary
  remoteV6 : s.remoteV6 = st.primary.v6
  remoteAlt : s.remoteAlt = some st.alt
  closed : s.closed = []
  learned : s.learned = []

/-- What the probe is about to do has its grounds. -/
structure Grounds (s : HeState) (useAlt learn : Bool) : Prop where
  alt : useAlt = true → SpeaksForAlt s
  learn : learn = true → s.pfd.any = true ∨ s.pfd2.any = true

/-- The probe decides once, at its end, and on grounds. -/
structure DecidesOnce (st : HeStart) (s : HeState) : Prop where
  before : s.pc ≠ .done → TwoSockets st s
  grounds : ∀ useAlt learn, s.pc = .finish useAlt learn → Grounds s useAlt learn
  after : s.pc = .done → Committed st s

theorem SpeaksForAlt.of_sameProbe {s s' : HeState} (hs : SameProbe s s')
    (h : SpeaksForAlt s) : SpeaksForAlt s' := by
  rw [SpeaksForAlt, hs.pfd, hs.pfd2]
  exact h

theorem TwoSockets.of_sameProbe {st : HeStart} {s s' : HeState} (hs : SameProbe s s')
    (h : TwoSockets st s) : TwoSockets st s' where
  remoteFd := hs.remoteFd.trans h.remoteFd
  remoteFd2 := hs.remoteFd2.trans h.remoteFd2
  remote := hs.remote.trans h.remote
  remoteV6 := hs.remoteV6.trans h.remoteV6
  remoteAlt := hs.remoteAlt.trans h.remoteAlt
  closed := hs.closed.trans h.closed
  learned := hs.learned.trans h.learned

theorem Committed.of_sameProbe {st : HeStart} {s s' : HeState} (hs : SameProbe s s')
    (h : Committed st s) : Committed st s' where
  remoteFd2 := hs.remoteFd2.trans h.remoteFd2
  remoteV6 := by rw [hs.remoteV6, hs.remote, h.remoteV6]
  left := by
    rw [hs.remoteFd, hs.remote, hs.closed]
    exact h.left.imp_right fun ⟨hfd, hremote, hclosed, halt⟩ =>
      ⟨hfd, hremote, hclosed, halt.of_sameProbe hs⟩
  learned := by
    rw [hs.learned, hs.pfd, hs.pfd2]
    exact h.learned

theorem DecidesOnce.of_sameProbe {st : HeStart} {s s' : HeState} (hs : SameProbe s s')
    (h : DecidesOnce st s) : DecidesOnce st s' where
  before hpc := (h.before (hs.pc ▸ hpc)).of_sameProbe hs
  grounds useAlt learn hpc := by
    obtain ⟨halt, hlearn⟩ := h.grounds useAlt learn (hs.pc ▸ hpc)
    refine ⟨fun hu => (halt hu).of_sameProbe hs, ?_⟩
    rwa [hs.pfd, hs.pfd2]
  after hpc := (h.after (hs.pc ▸ hpc)).of_sameProbe hs

/-- In the loop both sockets are there, and its own exit is no verdict. -/
theorem DecidesOnce.loop {st : HeStart} {s : HeState} (htwo : TwoSockets st s)
    (hpc : s.pc = .finish false false ∨ ∀ useAlt learn, s.pc ≠ .finish useAlt learn)
    (hdone : s.pc ≠ .done) : DecidesOnce st s where
  before _ := htwo
  grounds useAlt learn hfinish := by
    rcases hpc with hpc | hpc
    · obtain ⟨rfl, rfl⟩ := ProbePc.finish.inj (hpc.symm.trans hfinish)
      exact ⟨(absurd · Bool.false_ne_true), (absurd · Bool.false_ne_true)⟩
    · exact absurd hfinish (hpc useAlt learn)
  after h := absurd h hdone

/-- `he_finish` on the alternative. -/
theorem heFinish_alt {st : HeStart} {s : HeState} (h : TwoSockets st s) (learn : Bool) :
    heFinish s true learn = { s with
      remoteFd := st.fd2, remoteFd2 := -1, remote := st.alt, remoteV6 := st.alt.v6
      remoteAlt := none, closed := [st.fd], learned := if learn then [st.alt.v6] else [] } := by
  obtain ⟨hfd, hfd2, -, -, halt, hclosed, hlearned⟩ := h
  have hopen : ¬ st.fd2 < 0 := not_lt.mpr st.fd2_nonneg
  simp only [heFinish, hfd, hfd2, halt, hclosed, hlearned, if_neg hopen, if_true,
    if_pos st.fd_nonneg.ge, Option.getD_some]

/-- `he_finish` on the primary. -/
theorem heFinish_primary {st : HeStart} {s : HeState} (h : TwoSockets st s) (learn : Bool) :
    heFinish s false learn = { s with
      remoteFd2 := -1, remoteAlt := none, closed := [st.fd2]
      learned := if learn then [st.primary.v6] else [] } := by
  obtain ⟨-, hfd2, hremote, -, -, hclosed, hlearned⟩ := h
  have hopen : ¬ st.fd2 < 0 := not_lt.mpr st.fd2_nonneg
  simp only [heFinish, hfd2, hremote, hclosed, hlearned, if_neg hopen, Bool.false_eq_true,
    if_false]

/-- `he_finish` leaves one socket, and on grounds. -/
theorem committed_heFinish {st : HeStart} {s : HeState} {useAlt learn : Bool}
    (htwo : TwoSockets st s) (hgrounds : Grounds s useAlt learn) :
    Committed st { heFinish s useAlt learn with pc := .done } := by
  have hlearn : ∀ v6, (if learn then [v6] else []) ≠ ([] : List Bool) →
      s.pfd.any = true ∨ s.pfd2.any = true := by
    intro v6 hne
    refine hgrounds.learn (by_contra fun hl => hne (if_neg hl))
  cases useAlt with
  | true =>
      rw [heFinish_alt htwo]
      exact ⟨rfl, rfl, .inr ⟨rfl, rfl, rfl, hgrounds.alt rfl⟩, hlearn _⟩
  | false =>
      rw [heFinish_primary htwo]
      exact ⟨rfl, htwo.remoteV6.trans (congrArg _ htwo.remote.symm),
        .inl ⟨htwo.remoteFd, htwo.remote, rfl⟩, hlearn _⟩

/-- A verdict after `poll` has its grounds. -/
theorem grounds_useAlt {s : HeState} (h : s.pfd.any || s.pfd2.any) :
    Grounds s (useAlt s.pfd s.pfd2) true where
  alt hu := by
    rw [useAlt] at hu
    split_ifs at hu with hpfd hpfd2
    · exact .inl ⟨hpfd2, Bool.eq_false_of_not_eq_true hpfd⟩
    · exact .inr ⟨hu, Bool.eq_false_of_not_eq_true hpfd, Bool.eq_false_of_not_eq_true hpfd2⟩
  learn _ := Bool.or_eq_true _ _ ▸ h

theorem DecidesOnce.probeMove {st : HeStart} {s s' : HeState} (h : DecidesOnce st s)
    (hs : ProbeMove st s s') : DecidesOnce st s' := by
  have htwo := h.before hs.pc_ne
  cases hs with
  | loop _ _ pc _ _ hloop =>
      refine .loop { htwo with } ?_ ?_
      all_goals rcases hloop with rfl | rfl | rfl | rfl <;> simp
  | answered pfd pfd2 _ hany =>
      refine ⟨fun _ => { htwo with }, ?_, nofun⟩
      rintro useAlt learn hfinish
      obtain ⟨rfl, rfl⟩ := ProbePc.finish.inj hfinish
      exact grounds_useAlt hany
  | finish useAlt learn hpc =>
      exact ⟨(absurd rfl ·), nofun, fun _ => committed_heFinish htwo (h.grounds _ _ hpc)⟩
  | slower => exact .loop { htwo with } (.inr nofun) nofun
  | silent => exact .loop { htwo with } (.inr nofun) nofun
  | sent => exact .loop { htwo with } (.inr nofun) nofun
  | length => exact .loop { htwo with } (.inr nofun) nofun
  | clock => exact .loop { htwo with } (.inr nofun) nofun
  | due => exact .loop { htwo with } (.inr nofun) nofun
  | send => exact .loop { htwo with } (.inr nofun) nofun

/-- **The probe decides once**, whatever the schedule. -/
theorem probe_decidesOnce {st : HeStart} {es : List HeEvent} {s : HeState}
    (hrun : (heMachine st).run st.state es = some s) : DecidesOnce st s := by
  refine Machine.run_induction ?_ ?_ hrun
  · intro s e s' hi hs
    rcases heStep_cases hs with ⟨hmove, -⟩ | ⟨hmove, -⟩
    · exact hi.probeMove hmove
    · exact hi.of_sameProbe hmove.sameProbe
  · exact .loop ⟨rfl, rfl, rfl, rfl, rfl, rfl, rfl⟩ (.inr nofun) nofun

/-! ### The copies -/

/-- The clock, the intervals, and what the copies have behind them. -/
structure KeepsTime (st : HeStart) (s : HeState) : Prop where
  now_lt : s.now < 2 ^ 63
  heSentMs_le : s.heSentMs ≤ s.now
  lastDupMs_le : s.lastDupMs ≤ s.now
  probeNow_le : s.probeNow ≤ s.now
  le_dupEvery : st.dupEvery ≤ s.dupEvery
  dupEvery_le : s.dupEvery ≤ heProbeSlowMs
  due : s.pc = .send → s.replayed = true → s.lastDupMs + s.dupEvery ≤ s.probeNow
  first : s.replayed = false → s.copies = []
  last : s.replayed = true → ∃ c cs, s.copies = c :: cs ∧ c.time = s.lastDupMs
  apart : s.copies.IsChain fun c d => d.time + c.interval ≤ c.time ∧ d.interval ≤ c.interval
  interval : ∀ c ∈ s.copies, st.dupEvery ≤ c.interval ∧ c.interval ≤ s.dupEvery
  left : ∀ c ∈ s.copies, c.time ≤ c.left

/-- `he_finish` is about the sockets. -/
theorem heFinish_frame (s : HeState) (useAlt learn : Bool) :
    ∃ fd fd2 remote v6 alt closed learned, heFinish s useAlt learn = { s with
      remoteFd := fd, remoteFd2 := fd2, remote := remote, remoteV6 := v6, remoteAlt := alt
      closed := closed, learned := learned } := by
  rw [heFinish]
  split_ifs <;> exact ⟨_, _, _, _, _, _, _, rfl⟩

/-- Whatever is replayed comes from the client. -/
structure AfterClient (s : HeState) : Prop where
  sent : s.heSent = true → 0 < s.stashes
  stored : s.stashPc ≠ .idle → 0 < s.stashes
  replaying : s.pc = .length ∨ s.pc = .clock ∨ s.pc = .since ∨ s.pc = .send → 0 < s.stashes
  copied : s.copies ≠ [] → 0 < s.stashes

theorem AfterClient.clientMove {s s' : HeState} (h : AfterClient s) (hs : ClientMove s s') :
    AfterClient s' := by
  cases hs with
  | stash data _ _ =>
      have hpos : 0 < s.stashes + 1 := Nat.succ_pos _
      exact ⟨fun _ => hpos, fun _ => hpos, fun _ => hpos, fun _ => hpos⟩
  | raise hpc =>
      have hpos : 0 < s.stashes := h.stored (by simp [hpc])
      exact ⟨fun _ => hpos, fun _ => hpos, fun _ => hpos, fun _ => hpos⟩
  | wait | world => exact { h with }
  | copy hpc | length hpc | date hpc =>
      exact { h with stored := fun _ => h.stored (by simp [hpc]) }

theorem AfterClient.probeMove {st : HeStart} {s s' : HeState} (h : AfterClient s)
    (hs : ProbeMove st s s') : AfterClient s' := by
  cases hs with
  | loop _ _ pc _ _ hloop =>
      refine { h with replaying := ?_ }
      rcases hloop with rfl | rfl | rfl | rfl <;> simp
  | slower | answered | silent => exact { h with replaying := by simp }
  | sent hpc hsent => exact { h with replaying := fun _ => h.sent hsent }
  | length hpc | clock hpc | due hpc =>
      exact { h with replaying := fun _ => h.replaying (by simp [hpc]) }
  | send hpc =>
      exact { h with replaying := by simp, copied := fun _ => h.replaying (by simp [hpc]) }
  | finish useAlt learn _ =>
      obtain ⟨_, _, _, _, _, _, _, heq⟩ := heFinish_frame s useAlt learn
      rw [heq]
      exact { h with replaying := by simp }

theorem KeepsTime.clientMove {st : HeStart} {s s' : HeState} (h : KeepsTime st s)
    (hs : ClientMove s s') : KeepsTime st s' := by
  cases hs with
  | wait ms hms =>
      have hle : s.now ≤ s.now + ms := Nat.le_add_right _ _
      exact { h with
        now_lt := hms, heSentMs_le := h.heSentMs_le.trans hle
        lastDupMs_le := h.lastDupMs_le.trans hle, probeNow_le := h.probeNow_le.trans hle }
  | date => exact { h with heSentMs_le := le_rfl }
  | world | stash | copy | length | raise => exact { h with }

theorem KeepsTime.probeMove {st : HeStart} {s s' : HeState} (h : KeepsTime st s)
    (hs : ProbeMove st s s') : KeepsTime st s' := by
  cases hs with
  | loop _ probeNow pc _ hnow hloop =>
      refine { h with probeNow_le := ?_, due := ?_ }
      · rcases hnow with rfl | rfl
        · exact h.probeNow_le
        · exact le_rfl
      · rcases hloop with rfl | rfl | rfl | rfl <;> simp
  | slower =>
      -- the interval doubles, up to its limit
      have hle := h.dupEvery_le
      set dupEvery := if s.dupEvery < heProbeSlowMs then min (s.dupEvery * 2) heProbeSlowMs
        else s.dupEvery with hdup
      have hgrows : s.dupEvery ≤ dupEvery ∧ dupEvery ≤ heProbeSlowMs := by
        rw [hdup]
        split_ifs <;> omega
      exact { h with
        le_dupEvery := h.le_dupEvery.trans hgrows.1, dupEvery_le := hgrows.2, due := by simp
        interval := fun c hc => (h.interval c hc).imp_right fun hc' => hc'.trans hgrows.1 }
  | answered | silent | sent | length => exact { h with due := by simp }
  | clock => exact { h with due := by simp, probeNow_le := le_rfl }
  | due hpc hdue =>
      refine { h with due := fun _ hreplayed => ?_ }
      rw [HeState.due, if_pos hreplayed, signedDiff_eq (h.probeNow_le.trans_lt h.now_lt)
        (h.lastDupMs_le.trans_lt h.now_lt)] at hdue
      change s.lastDupMs + s.dupEvery ≤ s.probeNow
      omega
  | send hpc =>
      refine { h with
        lastDupMs_le := h.probeNow_le, due := by simp, first := by simp
        last := fun _ => ⟨_, _, rfl, rfl⟩, apart := ?_, interval := ?_, left := ?_ }
      · cases hreplayed : s.replayed with
        | false =>
            rw [h.first hreplayed]
            exact .singleton _
        | true =>
            obtain ⟨c, cs, hcopies, hlast⟩ := h.last hreplayed
            have hchain := h.apart
            rw [hcopies] at hchain ⊢
            refine hchain.cons_cons ⟨?_, ?_⟩
            · rw [hlast]
              exact h.due hpc hreplayed
            · exact (h.interval c (by simp [hcopies])).2
      · rintro c (_ | ⟨_, hc⟩)
        · exact ⟨h.le_dupEvery, le_rfl⟩
        · exact h.interval c hc
      · rintro c (_ | ⟨_, hc⟩)
        · exact h.probeNow_le
        · exact h.left c hc
  | finish useAlt learn _ =>
      obtain ⟨_, _, _, _, _, _, _, heq⟩ := heFinish_frame s useAlt learn
      rw [heq]
      exact { h with due := by simp }

theorem keepsTime_state (st : HeStart) : KeepsTime st st.state := by
  have hdup : st.dupEvery ≤ heProbeSlowMs := by
    have := st.heDelay_le
    rw [HeStart.dupEvery, heProbeSlowMs]
    split_ifs <;> omega
  exact ⟨st.now_lt, Nat.zero_le _, Nat.zero_le _, Nat.zero_le _, le_rfl, hdup, nofun,
    fun _ => rfl, nofun, .nil, nofun, nofun⟩

/-- Time is kept under every schedule. -/
theorem probe_keepsTime {st : HeStart} {es : List HeEvent} {s : HeState}
    (hrun : (heMachine st).run st.state es = some s) : KeepsTime st s := by
  refine Machine.run_induction ?_ (keepsTime_state st) hrun
  intro s e s' hi hs
  rcases heStep_cases hs with ⟨hmove, -⟩ | ⟨hmove, -⟩
  · exact hi.probeMove hmove
  · exact hi.clientMove hmove

/-- Nothing is replayed before the client has sent something. -/
theorem probe_afterClient {st : HeStart} {es : List HeEvent} {s : HeState}
    (hrun : (heMachine st).run st.state es = some s) : AfterClient s := by
  refine Machine.run_induction ?_ ?_ hrun
  · intro s e s' hi hs
    rcases heStep_cases hs with ⟨hmove, -⟩ | ⟨hmove, -⟩
    · exact hi.probeMove hmove
    · exact hi.clientMove hmove
  · exact ⟨nofun, (absurd rfl ·), by simp [HeStart.state], (absurd rfl ·)⟩

/-- **The copies are spaced**, whatever the schedule. -/
theorem probe_spaced {st : HeStart} {es : List HeEvent} {s : HeState}
    (hrun : (heMachine st).run st.state es = some s) : Spaced st s where
  sent := (probe_afterClient hrun).copied
  apart := (probe_keepsTime hrun).apart
  left := (probe_keepsTime hrun).left
  interval c hc := by
    have htime := probe_keepsTime hrun
    exact (htime.interval c hc).imp_right fun hle => hle.trans htime.dupEvery_le

/-! ### The first copy -/

/-- The stash the first copy is taken from has its time, and that time is `he_sent_ms`. -/
structure KeepsFirst (st : HeStart) (s : HeState) : Prop where
  storing : s.stashPc ≠ .idle → 0 < s.stashData.length
  stored : s.stashPc ≠ .length → s.stashPc ≠ .date → 0 < s.hePktLen →
    s.pktStashed = some s.heSentMs
  length : s.pc = .clock ∨ s.pc = .since → 0 < s.hePktLen
  due : s.replayed = false → s.pc = .send → s.stashPc ≠ .length ∧ s.stashPc ≠ .date ∧
    ∃ t, s.pktStashed = some t ∧ t + st.heDelay ≤ s.probeNow
  waits : FirstCopyWaits st s

theorem KeepsFirst.clientMove {st : HeStart} {s s' : HeState} (h : KeepsFirst st s)
    (hs : ClientMove s s')
    (hguard : s'.stashPc = .length →
      s.stashPc = .length ∨ (s.replayed = false → s.pc = .send → s.stashPc ≠ .copy)) :
    KeepsFirst st s' := by
  cases hs with
  | wait | world => exact { h with }
  | stash data hpc hlen =>
      exact { h with
        storing := fun _ => hlen
        stored := fun _ _ => h.stored (by simp [hpc]) (by simp [hpc])
        due := fun hreplayed hsend => ⟨by simp, by simp, (h.due hreplayed hsend).2.2⟩ }
  | copy hpc =>
      have hsend := (hguard rfl).resolve_left (by simp [hpc])
      exact { h with
        storing := fun _ => h.storing (by simp [hpc]), stored := (absurd rfl ·)
        due := fun hreplayed hpc' => absurd hpc (hsend hreplayed hpc') }
  | length hpc =>
      have hlen := h.storing (by simp [hpc])
      exact { h with
        storing := fun _ => hlen, stored := fun _ hdate => absurd rfl hdate
        length := fun _ => hlen
        due := fun hreplayed hsend => absurd hpc (h.due hreplayed hsend).1 }
  | date hpc =>
      exact { h with
        storing := fun _ => h.storing (by simp [hpc]), stored := fun _ _ _ => rfl
        due := fun hreplayed hsend => absurd hpc (h.due hreplayed hsend).2.1 }
  | raise hpc =>
      exact { h with
        storing := (absurd rfl ·)
        stored := fun _ _ => h.stored (by simp [hpc]) (by simp [hpc])
        due := fun hreplayed hsend => ⟨by simp, by simp, (h.due hreplayed hsend).2.2⟩ }

theorem KeepsFirst.probeMove {st : HeStart} {s s' : HeState} (h : KeepsFirst st s)
    (htime : KeepsTime st s) (hs : ProbeMove st s s')
    (hguard : s.pc = .since → s.replayed = false → s.due st →
      s.stashPc ≠ .length ∧ s.stashPc ≠ .date) : KeepsFirst st s' := by
  cases hs with
  | loop _ _ pc _ _ hloop =>
      refine { h with length := ?_, due := ?_ }
      all_goals rcases hloop with rfl | rfl | rfl | rfl <;> simp
  | slower | answered | silent | sent => exact { h with length := by simp, due := by simp }
  | length _ hlen => exact { h with length := fun _ => hlen, due := by simp }
  | clock hpc => exact { h with length := fun _ => h.length (.inl hpc), due := by simp }
  | due hpc hdue =>
      refine { h with length := by simp, due := fun hreplayed _ => ?_ }
      obtain ⟨hlength, hdate⟩ := hguard hpc hreplayed hdue
      refine ⟨hlength, hdate, s.heSentMs, h.stored hlength hdate (h.length (.inr hpc)), ?_⟩
      have hnot : ¬ s.replayed = true := Bool.eq_false_iff.mp hreplayed
      rw [HeState.due, if_neg hnot, signedDiff_eq (htime.probeNow_le.trans_lt htime.now_lt)
        (htime.heSentMs_le.trans_lt htime.now_lt)] at hdue
      change s.heSentMs + st.heDelay ≤ s.probeNow
      omega
  | send hpc =>
      refine { h with length := by simp, due := by simp, waits := ?_ }
      intro c hc
      cases hreplayed : s.replayed with
      | false =>
          obtain ⟨-, -, hwaits⟩ := h.due hreplayed hpc
          rw [htime.first hreplayed] at hc
          obtain rfl := Option.some.inj hc
          exact hwaits
      | true =>
          obtain ⟨d, ds, hcopies, -⟩ := htime.last hreplayed
          rw [hcopies, List.getLast?_cons_cons, ← hcopies] at hc
          exact h.waits c hc
  | finish useAlt learn _ =>
      obtain ⟨_, _, _, _, _, _, _, heq⟩ := heFinish_frame s useAlt learn
      rw [heq]
      exact { h with length := by simp, due := by simp }

/-- The first copy waits in the runs that keep it. -/
theorem probe_firstCopy {st : HeStart} {es : List HeEvent} {s : HeState}
    (hrun : (heMachine st).run st.state es = some s)
    (hkeeps : (heMachine st).Meets (KeepsCopy st) st.state es) : KeepsFirst st s := by
  have hstep : ∀ s e s', KeepsTime st s ∧ KeepsFirst st s → KeepsCopy st s e →
      (heMachine st).step s e = some s' → KeepsTime st s' ∧ KeepsFirst st s' := by
    rintro s e s' ⟨htime, hfirst⟩ hguard hs
    rcases heStep_cases hs with ⟨hmove, he⟩ | ⟨hmove, he⟩
    · refine ⟨htime.probeMove hmove, hfirst.probeMove htime hmove ?_⟩
      intro hpc hreplayed hdue
      rw [he hpc] at hguard
      exact hguard hreplayed hpc hdue
    · refine ⟨htime.clientMove hmove, hfirst.clientMove hmove fun hlength => ?_⟩
      refine (he hlength).imp_right fun heq => ?_
      rw [heq] at hguard
      exact hguard
  have hstart : KeepsFirst st st.state :=
    ⟨(absurd rfl ·), nofun, by simp [HeStart.state], nofun, nofun⟩
  exact (Machine.guarded_induction hstep ⟨keepsTime_state st, hstart⟩ hkeeps hrun).2

/-- The probe beside the client, from any start and under every schedule: what it has decided
when it returns, how its copies are spaced, and, as long as the stash is not overwritten between
the look at its time and the `send`, how long the first one waits. -/
theorem probe_replays (st : HeStart) {es : List HeEvent} {s : HeState}
    (hrun : (heMachine st).run st.state es = some s) :
    (s.pc = .done → Committed st s) ∧ Spaced st s ∧
      ((heMachine st).Meets (KeepsCopy st) st.state es → FirstCopyWaits st s) :=
  ⟨(probe_decidesOnce hrun).after, probe_spaced hrun, fun h => (probe_firstCopy hrun h).waits⟩

/-- A dial with both families. -/
def bothFamilies : HeStart where
  now := 1000
  heDelay := 250
  fd := 7
  fd2 := 8
  primary := ⟨false, [1]⟩
  alt := ⟨true, [2]⟩
  evfd := true
  now_lt := by decide
  heDelay_le := by decide
  fd_nonneg := by decide
  fd2_nonneg := by decide
  fd_ne := by decide

/-- A packet is stashed, and `he_delay` later the probe looks at it: as far as the `send`. -/
def foundDue : List HeEvent :=
  [.stash [1, 7] true, .c2s, .c2s, .c2s, .c2s, .wait 250, .probe, .probe,
    .poll (.ready ⟨false, false⟩ ⟨false, false⟩ false), .probe, .probe, .probe, .probe]

/-- The copy leaves, and the alternative answers. -/
def altAnswers : List HeEvent :=
  [.probe, .probe, .poll (.ready ⟨false, false⟩ ⟨true, false⟩ false), .probe]

/-- The copy leaves 250 ms after its stash, and the answer decides. -/
theorem probe_replays_altAnswers : ∃ s,
    (heMachine bothFamilies).run bothFamilies.state (foundDue ++ altAnswers) = some s ∧
      s.pc = .done ∧ s.copies = [⟨1250, 1250, some 1000, 250, [1, 7]⟩] ∧
      s.remoteFd = 8 ∧ s.learned = [true] ∧ Committed bothFamilies s ∧ Spaced bothFamilies s ∧
      FirstCopyWaits bothFamilies s := by
  obtain ⟨s, hrun⟩ := Option.isSome_iff_exists.mp (show ((heMachine bothFamilies).run
    bothFamilies.state (foundDue ++ altAnswers)).isSome = true by decide +kernel)
  have hend : s.pc = .done ∧ s.copies = [⟨1250, 1250, some 1000, 250, [1, 7]⟩] ∧ s.remoteFd = 8 ∧
      s.learned = [true] := by
    have h : ((heMachine bothFamilies).run bothFamilies.state (foundDue ++ altAnswers)).all
        (fun s => decide (s.pc = .done ∧ s.copies = [⟨1250, 1250, some 1000, 250, [1, 7]⟩] ∧
          s.remoteFd = 8 ∧ s.learned = [true])) = true := by decide +kernel
    rw [hrun] at h
    exact of_decide_eq_true h
  obtain ⟨hdone, hspaced, hwaits⟩ := probe_replays bothFamilies hrun
  exact ⟨s, hrun, hend.1, hend.2.1, hend.2.2.1, hend.2.2.2, hdone hend.1, hspaced,
    hwaits (Machine.meets_of_guarded (by decide +kernel))⟩

/-- Between the look at the clock and the `send` the c2s thread stashes a handshake init. -/
def replacedInBetween : List HeEvent :=
  foundDue ++ [.stash [2, 7] true, .c2s, .c2s, .c2s, .c2s, .probe]

/-- The first copy is the init just stashed, with no delay. -/
theorem not_firstCopyWaits_replaced : ¬ ∀ (st : HeStart) (es : List HeEvent) (s : HeState),
    (heMachine st).run st.state es = some s → FirstCopyWaits st s := by
  intro hall
  obtain ⟨s, hrun⟩ := Option.isSome_iff_exists.mp (show ((heMachine bothFamilies).run
    bothFamilies.state replacedInBetween).isSome = true by decide +kernel)
  have hcopies : s.copies = [⟨1250, 1250, some 1250, 250, [2, 7]⟩] := by
    have h : ((heMachine bothFamilies).run bothFamilies.state replacedInBetween).all
        (fun s => decide (s.copies = [⟨1250, 1250, some 1250, 250, [2, 7]⟩])) = true := by
      decide +kernel
    rw [hrun] at h
    exact of_decide_eq_true h
  obtain ⟨t, hstashed, hle⟩ := hall bothFamilies replacedInBetween s hrun
    ⟨1250, 1250, some 1250, 250, [2, 7]⟩ (by rw [hcopies, List.getLast?_singleton])
  obtain rfl := Option.some.inj hstashed
  exact absurd hle (by decide)

end AwgProxy
