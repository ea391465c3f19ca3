import AwgProxy.FastRand
import AwgProxy.Lib.Machine

/-!
# The Due Flag and the Schedule

The main loop draws when the port falls due, and raises `rot_due` then; its own `m->due`
remembers that it has. A confirmed move or a reconnect drops the flag and says so in
`rot_changed`, two stores of the s2c thread; the next tick takes the news and draws anew. A
tick is four steps, and either store may fall between any two of them.

* `dueMachine` — the steps of a tick and of a move that goes back, and the stores of s2c.
* `DueInv.step` — what the flag and its copy say about each other.
* `dueFollows` — over a run in which no flag is raised over a change that the tick has not
  seen, and no tick keeps its copy between the two stores.
* `raised_over_change` — every flag raised over a change outlives the reset.
-/

namespace AwgProxy

/-! ### The schedule -/

/-- `rot_cfg_t`, as far as the schedule reads it. -/
structure RotCfg where
  tLo : UInt32
  tHi : UInt32
  mbLo : UInt32
  mbHi : UInt32
  retry : UInt32
  force : UInt32

/-- `rot_sched_t`. -/
structure RotSched where
  deadline : UInt32
  retry : UInt32
  bytes : UInt64
  vol : UInt64
  deriving DecidableEq

/-- `rot_draw`, and the generator behind it. -/
def rotDraw (lo hi : UInt32) (rng : UInt64) : UInt32 × UInt64 :=
  let r := fastrandU64 rng
  (lo + (r % (hi.toUInt64 - lo.toUInt64 + 1)).toUInt32, r)

/-- `rot_sched_reset`, and the generator behind it. -/
def rotSchedReset (c : RotCfg) (now : UInt32) (rng : UInt64) : RotSched × UInt64 :=
  let (deadline, rng) :=
    if c.tLo ≠ 0 then
      let (d, rng) := rotDraw c.tLo c.tHi rng
      (now + d, rng)
    else (0, rng)
  let (vol, rng) :=
    if c.mbLo ≠ 0 then
      let (d, rng) := rotDraw c.mbLo c.mbHi rng
      (d.toUInt64 <<< 20, rng)
    else (0, rng)
  (⟨deadline, now, 0, vol⟩, rng)

/-- `rot_is_due`. -/
def rotIsDue (c : RotCfg) (s : RotSched) (now : UInt32) : Bool :=
  if (now - s.retry).toInt32 < 0 then false
  else (c.tLo != 0 && decide (0 ≤ (now - s.deadline).toInt32)) ||
    (s.vol != 0 && decide (s.vol ≤ s.bytes))

/-! ### The threads -/

/-- Where the main thread is. -/
inductive TickAt
  /-- Outside a tick. -/
  | idle
  /-- In a tick, before the exchange of `rot_changed`. -/
  | changed
  /-- Before the exchange of `rot_failed`. -/
  | failed
  /-- Before it looks at `m->due`. -/
  | decide
  /-- Before it stores `rot_due`. -/
  | raise
  /-- In a move that goes back, before the store of `rot_failed`. -/
  | back
  deriving DecidableEq

/-- Where the s2c thread is with the news of another port. -/
inductive NewsAt
  | idle
  /-- `rot_due` is dropped, `rot_changed` is to come. -/
  | dropped
  deriving DecidableEq

/-- `proxy_t` and `rot_main_t` as far as the due flag goes. -/
structure DueFlag where
  /-- `rot_due`. -/
  rotDue : Bool
  /-- `rot_changed`. -/
  rotChanged : Bool
  /-- `rot_failed`. -/
  rotFailed : Bool
  /-- `rot_force`. -/
  rotForce : Bool
  /-- `rot_soft_on`. -/
  rotSoftOn : Bool
  /-- `rng`. -/
  rng : UInt64
  /-- `m->s`. -/
  sched : RotSched
  /-- `m->pv_c2s`. -/
  pvC2s : UInt32
  /-- `m->pv_s2c`. -/
  pvS2c : UInt32
  /-- `m->due`. -/
  due : Bool
  /-- `m->due_at`. -/
  dueAt : UInt32
  /-- The ticks so far. -/
  tick : UInt32
  /-- main: where it is. -/
  main : TickAt
  /-- s2c: where it is. -/
  s2c : NewsAt
  /-- A tick has drawn a schedule for a fresh port, and none has found it due since. -/
  fresh : Bool
  /-- A tick has kept `m->due` with `rot_due` down and no news pending. -/
  stale : Bool
  deriving DecidableEq

/-- A step of a thread. -/
inductive DueEvent
  /-- main: a tick begins, with what the threads have counted. -/
  | tick (rotBytesC2s rotBytesS2c : UInt32)
  /-- main: `rot_changed` is taken. -/
  | takeChanged
  /-- main: `rot_failed` is taken. -/
  | takeFailed
  /-- main: the tick looks at `m->due` and at the schedule. -/
  | decide
  /-- main: `rot_due` is raised. -/
  | raise
  /-- main: `rot_main_poll` goes back and drops `rot_due`. -/
  | back
  /-- main: it stores `rot_failed`. -/
  | fail
  /-- s2c: `rot_answered` or `do_reconnect_locked` drops `rot_due`. -/
  | drop
  /-- s2c: it stores `rot_changed`. -/
  | change
  deriving DecidableEq

/-- The end of `rot_main_tick`, from its look at `m->due` on. -/
def DueFlag.decide (c : RotCfg) (s : DueFlag) : DueFlag :=
  if s.due then
    { s with
      rotForce := s.rotForce || (s.rotSoftOn && Decidable.decide (c.force ≤ s.tick - s.dueAt))
      main := .idle
      stale := s.stale || (!s.rotDue && !s.rotChanged && !s.rotFailed) }
  else if !rotIsDue c s.sched s.tick then { s with main := .idle }
  else { s with due := true, dueAt := s.tick, main := .raise, fresh := false }

/-- A step of a thread. -/
def dueStep (c : RotCfg) (s : DueFlag) : DueEvent → Option DueFlag
  | .tick bc bs =>
      if s.main = .idle then
        some { s with
          tick := s.tick + 1
          sched := { s.sched with
            bytes := s.sched.bytes + ((bc - s.pvC2s).toUInt64 + (bs - s.pvS2c).toUInt64) }
          pvC2s := bc
          pvS2c := bs
          main := .changed }
      else none
  | .takeChanged =>
      if s.main = .changed then
        if s.rotChanged then
          let (sched, rng) := rotSchedReset c s.tick s.rng
          some { s with
            rotChanged := false
            sched := sched
            rng := rng
            due := false
            rotForce := false
            main := .failed
            fresh := true }
        else some { s with main := .failed }
      else none
  | .takeFailed =>
      if s.main = .failed then
        if s.rotFailed then
          some { s with
            rotFailed := false
            sched := { s.sched with retry := s.tick + c.retry }
            due := false
            rotForce := false
            main := .decide }
        else some { s with main := .decide }
      else none
  | .decide => if s.main = .decide then some (s.decide c) else none
  | .raise => if s.main = .raise then some { s with rotDue := true, main := .idle } else none
  | .back => if s.main = .idle then some { s with rotDue := false, main := .back } else none
  | .fail => if s.main = .back then some { s with rotFailed := true, main := .idle } else none
  | .drop => if s.s2c = .idle then some { s with rotDue := false, s2c := .dropped } else none
  | .change =>
      if s.s2c = .dropped then some { s with rotChanged := true, s2c := .idle } else none

/-- The steps of a tick and of a move that goes back, and the stores of s2c. -/
def dueMachine (c : RotCfg) : Machine DueFlag DueEvent :=
  ⟨dueStep c⟩

/-- The due flag follows the schedule. -/
structure DueFollows (s : DueFlag) : Prop where
  /-- A fresh schedule keeps the flag down until it is due. -/
  fresh : s.fresh = true → s.rotDue = false
  /-- No tick has kept `m->due` beside a flag that is down for good. -/
  kept : s.stale = false

/-- The flag is not raised over a change that the tick has not seen, and no tick keeps `m->due`
between the two stores of s2c. -/
def RaisedClean (s : DueFlag) : DueEvent → Prop
  | .raise => s.rotChanged = false ∧ s.s2c = .idle
  | .decide => s.due = true → s.s2c = .idle
  | _ => True

/-- The threads as they start. -/
structure DueFlag.Started (s : DueFlag) : Prop where
  main : s.main = .idle
  s2c : s.s2c = .idle
  rotDue : s.rotDue = false
  due : s.due = false
  fresh : s.fresh = false
  stale : s.stale = false

/-- What the flag and its copy say about each other. -/
structure DueInv (s : DueFlag) : Prop where
  /-- A flag that is up stands over no change. -/
  raised : s.rotDue = true → s.rotChanged = false ∧ s.s2c = .idle
  /-- `m->due` stands for a flag that is up or about to be, or for one that was dropped with
  news, pending or to come. -/
  copied : s.due = true → s.rotDue = true ∨ s.rotChanged = true ∨ s.rotFailed = true ∨
    s.s2c = .dropped ∨ s.main = .raise ∨ s.main = .back
  fresh : s.fresh = true → s.rotDue = false
  raising : s.main = .raise → s.fresh = false
  kept : s.stale = false

/-- The end of a tick. -/
theorem DueInv.decide {c : RotCfg} {s : DueFlag} (h : DueInv s) (hat : s.main = .decide)
    (hg : s.due = true → s.s2c = .idle) : DueInv (s.decide c) := by
  rw [DueFlag.decide]
  split_ifs with hdue hnot
  · have hpending : s.rotDue = true ∨ s.rotChanged = true ∨ s.rotFailed = true := by
      simpa [hat, hg hdue] using h.copied hdue
    refine ⟨h.raised, fun _ => ?_, h.fresh, nofun, ?_⟩
    · rcases hpending with hup | hchanged | hfailed
      · exact Or.inl hup
      · exact Or.inr (Or.inl hchanged)
      · exact Or.inr (Or.inr (Or.inl hfailed))
    · rcases hpending with h₁ | h₁ | h₁ <;> simp [h₁, h.kept]
  · exact ⟨h.raised, fun hdue' => absurd hdue' hdue, h.fresh, nofun, h.kept⟩
  · exact ⟨h.raised, fun _ => by simp, nofun, fun _ => rfl, h.kept⟩

/-- **The invariant survives every step that meets the condition.** -/
theorem DueInv.step {c : RotCfg} {s s' : DueFlag} {e : DueEvent} (h : DueInv s)
    (hg : RaisedClean s e) (hs : dueStep c s e = some s') : DueInv s' := by
  cases e with
  | tick bc bs =>
      obtain ⟨hat, rfl⟩ := Option.ite_some_none_eq_some.mp hs
      exact ⟨h.raised, fun hdue => by simpa [hat] using h.copied hdue, h.fresh, nofun, h.kept⟩
  | takeChanged =>
      rw [dueStep] at hs
      split_ifs at hs with hat hchanged
      · obtain rfl := Option.some.inj hs
        -- the news says that the flag is down
        have hdown : s.rotDue = false := by
          rcases Bool.eq_false_or_eq_true s.rotDue with hup | hdown
          · exact absurd (hchanged.symm.trans (h.raised hup).1) nofun
          · exact hdown
        exact ⟨fun hup => absurd (hup.symm.trans hdown) nofun, nofun, fun _ => hdown, nofun,
          h.kept⟩
      · obtain rfl := Option.some.inj hs
        exact ⟨h.raised, fun hdue => by simpa [hat] using h.copied hdue, h.fresh, nofun, h.kept⟩
  | takeFailed =>
      rw [dueStep] at hs
      split_ifs at hs with hat hfailed
      · obtain rfl := Option.some.inj hs
        exact ⟨h.raised, nofun, h.fresh, nofun, h.kept⟩
      · obtain rfl := Option.some.inj hs
        exact ⟨h.raised, fun hdue => by simpa [hat] using h.copied hdue, h.fresh, nofun, h.kept⟩
  | decide =>
      obtain ⟨hat, rfl⟩ := Option.ite_some_none_eq_some.mp hs
      exact h.decide hat hg
  | raise =>
      obtain ⟨hat, rfl⟩ := Option.ite_some_none_eq_some.mp hs
      exact ⟨fun _ => hg, fun _ => Or.inl rfl,
        fun hfresh => absurd (hfresh.symm.trans (h.raising hat)) nofun, nofun, h.kept⟩
  | back =>
      obtain ⟨-, rfl⟩ := Option.ite_some_none_eq_some.mp hs
      exact ⟨nofun, fun _ => by simp, fun _ => rfl, nofun, h.kept⟩
  | fail =>
      obtain ⟨hat, rfl⟩ := Option.ite_some_none_eq_some.mp hs
      exact ⟨h.raised, fun _ => by simp, h.fresh, nofun, h.kept⟩
  | drop =>
      obtain ⟨-, rfl⟩ := Option.ite_some_none_eq_some.mp hs
      exact ⟨nofun, fun _ => by simp, fun _ => rfl, h.raising, h.kept⟩
  | change =>
      obtain ⟨hat, rfl⟩ := Option.ite_some_none_eq_some.mp hs
      refine ⟨fun hup => ?_, fun _ => by simp, h.fresh, h.raising, h.kept⟩
      exact absurd ((h.raised hup).2.symm.trans hat) nofun

/-- **The due flag follows the schedule**, in every state reached by a run in which the flag is
not raised over a change that the tick has not seen, and no tick keeps `m->due` between the two
stores of s2c. -/
theorem dueFollows {c : RotCfg} {s t : DueFlag} {es : List DueEvent} (h0 : s.Started)
    (hC : (dueMachine c).Meets RaisedClean s es) (hrun : (dueMachine c).run s es = some t) :
    DueFollows t := by
  have hinit : DueInv s := by
    refine ⟨fun hup => ?_, fun hdue => ?_, fun _ => h0.rotDue, fun _ => h0.fresh, h0.stale⟩
    · exact absurd (hup.symm.trans h0.rotDue) nofun
    · exact absurd (hdue.symm.trans h0.due) nofun
  have hinv : DueInv t := Machine.guarded_induction (fun _ _ _ => DueInv.step) hinit hC hrun
  exact ⟨hinv.fresh, hinv.kept⟩

/-- A flag raised over a change outlives the reset of the next tick. -/
theorem raised_over_change {c : RotCfg} {s : DueFlag} (hat : s.main = .raise)
    (hchanged : s.rotChanged = true) (bc bs : UInt32) : ∃ t,
    (dueMachine c).run s [.raise, .tick bc bs, .takeChanged] = some t ∧ t.rotChanged = false ∧
      t.due = false ∧ ¬ DueFollows t := by
  refine ⟨_, by simp [dueMachine, Machine.run_cons, dueStep, hat, hchanged]; rfl, rfl, rfl,
    fun hfollows => ?_⟩
  exact absurd (hfollows.fresh rfl) nofun

/-- `AWG_PORT_ROTATE=1m`. -/
def minuteCfg : RotCfg where
  tLo := 12
  tHi := 12
  mbLo := 0
  mbHi := 0
  retry := 12
  force := 12

/-- A tick before the port of the start falls due. -/
def almostDue : DueFlag where
  rotDue := false
  rotChanged := false
  rotFailed := false
  rotForce := false
  rotSoftOn := false
  rng := 1
  sched := ⟨12, 0, 0, 0⟩
  pvC2s := 0
  pvS2c := 0
  due := false
  dueAt := 0
  tick := 11
  main := .idle
  s2c := .idle
  fresh := false
  stale := false

theorem started_almostDue : almostDue.Started :=
  ⟨rfl, rfl, rfl, rfl, rfl, rfl⟩

/-- The port falls due, the move is confirmed, and the next tick draws anew. -/
theorem dueFollows_confirmed : ∃ t, (dueMachine minuteCfg).run almostDue
    [.tick 0 0, .takeChanged, .takeFailed, .decide, .raise, .drop, .change, .tick 0 0,
      .takeChanged] = some t ∧ DueFollows t ∧ t.fresh = true := by
  have hC : (dueMachine minuteCfg).Meets RaisedClean almostDue
      [.tick 0 0, .takeChanged, .takeFailed, .decide, .raise, .drop, .change, .tick 0 0,
        .takeChanged] := by
    refine .cons trivial rfl (.cons trivial rfl (.cons trivial rfl (.cons ?_ rfl (.cons ?_ rfl
      (.cons trivial rfl (.cons trivial rfl (.cons trivial rfl (.cons trivial rfl
        (Machine.meets_nil _ _)))))))))
    · exact nofun
    · exact ⟨rfl, rfl⟩
  exact ⟨_, rfl, dueFollows started_almostDue hC rfl, rfl⟩

/-- A reconnect ends between the tick that finds the port due and its store. -/
def reconnectWhileRaising : List DueEvent :=
  [.tick 0 0, .takeChanged, .takeFailed, .decide, .drop, .change, .raise, .tick 0 0, .takeChanged,
    .takeFailed, .decide]

/-- A tick comes between the two stores of a reconnect. -/
def tickBetweenStores : List DueEvent :=
  [.tick 0 0, .takeChanged, .takeFailed, .decide, .raise, .drop, .tick 0 0, .takeChanged,
    .takeFailed, .decide]

/-- The flag outlives the reset that was to clear it, and `m->due` outlives a tick beside a flag
that is down. -/
theorem not_dueFollows : almostDue.Started ∧
    (∃ t, (dueMachine minuteCfg).run almostDue reconnectWhileRaising = some t ∧
      t.main = .idle ∧ t.s2c = .idle ∧ t.fresh = true ∧ t.rotDue = true ∧ t.due = false ∧
      t.rotChanged = false ∧ rotIsDue minuteCfg t.sched t.tick = false ∧ ¬ DueFollows t) ∧
    ∃ t, (dueMachine minuteCfg).run almostDue tickBetweenStores = some t ∧
      t.due = true ∧ t.rotDue = false ∧ t.rotChanged = false ∧ t.rotFailed = false ∧
      ¬ DueFollows t := by
  refine ⟨started_almostDue, ⟨_, rfl, rfl, rfl, rfl, rfl, rfl, rfl, rfl, fun h => ?_⟩,
    ⟨_, rfl, rfl, rfl, rfl, rfl, fun h => ?_⟩⟩
  · exact absurd (h.fresh rfl) nofun
  · exact absurd h.kept nofun

end AwgProxy
