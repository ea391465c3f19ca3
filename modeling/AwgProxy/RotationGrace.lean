import AwgProxy.Lib.Machine
import AwgProxy.Rotation

/-!
# The Grace of the Old Port

A move leaves a socket on the old port, and the main loop closes it `ROT_GRACE_MS` after the
move is over. What it goes by is the state it loaded before it took the mutex, the age of the
move, and how far into the move the new port answered, which is 0 for one that went back. The
three threads are interleaved with the clock here: each load and each store of a word that
another thread uses is one step, and the clock is read in the step of the word it goes with.

* `graceMachine` — `rot_move`, `rot_answered` and `rot_main_poll`, step by step.
* `GraceInv.step` — unless a poll decides on a state that is no longer so, or a move that keeps
  its old port goes back, the old port is closed on a move that has been over for long enough.
* `closesInTime` — the same over every such run.
* `not_closesInTime_of_goBack` — a move that keeps its old port and goes back at its deadline has
  it closed by the next poll, however soon that comes.
-/

namespace AwgProxy

/-- `ROT_VERIFY_MS`. -/
abbrev rotVerifyMs : UInt64 := 2000

/-- `ROT_VERIFY_DUAL_MS`. -/
abbrev rotVerifyDualMs : UInt64 := 3000

/-- `ROT_GRACE_MS`. -/
abbrev rotGraceMs : UInt64 := 3000

/-- Where the c2s thread is in `rot_move`; `kept` when the old port has its socket. -/
inductive MoveAt
  /-- Outside. -/
  | idle
  /-- It holds the mutex. -/
  | locked (kept : Bool)
  /-- `rot_t0_ms` is stored. -/
  | stamped (kept : Bool)
  /-- `rot_refused` and `rot_ans_ms` are cleared. -/
  | cleared (kept : Bool)
  /-- `rot_old_fd` and `rot_dual` are stored. -/
  | opened
  deriving DecidableEq

/-- The c2s thread holds the mutex. -/
def MoveAt.holds : MoveAt → Bool
  | .idle => false
  | _ => true

/-- A move is being begun, and its old port is not yet open. -/
def MoveAt.opens : MoveAt → Bool
  | .idle => false
  | .opened => false
  | _ => true

/-- The move that is being begun has its time. -/
def MoveAt.begun : MoveAt → Bool
  | .idle => false
  | .locked _ => false
  | _ => true

/-- Where the s2c thread is in `rot_answered`. -/
inductive AnswerAt
  /-- Outside. -/
  | idle
  /-- `rot_state` was `ROT_PENDING`. -/
  | asked
  /-- The clock was read at `at_`, `ans` into the move. -/
  | measured (at_ : UInt64) (ans : UInt32)
  /-- `rot_ans_ms` is stored. -/
  | stored (at_ : UInt64)
  /-- The state is turned. -/
  | won
  deriving DecidableEq

/-- The s2c thread is in front of the CAS. -/
def AnswerAt.asks : AnswerAt → Bool
  | .idle => false
  | .won => false
  | _ => true

/-- Where the main thread is in `rot_main_poll`. -/
inductive GraceAt
  /-- Outside. -/
  | idle
  /-- `rot_old_fd` is loaded. -/
  | old (isOpen : Bool)
  /-- `rot_state` is loaded. -/
  | st (st : RotState)
  /-- The clock is read: the move is `age` old. -/
  | age (st : RotState) (age : UInt64)
  /-- `rot_dual` is loaded. -/
  | dual (st : RotState) (age : UInt64) (dual : Bool)
  /-- The wait is over. -/
  | waited (st : RotState)
  /-- It holds the mutex, and the move goes back. -/
  | back
  /-- It holds the mutex, and the old port is let go. -/
  | letGo
  deriving DecidableEq

/-- The main thread holds the mutex. -/
def GraceAt.holds : GraceAt → Bool
  | .back => true
  | .letGo => true
  | _ => false

/-- The main thread has found the old port open and, as far as it has looked, no move
pending. -/
def GraceAt.over : GraceAt → Bool
  | .old isOpen => isOpen
  | .st .idle => true
  | .age .idle _ => true
  | .dual .idle _ _ => true
  | .waited .idle => true
  | _ => false

/-- The age of a move that is over. -/
def GraceAt.age? : GraceAt → Option UInt64
  | .age .idle a => some a
  | .dual .idle a _ => some a
  | _ => none

/-- The main thread goes to let the old port go. -/
def GraceAt.closes : GraceAt → Bool
  | .waited .idle => true
  | .letGo => true
  | _ => false

/-- `proxy_t` as far as the grace goes, and the clock. -/
structure GraceMove where
  /-- The clock, in milliseconds. -/
  clock : UInt64
  /-- `rot_state`. -/
  rotState : RotState
  /-- `rot_old_fd` is open. -/
  rotOldFd : Bool
  /-- `rot_dual`. -/
  rotDual : Bool
  /-- `rot_refused`. -/
  rotRefused : Bool
  /-- `rot_t0_ms`. -/
  rotT0Ms : UInt64
  /-- `rot_ans_ms`. -/
  rotAnsMs : UInt32
  c2s : MoveAt
  s2c : AnswerAt
  main : GraceAt
  /-- How the latest move ended, and when: at the clock that `rot_ans_ms` was set by when it was
  confirmed, or at the rollback. -/
  ended : Option (MoveEnd × UInt64)
  deriving DecidableEq

/-- A step of a thread, or of the clock. -/
inductive GraceEvent
  /-- Time passes. -/
  | pass (ms : UInt64)
  /-- An ICMP refusal. -/
  | refuse
  /-- c2s: the port is due; `rot_move` takes the mutex and connects, and the old port is kept
  or not. -/
  | move (kept : Bool)
  /-- c2s: `rot_move` gives up. -/
  | giveUp
  /-- c2s: `rot_t0_ms` is stored. -/
  | stamp
  /-- c2s: `rot_refused` and `rot_ans_ms` are cleared. -/
  | clear
  /-- c2s: `rot_old_fd` and `rot_dual` are stored. -/
  | open
  /-- c2s: `rot_state` is stored, and the mutex released. -/
  | pend
  /-- s2c: `rot_state` is loaded behind a batch. -/
  | test
  /-- s2c: `rot_answered` reads the clock and `rot_t0_ms`. -/
  | measure
  /-- s2c: it stores `rot_ans_ms`. -/
  | store
  /-- s2c: its CAS. -/
  | confirm
  /-- s2c: it clears `rot_dual`. -/
  | drop
  /-- main: `rot_old_fd` is loaded. -/
  | loadOld
  /-- main: `rot_state` is loaded. -/
  | loadSt
  /-- main: the clock and `rot_t0_ms` are read. -/
  | readAge
  /-- main: `rot_dual` is loaded. -/
  | loadDual
  /-- main: `rot_refused` or `rot_ans_ms` is loaded, and the wait decided. -/
  | wait
  /-- main: the mutex is tried, and the CAS. -/
  | lock
  /-- main: the old port is closed, and the mutex released. -/
  | close
  /-- main: the socket goes back, and the mutex is released. -/
  | goBack
  deriving DecidableEq

/-- The wait of `rot_main_poll` is over, with `ans` and `refused` as loaded. -/
def graceOver (st : RotState) (age : UInt64) (dual refused : Bool) (ans : UInt32) : Bool :=
  match st with
  | .pending => refused || !decide (age < if dual then rotVerifyDualMs else rotVerifyMs)
  | .idle => !decide (age < ans.toUInt64 + rotGraceMs)

/-- A step of a thread, or of the clock. -/
def graceStep (s : GraceMove) : GraceEvent → Option GraceMove
  | .pass ms =>
      if s.clock.toNat + ms.toNat < 2 ^ 64 then some { s with clock := s.clock + ms } else none
  | .refuse => if s.rotState = .pending then some { s with rotRefused := true } else none
  | .move kept =>
      if s.c2s = .idle ∧ s.rotState = .idle ∧ s.rotOldFd = false ∧ s.main.holds = false then
        some { s with c2s := .locked kept }
      else none
  | .giveUp =>
      match s.c2s with
      | .locked _ => some { s with c2s := .idle }
      | _ => none
  | .stamp =>
      match s.c2s with
      | .locked kept => some { s with rotT0Ms := s.clock, c2s := .stamped kept, ended := none }
      | _ => none
  | .clear =>
      match s.c2s with
      | .stamped kept => some { s with rotRefused := false, rotAnsMs := 0, c2s := .cleared kept }
      | _ => none
  | .open =>
      match s.c2s with
      | .cleared kept => some { s with rotOldFd := kept, rotDual := kept, c2s := .opened }
      | _ => none
  | .pend => if s.c2s = .opened then some { s with rotState := .pending, c2s := .idle } else none
  | .test =>
      if s.s2c = .idle ∧ s.rotState = .pending then some { s with s2c := .asked } else none
  | .measure =>
      if s.s2c = .asked then
        some { s with s2c := .measured s.clock ((s.clock - s.rotT0Ms).toUInt32 ||| 1) }
      else none
  | .store =>
      match s.s2c with
      | .measured c ans => some { s with rotAnsMs := ans, s2c := .stored c }
      | _ => none
  | .confirm =>
      match s.s2c with
      | .stored c =>
          if s.rotState = .pending then
            some { s with rotState := .idle, s2c := .won, ended := some (.confirmed, c) }
          else some { s with s2c := .idle }
      | _ => none
  | .drop => if s.s2c = .won then some { s with rotDual := false, s2c := .idle } else none
  | .loadOld => if s.main = .idle then some { s with main := .old s.rotOldFd } else none
  | .loadSt =>
      match s.main with
      | .old isOpen =>
          if isOpen = false ∧ s.rotState ≠ .pending then some { s with main := .idle }
          else some { s with main := .st s.rotState }
      | _ => none
  | .readAge =>
      match s.main with
      | .st st => some { s with main := .age st (s.clock - s.rotT0Ms) }
      | _ => none
  | .loadDual =>
      match s.main with
      | .age st age => some { s with main := .dual st age s.rotDual }
      | _ => none
  | .wait =>
      match s.main with
      | .dual st age dual =>
          if graceOver st age dual s.rotRefused s.rotAnsMs then some { s with main := .waited st }
          else some { s with main := .idle }
      | _ => none
  | .lock =>
      match s.main with
      | .waited st =>
          if s.c2s.holds then some { s with main := .idle }
          else if st = .pending ∧ s.rotState = .pending then
            some { s with rotState := .idle, main := .back }
          else some { s with main := .letGo }
      | _ => none
  | .close =>
      if s.main = .letGo then some { s with rotOldFd := false, rotDual := false, main := .idle }
      else none
  | .goBack =>
      if s.main = .back then
        some { s with rotDual := false, main := .idle, ended := some (.rolledBack, s.clock) }
      else none

/-- `rot_move`, `rot_answered` and `rot_main_poll`, step by step. -/
def graceMachine : Machine GraceMove GraceEvent :=
  ⟨graceStep⟩

/-- The latest move is over, and has been for `ROT_GRACE_MS`. -/
def GraceMove.HeardOut (s : GraceMove) : Prop :=
  ∃ how e, s.ended = some (how, e) ∧ e.toNat + rotGraceMs.toNat ≤ s.clock.toNat

/-- The old port is closed only when it has been heard out. -/
def ClosesInTime (s : GraceMove) : Prop :=
  ∀ s', graceStep s .close = some s' → s.rotOldFd = true → s.HeardOut

/-- A poll that found a move pending, late or refused, finds no old port under the mutex: no move
that keeps its old port goes back, or is answered between the two looks; one that found none
pending ends its wait while there is none and none is being begun; the new port answers within
2^32 ms; and `rot_move` clears no answer that a call left over from an earlier move has measured
by the new one. -/
def GraceMeets (s : GraceMove) : GraceEvent → Prop
  | .lock => s.main = .waited .pending → s.c2s.holds = false → s.rotOldFd = false
  | .wait => ∀ age dual, s.main = .dual .idle age dual →
      graceOver .idle age dual s.rotRefused s.rotAnsMs = true →
      s.rotState = .idle ∧ s.c2s.holds = false
  | .measure => s.clock.toNat < s.rotT0Ms.toNat + 2 ^ 32
  | .clear => ∀ c, s.s2c = .stored c → c.toNat ≤ s.rotT0Ms.toNat
  | _ => True

/-- The threads as they start. -/
structure GraceMove.Started (s : GraceMove) : Prop where
  rotState : s.rotState = .idle
  rotOldFd : s.rotOldFd = false
  t0_le : s.rotT0Ms.toNat ≤ s.clock.toNat
  c2s : s.c2s = .idle
  s2c : s.s2c = .idle
  main : s.main = .idle
  ended : s.ended = none

/-! ### The clock -/

/-- The age of a move. -/
theorem toNat_age {now t0 : UInt64} (h : t0.toNat ≤ now.toNat) :
    (now - t0).toNat = now.toNat - t0.toNat :=
  UInt64.toNat_sub_of_le _ _ (UInt64.le_iff_toNat_le.mpr h)

/-- What `rot_answered` stores is not less than the age of the move. -/
theorem le_toNat_ans {now t0 : UInt64} (h : t0.toNat ≤ now.toNat)
    (hlt : now.toNat < t0.toNat + 2 ^ 32) :
    now.toNat ≤ t0.toNat + ((now - t0).toUInt32 ||| 1).toNat := by
  have hage := toNat_age h
  have hword : (now - t0).toUInt32.toNat = now.toNat - t0.toNat := by
    rw [UInt64.toNat_toUInt32, hage]
    exact Nat.mod_eq_of_lt (by omega)
  have hor : ((now - t0).toUInt32 ||| 1).toNat = (now - t0).toUInt32.toNat ||| 1 :=
    UInt32.toNat_or _ 1
  have hle : (now - t0).toUInt32.toNat ≤ (now - t0).toUInt32.toNat ||| 1 := Nat.left_le_or
  omega

/-- The wait of a poll that found no move pending. -/
theorem le_of_graceOver {age : UInt64} {dual refused : Bool} {ans : UInt32}
    (h : graceOver .idle age dual refused ans = true) :
    ans.toNat + rotGraceMs.toNat ≤ age.toNat := by
  have hle : ans.toUInt64 + rotGraceMs ≤ age := by
    simpa [graceOver] using h
  have hnat := UInt64.le_iff_toNat_le.mp hle
  have hans := ans.toNat_lt
  have hsum : (ans.toUInt64 + rotGraceMs).toNat = ans.toNat + rotGraceMs.toNat := by
    rw [UInt64.toNat_add, UInt32.toNat_toUInt64]
    exact Nat.mod_eq_of_lt (by have : rotGraceMs.toNat = 3000 := rfl; omega)
  omega

/-! ### The invariant -/

/-- What the threads know about the latest move. -/
structure GraceInv (s : GraceMove) : Prop where
  t0_le : s.rotT0Ms.toNat ≤ s.clock.toNat
  /-- An answer on its way is not later than it says. -/
  measured : ∀ c ans, s.s2c = .measured c ans →
    c.toNat ≤ s.clock.toNat ∧ c.toNat ≤ s.rotT0Ms.toNat + ans.toNat
  stored : ∀ c, s.s2c = .stored c →
    c.toNat ≤ s.clock.toNat ∧ c.toNat ≤ s.rotT0Ms.toNat + s.rotAnsMs.toNat
  /-- A move that was confirmed ended by `rot_ans_ms`, which nobody stores until the next. -/
  confirmed : ∀ c, s.ended = some (.confirmed, c) →
    c.toNat ≤ s.rotT0Ms.toNat + s.rotAnsMs.toNat ∧ s.s2c.asks = false
  pending : s.rotState = .pending → s.ended = none
  begun : s.c2s.begun = true → s.ended = none
  held : s.c2s.holds = true → s.rotState = .idle ∧ s.main.holds = false
  /-- No move is begun while the old port of the last one is open. -/
  opens : s.rotOldFd = true → s.c2s.opens = false
  /-- An old port that is open belongs to a move that is pending, is being begun, goes back or
  is over. -/
  kept : s.rotOldFd = true → s.ended = none →
    s.rotState = .pending ∨ s.c2s.holds = true ∨ s.main = .back
  overOpen : s.main.over = true → s.rotOldFd = true
  age : ∀ a, s.main.age? = some a → s.rotT0Ms.toNat + a.toNat ≤ s.clock.toNat
  closes : s.main.closes = true →
    s.rotState = .idle ∧ s.c2s.holds = false ∧ (s.rotOldFd = true → s.HeardOut)
  back : s.main = .back → s.rotState = .idle ∧ s.c2s.holds = false ∧ s.rotOldFd = false
  /-- No old port that is open belongs to a move that went back. -/
  open_ended : s.rotOldFd = true → ∀ how e, s.ended = some (how, e) → how = .confirmed

/-- Time passes. -/
theorem GraceInv.pass {s : GraceMove} (h : GraceInv s) {ms : UInt64}
    (hlt : s.clock.toNat + ms.toNat < 2 ^ 64) : GraceInv { s with clock := s.clock + ms } := by
  have hadd : (s.clock + ms).toNat = s.clock.toNat + ms.toNat := by
    rw [UInt64.toNat_add, Nat.mod_eq_of_lt hlt]
  have hle : s.clock.toNat ≤ (s.clock + ms).toNat := by omega
  refine ⟨h.t0_le.trans hle, fun c ans hat => ?_, fun c hat => ?_, h.confirmed, h.pending,
    h.begun, h.held, h.opens, h.kept, h.overOpen, fun a ha => (h.age a ha).trans hle,
    fun hcloses => ?_, h.back, h.open_ended⟩
  · exact ⟨(h.measured c ans hat).1.trans hle, (h.measured c ans hat).2⟩
  · exact ⟨(h.stored c hat).1.trans hle, (h.stored c hat).2⟩
  · obtain ⟨hidle, hfree, hheard⟩ := h.closes hcloses
    refine ⟨hidle, hfree, fun hopen => ?_⟩
    obtain ⟨how, e, hended, hge⟩ := hheard hopen
    exact ⟨how, e, hended, hge.trans hle⟩

/-- A step of `rot_move` before the store of `rot_old_fd`: nothing is being closed. -/
theorem GraceInv.not_over {s : GraceMove} (h : GraceInv s) (hopens : s.c2s.opens = true) :
    s.rotOldFd = false ∧ s.main.over = false ∧ s.main.closes = false := by
  have hold : s.rotOldFd = false := by
    rcases Bool.eq_false_or_eq_true s.rotOldFd with hopen | hclosed
    · exact absurd (hopens.symm.trans (h.opens hopen)) nofun
    · exact hclosed
  have hover : s.main.over = false := by
    rcases Bool.eq_false_or_eq_true s.main.over with hover | hover
    · exact absurd ((h.overOpen hover).symm.trans hold) nofun
    · exact hover
  refine ⟨hold, hover, ?_⟩
  have hholds : s.c2s.holds = true := by
    revert hopens
    cases s.c2s <;> simp [MoveAt.opens, MoveAt.holds]
  rcases Bool.eq_false_or_eq_true s.main.closes with hcloses | hcloses
  · exact absurd (hholds.symm.trans (h.closes hcloses).2.1) nofun
  · exact hcloses

/-- The age is of a move that is over. -/
theorem GraceAt.over_of_age {g : GraceAt} {a : UInt64} (h : g.age? = some a) : g.over = true := by
  rcases g with _ | _ | _ | ⟨_ | _, _⟩ | ⟨_ | _, _, _⟩ | _ | _ | _ <;> cases h <;> rfl

/-- Who goes to let the old port go has the mutex, or has found the move over. -/
theorem GraceAt.closes_cases {g : GraceAt} (h : g.closes = true) :
    g.holds = true ∨ g.over = true := by
  rcases g with _ | _ | _ | _ | _ | ⟨_ | _⟩ | _ | _ <;> cases h
  · exact Or.inr rfl
  · exact Or.inl rfl

/-- `rot_move` takes the mutex. -/
theorem GraceInv.move {s : GraceMove} (h : GraceInv s) {kept : Bool} (hidle : s.rotState = .idle)
    (hold : s.rotOldFd = false) (hfree : s.main.holds = false) :
    GraceInv { s with c2s := .locked kept } := by
  have hover : s.main.over ≠ true := fun hover => absurd ((h.overOpen hover).symm.trans hold) nofun
  refine ⟨h.t0_le, h.measured, h.stored, h.confirmed, h.pending, nofun, fun _ => ⟨hidle, hfree⟩,
    fun hopen => absurd (hopen.symm.trans hold) nofun,
    fun hopen => absurd (hopen.symm.trans hold) nofun, h.overOpen, h.age, fun hcloses => ?_,
    fun hback => ?_, h.open_ended⟩
  · rcases s.main.closes_cases hcloses with hholds | hover'
    · exact absurd (hholds.symm.trans hfree) nofun
    · exact absurd hover' hover
  · rw [hback] at hfree
    exact absurd hfree nofun

/-- `rot_move` goes on, while it holds the mutex and the old port is closed. -/
theorem GraceInv.moving {s s' : GraceMove} (h : GraceInv s) (hopens : s.c2s.opens = true)
    (hst : s'.rotState = s.rotState) (hold : s'.rotOldFd = s.rotOldFd)
    (hmain : s'.main = s.main) (hclock : s'.clock = s.clock)
    (ht0 : s.rotT0Ms.toNat ≤ s'.rotT0Ms.toNat ∧ s'.rotT0Ms.toNat ≤ s.clock.toNat)
    (hs2c : s'.s2c = s.s2c)
    (hstored : ∀ c, s.s2c = .stored c → c.toNat ≤ s'.rotT0Ms.toNat + s'.rotAnsMs.toNat)
    (hended : s'.ended = none ∨ s'.ended = s.ended ∧ s'.rotT0Ms = s.rotT0Ms ∧
      s'.rotAnsMs = s.rotAnsMs)
    (hbegun : s'.c2s.begun = true → s'.ended = none) : GraceInv s' := by
  obtain ⟨hclosed, hover, hcloses⟩ := h.not_over hopens
  have hholds : s.c2s.holds = true := by
    revert hopens
    cases s.c2s <;> simp [MoveAt.opens, MoveAt.holds]
  obtain ⟨hidle, hfree⟩ := h.held hholds
  have hclosed' : s'.rotOldFd = false := hold.trans hclosed
  refine ⟨?_, fun c ans hm => ?_, fun c hc => ?_, fun c hc => ?_, fun hp => ?_, hbegun,
    fun _ => ?_, fun hopen => ?_, fun hopen => ?_, fun hover' => ?_, fun a ha => ?_,
    fun hc => ?_, fun hback => ?_, fun hopen => absurd (hopen.symm.trans hclosed') nofun⟩
  · rw [hclock]
    exact ht0.2
  · have hm' := h.measured c ans (hs2c ▸ hm)
    rw [hclock]
    exact ⟨hm'.1, hm'.2.trans (by omega)⟩
  · rw [hclock]
    exact ⟨(h.stored c (hs2c ▸ hc)).1, hstored c (hs2c ▸ hc)⟩
  · rcases hended with hnone | ⟨hsame, ht0', hans⟩
    · exact absurd (hc.symm.trans hnone) nofun
    · rw [ht0', hans, hs2c]
      exact h.confirmed c (hsame ▸ hc)
  · exact absurd (hp.symm.trans (hst.trans hidle)) nofun
  · rw [hst, hmain]
    exact ⟨hidle, hfree⟩
  · exact absurd (hopen.symm.trans hclosed') nofun
  · exact absurd (hopen.symm.trans hclosed') nofun
  · rw [hmain, hover] at hover'
    exact absurd hover' nofun
  · have hover' := GraceAt.over_of_age ha
    rw [hmain, hover] at hover'
    exact absurd hover' nofun
  · rw [hmain, hcloses] at hc
    exact absurd hc nofun
  · rw [hmain] at hback
    rw [hback] at hfree
    exact absurd hfree nofun

/-- `rot_move` stores `rot_old_fd`. -/
theorem GraceInv.open {s : GraceMove} (h : GraceInv s) {kept : Bool}
    (hat : s.c2s = .cleared kept) :
    GraceInv { s with rotOldFd := kept, rotDual := kept, c2s := .opened } := by
  obtain ⟨-, hover, hcloses⟩ := h.not_over (by rw [hat]; rfl)
  obtain ⟨hidle, hfree⟩ := h.held (by rw [hat]; rfl)
  have hnone := h.begun (by rw [hat]; rfl)
  refine ⟨h.t0_le, h.measured, h.stored, h.confirmed, h.pending, fun _ => hnone,
    fun _ => ⟨hidle, hfree⟩, fun _ => rfl, fun _ _ => Or.inr (Or.inl rfl),
    fun hover' => absurd (hover'.symm.trans hover) nofun, h.age,
    fun hc => absurd (hc.symm.trans hcloses) nofun, fun hback => ?_,
    fun _ how e he => absurd (he.symm.trans hnone) nofun⟩
  dsimp only at hback
  rw [hback] at hfree
  exact absurd hfree nofun

/-- `rot_move` stores `rot_state` and releases the mutex. -/
theorem GraceInv.pend {s : GraceMove} (h : GraceInv s) (hat : s.c2s = .opened) :
    GraceInv { s with rotState := .pending, c2s := .idle } := by
  obtain ⟨-, hfree⟩ := h.held (by rw [hat]; rfl)
  have hnone := h.begun (by rw [hat]; rfl)
  refine ⟨h.t0_le, h.measured, h.stored, h.confirmed, fun _ => hnone, fun _ => hnone, nofun,
    fun _ => rfl, fun _ _ => Or.inl rfl, h.overOpen, h.age, fun hc => ?_, fun hback => ?_,
    h.open_ended⟩
  · have hnot := (h.closes hc).2.1
    rw [hat] at hnot
    exact absurd hnot nofun
  · dsimp only at hback
    rw [hback] at hfree
    exact absurd hfree nofun

/-! ### The steps of the s2c thread -/

/-- `rot_answered` before the CAS: the answer it brings is not later than it says. -/
theorem GraceInv.answering {s s' : GraceMove} (h : GraceInv s) (hst : s'.rotState = s.rotState)
    (hold : s'.rotOldFd = s.rotOldFd) (hc2s : s'.c2s = s.c2s) (hmain : s'.main = s.main)
    (hclock : s'.clock = s.clock) (ht0 : s'.rotT0Ms = s.rotT0Ms) (hended : s'.ended = s.ended)
    (hmeasured : ∀ c ans, s'.s2c = .measured c ans →
      c.toNat ≤ s.clock.toNat ∧ c.toNat ≤ s.rotT0Ms.toNat + ans.toNat)
    (hstored : ∀ c, s'.s2c = .stored c →
      c.toNat ≤ s.clock.toNat ∧ c.toNat ≤ s.rotT0Ms.toNat + s'.rotAnsMs.toNat)
    (hconfirmed : ∀ c, s.ended = some (.confirmed, c) →
      s'.rotAnsMs = s.rotAnsMs ∧ s'.s2c.asks = false) : GraceInv s' := by
  have hheard : s.HeardOut → s'.HeardOut := by
    rintro ⟨how, e, he, hge⟩
    exact ⟨how, e, hended.trans he, by rw [hclock]; exact hge⟩
  refine ⟨?_, ?_, ?_, fun c hc => ?_, ?_, ?_, ?_, ?_, ?_, ?_, ?_, fun hc => ?_, ?_, ?_⟩
  · rw [hclock, ht0]
    exact h.t0_le
  · rw [hclock, ht0]
    exact hmeasured
  · rw [hclock, ht0]
    exact hstored
  · rw [hended] at hc
    rw [ht0, (hconfirmed c hc).1]
    exact ⟨(h.confirmed c hc).1, (hconfirmed c hc).2⟩
  · rw [hst, hended]
    exact h.pending
  · rw [hc2s, hended]
    exact h.begun
  · rw [hc2s, hst, hmain]
    exact h.held
  · rw [hold, hc2s]
    exact h.opens
  · rw [hold, hended, hst, hc2s, hmain]
    exact h.kept
  · rw [hmain, hold]
    exact h.overOpen
  · rw [hmain, ht0, hclock]
    exact h.age
  · rw [hmain] at hc
    rw [hst, hc2s, hold]
    obtain ⟨hidle, hfree, hh⟩ := h.closes hc
    exact ⟨hidle, hfree, fun hopen => hheard (hh hopen)⟩
  · rw [hmain, hst, hc2s, hold]
    exact h.back
  · rw [hold, hended]
    exact h.open_ended

/-- The CAS of `rot_answered` on a move that is pending. -/
theorem GraceInv.confirm {s : GraceMove} (h : GraceInv s) {c : UInt64} (hat : s.s2c = .stored c)
    (hpending : s.rotState = .pending) :
    GraceInv { s with rotState := .idle, s2c := .won, ended := some (.confirmed, c) } := by
  have hnone := h.pending hpending
  have hfree : s.c2s.holds = false := by
    rcases Bool.eq_false_or_eq_true s.c2s.holds with hholds | hfree
    · exact absurd ((h.held hholds).1.symm.trans hpending) nofun
    · exact hfree
  have hbegun : s.c2s.begun ≠ true := by
    revert hfree
    cases s.c2s <;> simp [MoveAt.begun, MoveAt.holds]
  refine ⟨h.t0_le, nofun, nofun, fun c' hc => ?_, nofun, fun hb => absurd hb hbegun,
    fun hholds => ⟨rfl, (h.held hholds).2⟩, h.opens, nofun, h.overOpen, h.age, fun hc => ?_,
    fun hback => ⟨rfl, (h.back hback).2⟩, fun _ how e he => ?_⟩
  · obtain ⟨-, rfl⟩ := Prod.mk.inj (Option.some.inj hc)
    exact ⟨(h.stored c hat).2, rfl⟩
  · exact absurd ((h.closes hc).1.symm.trans hpending) nofun
  · exact (Prod.mk.inj (Option.some.inj he)).1.symm

/-! ### The steps of the main thread -/

/-- A load of `rot_main_poll`, or its return. -/
theorem GraceInv.polling {s : GraceMove} (h : GraceInv s) {g : GraceAt}
    (hholds : s.main.holds = false) (hg : g.holds = false)
    (hover : g.over = true → s.rotOldFd = true)
    (hage : ∀ a, g.age? = some a → s.rotT0Ms.toNat + a.toNat ≤ s.clock.toNat)
    (hcloses : g.closes = true → s.rotState = .idle ∧ s.c2s.holds = false ∧ s.HeardOut) :
    GraceInv { s with main := g } := by
  refine ⟨h.t0_le, h.measured, h.stored, h.confirmed, h.pending, h.begun,
    fun hc2s => ⟨(h.held hc2s).1, hg⟩, h.opens, fun hopen hnone => ?_, hover, hage,
    fun hc => ?_, fun hback => ?_, h.open_ended⟩
  · rcases h.kept hopen hnone with hpending | hc2s | hback
    · exact Or.inl hpending
    · exact Or.inr (Or.inl hc2s)
    · rw [hback] at hholds
      exact absurd hholds nofun
  · obtain ⟨hidle, hfree, hheard⟩ := hcloses hc
    exact ⟨hidle, hfree, fun _ => hheard⟩
  · dsimp only at hback
    rw [hback] at hg
    exact absurd hg nofun

/-- **A poll that found the move over, and ends its wait, has waited for `ROT_GRACE_MS`.** -/
theorem GraceInv.heardOut {s : GraceMove} (h : GraceInv s) {age : UInt64} {dual : Bool}
    (hat : s.main = .dual .idle age dual)
    (hwait : graceOver .idle age dual s.rotRefused s.rotAnsMs = true) (hidle : s.rotState = .idle)
    (hfree : s.c2s.holds = false) : s.HeardOut := by
  have hopen : s.rotOldFd = true := h.overOpen (by rw [hat]; rfl)
  have hage := h.age age (by rw [hat]; rfl)
  have hgrace := le_of_graceOver hwait
  cases hended : s.ended with
  | none =>
      rcases h.kept hopen hended with hpending | hholds | hmain
      · exact absurd (hpending.symm.trans hidle) nofun
      · exact absurd (hholds.symm.trans hfree) nofun
      · exact absurd (hmain.symm.trans hat) nofun
  | some x =>
      obtain ⟨how, e⟩ := x
      refine ⟨how, e, hended, ?_⟩
      obtain rfl := h.open_ended hopen how e hended
      have hans := (h.confirmed e hended).1
      omega

/-- `rot_main_poll` takes the mutex and lets the old port go. -/
theorem GraceInv.letGo {s : GraceMove} (h : GraceInv s) (hidle : s.rotState = .idle)
    (hfree : s.c2s.holds = false) (hmain : s.main ≠ .back)
    (hheard : s.rotOldFd = true → s.HeardOut) : GraceInv { s with main := .letGo } := by
  refine ⟨h.t0_le, h.measured, h.stored, h.confirmed, h.pending, h.begun,
    fun hc2s => absurd (hc2s.symm.trans hfree) nofun, h.opens, fun hopen hnone => ?_, nofun,
    nofun, fun _ => ⟨hidle, hfree, hheard⟩, nofun, h.open_ended⟩
  rcases h.kept hopen hnone with hpending | hholds | hback
  · exact Or.inl hpending
  · exact Or.inr (Or.inl hholds)
  · exact absurd hback hmain

/-- A step of `rot_move`. -/
theorem GraceInv.move_step {s s' : GraceMove} {e : GraceEvent} (h : GraceInv s)
    (he : e ∈ [.giveUp, .stamp, .clear, .open, .pend]) (hg : GraceMeets s e)
    (hs : graceStep s e = some s') : GraceInv s' := by
  simp only [List.mem_cons, List.not_mem_nil, or_false] at he
  rcases he with rfl | rfl | rfl | rfl | rfl
  · rw [graceStep] at hs
    split at hs
    · rename_i kept hat
      obtain rfl := Option.some.inj hs
      exact h.moving (by rw [hat]; rfl) rfl rfl rfl rfl ⟨le_rfl, h.t0_le⟩ rfl
        (fun c hc => (h.stored c hc).2) (Or.inr ⟨rfl, rfl, rfl⟩) nofun
    · contradiction
  · rw [graceStep] at hs
    split at hs
    · rename_i kept hat
      obtain rfl := Option.some.inj hs
      exact h.moving (by rw [hat]; rfl) rfl rfl rfl rfl ⟨h.t0_le, le_rfl⟩ rfl
        (fun c hc => le_add_right (h.stored c hc).1) (Or.inl rfl) fun _ => rfl
    · contradiction
  · rw [graceStep] at hs
    split at hs
    · rename_i kept hat
      obtain rfl := Option.some.inj hs
      have hnone := h.begun (by rw [hat]; rfl)
      exact h.moving (by rw [hat]; rfl) rfl rfl rfl rfl ⟨le_rfl, h.t0_le⟩ rfl
        (fun c hc => le_add_right (hg c hc)) (Or.inl hnone) fun _ => hnone
    · contradiction
  · rw [graceStep] at hs
    split at hs
    · rename_i kept hat
      obtain rfl := Option.some.inj hs
      exact h.open hat
    · contradiction
  · obtain ⟨hat, rfl⟩ := Option.ite_some_none_eq_some.mp hs
    exact h.pend hat

/-- A step of `rot_answered`. -/
theorem GraceInv.answer_step {s s' : GraceMove} {e : GraceEvent} (h : GraceInv s)
    (he : e ∈ [.test, .measure, .store, .confirm, .drop]) (hg : GraceMeets s e)
    (hs : graceStep s e = some s') : GraceInv s' := by
  -- a move that was confirmed has no call in front of its CAS
  have hasks : s.s2c.asks = true → ∀ c, s.ended ≠ some (.confirmed, c) := fun hasks c hc =>
    absurd (hasks.symm.trans (h.confirmed c hc).2) nofun
  simp only [List.mem_cons, List.not_mem_nil, or_false] at he
  rcases he with rfl | rfl | rfl | rfl | rfl
  · obtain ⟨⟨-, hpending⟩, rfl⟩ := Option.ite_some_none_eq_some.mp hs
    refine h.answering rfl rfl rfl rfl rfl rfl rfl nofun nofun fun c hc => ?_
    exact absurd (hc.symm.trans (h.pending hpending)) nofun
  · obtain ⟨hat, rfl⟩ := Option.ite_some_none_eq_some.mp hs
    refine h.answering rfl rfl rfl rfl rfl rfl rfl (fun c ans hm => ?_) nofun
      fun c hc => absurd hc (hasks (by rw [hat]; rfl) c)
    obtain ⟨rfl, rfl⟩ := AnswerAt.measured.inj hm
    exact ⟨le_rfl, le_toNat_ans h.t0_le hg⟩
  · rw [graceStep] at hs
    split at hs
    · rename_i c₀ ans hat
      obtain rfl := Option.some.inj hs
      refine h.answering rfl rfl rfl rfl rfl rfl rfl nofun (fun c hst => ?_)
        fun c hc => absurd hc (hasks (by rw [hat]; rfl) c)
      obtain rfl := AnswerAt.stored.inj hst
      exact h.measured c₀ ans hat
    · contradiction
  · rw [graceStep] at hs
    split at hs
    · rename_i c₀ hat
      split_ifs at hs with hpending
      · obtain rfl := Option.some.inj hs
        exact h.confirm hat hpending
      · obtain rfl := Option.some.inj hs
        exact h.answering rfl rfl rfl rfl rfl rfl rfl nofun nofun fun _ _ => ⟨rfl, rfl⟩
    · contradiction
  · obtain ⟨-, rfl⟩ := Option.ite_some_none_eq_some.mp hs
    exact h.answering rfl rfl rfl rfl rfl rfl rfl nofun nofun fun _ _ => ⟨rfl, rfl⟩

/-- A step of `rot_main_poll` before the mutex. -/
theorem GraceInv.poll_step {s s' : GraceMove} {e : GraceEvent} (h : GraceInv s)
    (he : e ∈ [.loadOld, .loadSt, .readAge, .loadDual, .wait]) (hg : GraceMeets s e)
    (hs : graceStep s e = some s') : GraceInv s' := by
  simp only [List.mem_cons, List.not_mem_nil, or_false] at he
  rcases he with rfl | rfl | rfl | rfl | rfl
  · obtain ⟨hat, rfl⟩ := Option.ite_some_none_eq_some.mp hs
    exact h.polling (by rw [hat]; rfl) rfl (fun hover => hover) nofun nofun
  · rw [graceStep] at hs
    split at hs
    · rename_i isOpen hat
      split_ifs at hs with hreturn
      · obtain rfl := Option.some.inj hs
        exact h.polling (by rw [hat]; rfl) rfl nofun nofun nofun
      · obtain rfl := Option.some.inj hs
        refine h.polling (by rw [hat]; rfl) rfl (fun hover => ?_) nofun nofun
        -- it goes on with no move pending only when the old port is open
        have hst : s.rotState = .idle := by
          cases hstate : s.rotState with
          | idle => rfl
          | pending =>
              rw [hstate] at hover
              cases hover
        have hopen : isOpen = true := by
          rw [hst] at hreturn
          simpa using hreturn
        exact h.overOpen (by rw [hat]; exact hopen)
    · contradiction
  · rw [graceStep] at hs
    split at hs
    · rename_i st hat
      obtain rfl := Option.some.inj hs
      cases st with
      | idle =>
          refine h.polling (by rw [hat]; rfl) rfl (fun _ => h.overOpen (by rw [hat]; rfl))
            (fun a ha => ?_) nofun
          obtain rfl := Option.some.inj ha
          have hle := h.t0_le
          rw [toNat_age hle]
          omega
      | pending => exact h.polling (by rw [hat]; rfl) rfl nofun nofun nofun
    · contradiction
  · rw [graceStep] at hs
    split at hs
    · rename_i st age hat
      obtain rfl := Option.some.inj hs
      cases st with
      | idle =>
          exact h.polling (by rw [hat]; rfl) rfl (fun _ => h.overOpen (by rw [hat]; rfl))
            (fun a ha => h.age a (by rw [hat]; exact ha)) nofun
      | pending => exact h.polling (by rw [hat]; rfl) rfl nofun nofun nofun
    · contradiction
  · rw [graceStep] at hs
    split at hs
    · rename_i st age dual hat
      split_ifs at hs with hwait
      · obtain rfl := Option.some.inj hs
        cases st with
        | idle =>
            obtain ⟨hidle, hfree⟩ := hg age dual hat hwait
            exact h.polling (by rw [hat]; rfl) rfl (fun _ => h.overOpen (by rw [hat]; rfl)) nofun
              fun _ => ⟨hidle, hfree, h.heardOut hat hwait hidle hfree⟩
        | pending => exact h.polling (by rw [hat]; rfl) rfl nofun nofun nofun
      · obtain rfl := Option.some.inj hs
        exact h.polling (by rw [hat]; rfl) rfl nofun nofun nofun
    · contradiction

/-- The mutex is tried. -/
theorem GraceInv.lock_step {s s' : GraceMove} (h : GraceInv s) (hg : GraceMeets s .lock)
    (hs : graceStep s .lock = some s') : GraceInv s' := by
  rw [graceStep] at hs
  split at hs
  · rename_i st hat
    split_ifs at hs with hbusy hturn
    · obtain rfl := Option.some.inj hs
      exact h.polling (by rw [hat]; rfl) rfl nofun nofun nofun
    · obtain ⟨rfl, hpending⟩ := hturn
      obtain rfl := Option.some.inj hs
      have hfree := Bool.eq_false_iff.mpr hbusy
      exact ⟨h.t0_le, h.measured, h.stored, h.confirmed, nofun, h.begun,
        fun hholds => absurd hholds hbusy, h.opens, fun _ _ => Or.inr (Or.inr rfl), nofun, nofun,
        nofun, fun _ => ⟨rfl, hfree, hg hat hfree⟩, h.open_ended⟩
    · obtain rfl := Option.some.inj hs
      have hfree := Bool.eq_false_iff.mpr hbusy
      cases st with
      | idle =>
          obtain ⟨hidle, -, hheard⟩ := h.closes (by rw [hat]; rfl)
          exact h.letGo hidle hfree (by rw [hat]; nofun) hheard
      | pending =>
          -- the move was over before the CAS: there is nothing to close
          have hnot : s.rotState ≠ .pending := fun hpending => hturn ⟨rfl, hpending⟩
          have hidle : s.rotState = .idle := by
            revert hnot
            cases s.rotState <;> simp
          have hclosed := hg hat hfree
          exact h.letGo hidle hfree (by rw [hat]; nofun)
            fun hopen => absurd (hopen.symm.trans hclosed) nofun
  · contradiction

/-- **The invariant survives every step that meets the condition.** -/
theorem GraceInv.step {s s' : GraceMove} {e : GraceEvent} (h : GraceInv s) (hg : GraceMeets s e)
    (hs : graceStep s e = some s') : GraceInv s' := by
  cases e with
  | pass ms =>
      obtain ⟨hlt, rfl⟩ := Option.ite_some_none_eq_some.mp hs
      exact h.pass hlt
  | refuse =>
      obtain ⟨-, rfl⟩ := Option.ite_some_none_eq_some.mp hs
      exact ⟨h.t0_le, h.measured, h.stored, h.confirmed, h.pending, h.begun, h.held, h.opens,
        h.kept, h.overOpen, h.age, h.closes, h.back, h.open_ended⟩
  | move kept =>
      obtain ⟨⟨-, hidle, hold, hfree⟩, rfl⟩ := Option.ite_some_none_eq_some.mp hs
      exact h.move hidle hold hfree
  | giveUp => exact h.move_step (by simp) hg hs
  | stamp => exact h.move_step (by simp) hg hs
  | clear => exact h.move_step (by simp) hg hs
  | «open» => exact h.move_step (by simp) hg hs
  | pend => exact h.move_step (by simp) hg hs
  | test => exact h.answer_step (by simp) hg hs
  | measure => exact h.answer_step (by simp) hg hs
  | store => exact h.answer_step (by simp) hg hs
  | confirm => exact h.answer_step (by simp) hg hs
  | drop => exact h.answer_step (by simp) hg hs
  | loadOld => exact h.poll_step (by simp) hg hs
  | loadSt => exact h.poll_step (by simp) hg hs
  | readAge => exact h.poll_step (by simp) hg hs
  | loadDual => exact h.poll_step (by simp) hg hs
  | wait => exact h.poll_step (by simp) hg hs
  | lock => exact h.lock_step hg hs
  | close =>
      obtain ⟨hat, rfl⟩ := Option.ite_some_none_eq_some.mp hs
      have hfree := (h.closes (by rw [hat]; rfl)).2.1
      exact ⟨h.t0_le, h.measured, h.stored, h.confirmed, h.pending, h.begun,
        fun hholds => absurd (hholds.symm.trans hfree) nofun, nofun, nofun, nofun, nofun, nofun,
        nofun, nofun⟩
  | goBack =>
      obtain ⟨hat, rfl⟩ := Option.ite_some_none_eq_some.mp hs
      obtain ⟨hidle, hfree, hclosed⟩ := h.back hat
      refine ⟨h.t0_le, h.measured, h.stored, nofun, fun hp => ?_, fun hb => ?_,
        fun hholds => absurd (hholds.symm.trans hfree) nofun, h.opens, nofun, nofun, nofun, nofun,
        nofun, fun hopen => absurd (hopen.symm.trans hclosed) nofun⟩
      · exact absurd (hp.symm.trans hidle) nofun
      · revert hfree hb
        cases s.c2s <;> simp [MoveAt.begun, MoveAt.holds]

/-- **The old port is heard for its whole grace**, in every state reached by a run in which no
move that keeps its old port goes back, no poll lets it go on a state that is no longer so, and
no answer is measured short. -/
theorem closesInTime {s t : GraceMove} {es : List GraceEvent} (h0 : s.Started)
    (hC : graceMachine.Meets GraceMeets s es) (hrun : graceMachine.run s es = some t) :
    ClosesInTime t := by
  have hinit : GraceInv s := by
    refine ⟨h0.t0_le, fun c ans hm => ?_, fun c hc => ?_, fun c hc => ?_, fun _ => h0.ended,
      fun _ => h0.ended, fun hholds => ?_, fun hopen => ?_, fun hopen => ?_, fun hover => ?_,
      fun a ha => ?_, fun hc => ?_, fun hback => ?_,
      fun hopen => absurd (hopen.symm.trans h0.rotOldFd) nofun⟩
    · exact absurd (hm.symm.trans h0.s2c) nofun
    · exact absurd (hc.symm.trans h0.s2c) nofun
    · exact absurd (hc.symm.trans h0.ended) nofun
    · rw [h0.c2s] at hholds
      exact absurd hholds nofun
    · exact absurd (hopen.symm.trans h0.rotOldFd) nofun
    · exact absurd (hopen.symm.trans h0.rotOldFd) nofun
    · rw [h0.main] at hover
      exact absurd hover nofun
    · rw [h0.main] at ha
      exact absurd ha nofun
    · rw [h0.main] at hc
      exact absurd hc nofun
    · exact absurd (hback.symm.trans h0.main) nofun
  have hinv : GraceInv t := Machine.guarded_induction (fun _ _ _ => GraceInv.step) hinit hC hrun
  intro s' hs hopen
  obtain ⟨hat, -⟩ := Option.ite_some_none_eq_some.mp hs
  exact (hinv.closes (by rw [hat]; rfl)).2.2 hopen

/-- A poll that lets the old port go. -/
def letGoPoll : List GraceEvent :=
  [.loadOld, .loadSt, .readAge, .loadDual, .wait, .lock]

/-- **A move that keeps its old port and goes back** at its deadline has it closed by the next
poll, and not heard out if that comes within `ROT_GRACE_MS`. -/
theorem not_closesInTime_of_goBack {s : GraceMove} {ms : UInt64} (hat : s.main = .back)
    (hst : s.rotState = .idle) (hfree : s.c2s.holds = false) (hopen : s.rotOldFd = true)
    (hans : s.rotAnsMs = 0) (hage : s.rotT0Ms.toNat + rotGraceMs.toNat ≤ s.clock.toNat)
    (hms : ms.toNat < rotGraceMs.toNat) (hclock : s.clock.toNat + ms.toNat < 2 ^ 64) :
    ∃ t, graceMachine.run s (.goBack :: .pass ms :: letGoPoll) = some t ∧ ¬ ClosesInTime t := by
  have hadd : (s.clock + ms).toNat = s.clock.toNat + ms.toNat := by
    rw [UInt64.toNat_add, Nat.mod_eq_of_lt hclock]
  have hover : graceOver .idle (s.clock + ms - s.rotT0Ms) false s.rotRefused s.rotAnsMs = true := by
    have hle : s.rotT0Ms.toNat ≤ (s.clock + ms).toNat := by omega
    have hold := toNat_age hle
    have hgrace : (0 : UInt32).toUInt64 + rotGraceMs = rotGraceMs := by decide
    rw [graceOver, hans, hgrace, Bool.not_eq_true', decide_eq_false_iff_not, UInt64.lt_iff_toNat_lt]
    omega
  refine ⟨{ s with
    clock := s.clock + ms, rotDual := false, main := .letGo
    ended := some (.rolledBack, s.clock) }, ?_, fun hcloses => ?_⟩
  · have hpass : s.clock.toNat + ms.toNat < 18446744073709551616 := hclock
    simp [letGoPoll, Machine.run_cons, graceMachine, graceStep, hat, hst, hfree, hopen, hpass,
      hover]
  · obtain ⟨how, e, hended, hge⟩ := hcloses _ rfl hopen
    obtain ⟨-, rfl⟩ := Prod.mk.inj (Option.some.inj hended)
    dsimp only at hge
    omega

/-- The threads before the first move. -/
def beforeMove : GraceMove where
  clock := 100000
  rotState := .idle
  rotOldFd := false
  rotDual := false
  rotRefused := false
  rotT0Ms := 0
  rotAnsMs := 0
  c2s := .idle
  s2c := .idle
  main := .idle
  ended := none

theorem started_beforeMove : beforeMove.Started :=
  ⟨rfl, rfl, by decide, rfl, rfl, rfl, rfl⟩


/-- A move without the old port, which stays silent and goes back. -/
def backEvents : List GraceEvent :=
  [.move false, .stamp, .clear, .open, .pend, .pass 2000, .loadOld, .loadSt, .readAge, .loadDual,
    .wait, .lock, .goBack]

/-- A move, and the answer of the new port. -/
def answerEvents : List GraceEvent :=
  [.move true, .stamp, .clear, .open, .pend, .pass 40, .test, .measure, .store, .confirm, .drop]

/-- The main loop lets the old port go behind its grace. -/
def letGoEvents : List GraceEvent :=
  .pass 3100 :: letGoPoll

/-- The first move has gone back. -/
def wentBack : GraceMove :=
  { beforeMove with
    clock := 102000
    rotT0Ms := 100000
    ended := some (.rolledBack, 102000) }

/-- The new port of the second has answered. -/
def answeredMove : GraceMove :=
  { beforeMove with
    clock := 102040
    rotOldFd := true
    rotT0Ms := 102000
    rotAnsMs := 41
    ended := some (.confirmed, 102040) }

theorem run_backEvents : graceMachine.run beforeMove backEvents = some wentBack := by
  decide

theorem run_answerEvents : graceMachine.run wentBack answerEvents = some answeredMove := by
  decide

theorem meets_backEvents : graceMachine.Meets GraceMeets beforeMove backEvents := by
  refine .cons trivial rfl (.cons trivial rfl (.cons ?_ rfl (.cons trivial rfl (.cons trivial rfl
    (.cons trivial rfl (.cons trivial rfl (.cons trivial rfl (.cons trivial rfl (.cons trivial rfl
      (.cons ?_ rfl (.cons ?_ rfl (.cons trivial rfl (Machine.meets_nil _ _)))))))))))))
  · exact nofun
  · exact nofun
  · exact fun _ _ => rfl

theorem meets_answerEvents : graceMachine.Meets GraceMeets wentBack answerEvents := by
  refine .cons trivial rfl (.cons trivial rfl (.cons ?_ rfl (.cons trivial rfl (.cons trivial rfl
    (.cons trivial rfl (.cons trivial rfl (.cons ?_ rfl (.cons trivial rfl (.cons trivial rfl
      (.cons trivial rfl (Machine.meets_nil _ _)))))))))))
  · exact nofun
  · show (102040 : UInt64).toNat < (102000 : UInt64).toNat + 2 ^ 32
    decide

theorem meets_letGoEvents : graceMachine.Meets GraceMeets answeredMove letGoEvents := by
  refine .cons trivial rfl (.cons trivial rfl (.cons trivial rfl (.cons trivial rfl
    (.cons trivial rfl (.cons ?_ rfl (.cons ?_ rfl (Machine.meets_nil _ _)))))))
  · exact fun _ _ _ _ => ⟨rfl, rfl⟩
  · exact nofun

/-- A first move goes back, the new port of a second one answers, and its old port is let go
behind its grace. -/
theorem closesInTime_answered : ∃ t,
    graceMachine.run beforeMove (backEvents ++ (answerEvents ++ letGoEvents)) = some t ∧
      ClosesInTime t ∧ t.main = .letGo ∧ t.rotOldFd = true := by
  have hrun : graceMachine.run beforeMove (backEvents ++ (answerEvents ++ letGoEvents)) =
      some { answeredMove with clock := 105140, main := .letGo } := by
    rw [Machine.run_append, run_backEvents, Option.bind_some, Machine.run_append,
      run_answerEvents]
    decide
  have hmeets := meets_backEvents.append run_backEvents
    (meets_answerEvents.append run_answerEvents meets_letGoEvents)
  exact ⟨_, hrun, closesInTime started_beforeMove hmeets hrun, rfl, rfl⟩

/-- The new port stays silent until the deadline, the move goes back, and the next wake of the
main loop, a second later, finds the move old enough. -/
def silentEvents : List GraceEvent :=
  [.move true, .stamp, .clear, .open, .pend, .pass 3000, .loadOld, .loadSt, .readAge, .loadDual,
    .wait, .lock, .goBack, .pass 1000, .loadOld, .loadSt, .readAge, .loadDual, .wait, .lock]

/-- The new port answers at the deadline, after the main loop has loaded the state. -/
def lateAnswerEvents : List GraceEvent :=
  [.move true, .stamp, .clear, .open, .pend, .pass 3000, .test, .loadOld, .loadSt, .measure,
    .store, .confirm, .drop, .readAge, .loadDual, .wait, .lock]

/-- The old port is closed a second after the rollback, and at once after an answer that races
the deadline. -/
theorem not_closesInTime : beforeMove.Started ∧
    (∃ t, graceMachine.run beforeMove silentEvents = some t ∧ t.rotOldFd = true ∧
      t.ended = some (.rolledBack, 103000) ∧ t.clock = 104000 ∧ ¬ ClosesInTime t) ∧
    ∃ t, graceMachine.run beforeMove lateAnswerEvents = some t ∧ t.rotOldFd = true ∧
      t.ended = some (.confirmed, 103000) ∧ t.clock = 103000 ∧ ¬ ClosesInTime t := by
  refine ⟨started_beforeMove, ⟨_, rfl, rfl, rfl, rfl, fun hcloses => ?_⟩,
    ⟨_, rfl, rfl, rfl, rfl, fun hcloses => ?_⟩⟩
  · obtain ⟨how, e, hended, hge⟩ := hcloses _ rfl rfl
    obtain ⟨-, rfl⟩ := Prod.mk.inj (Option.some.inj hended)
    exact absurd hge (by decide)
  · obtain ⟨how, e, hended, hge⟩ := hcloses _ rfl rfl
    obtain ⟨-, rfl⟩ := Prod.mk.inj (Option.some.inj hended)
    exact absurd hge (by decide)

end AwgProxy
