import Mathlib.Data.Nat.Count
import AwgProxy.Config
import AwgProxy.Watchdog

/-!
# The Profile Fallback

The initiator of a profile chain moves to the next stage when its client keeps sending and
the remote keeps silent. The prober shares the tick of the main loop with the silence
watchdog, and a switch resets the watchdog's counters ahead of it.

* `monitorAt_fbSilentCount_le` — the prober counts active ticks, whether or not the client
  wants an answer on any of them.
* `forall_switches_unanswered_iff` — for which streams of ticks every switch has an
  unanswered init behind it.
* `declaresSilence_iff` — for which configurations a lasting silence is ever declared: a
  prober that is faster than the watchdog starves it.
-/

namespace AwgProxy

/-- What the main loop's prober and watchdog read of the configuration. -/
structure MonitorConfig where
  /-- `timeout`, in seconds. -/
  timeout : ℤ
  /-- `fb_after`, in seconds. -/
  fbAfter : ℤ
  /-- `profile_count`. -/
  profileCount : ℕ
  /-- `mode`. -/
  mode : AwgMode
  /-- `remote_ports.total`. -/
  ports : ℕ

/-- `fb_enabled`. -/
def MonitorConfig.fbEnabled (c : MonitorConfig) : Bool :=
  c.profileCount > 1 && c.mode = .normal

/-- `fb_checks`: the active silent ticks after which another stage is tried. -/
def MonitorConfig.fbChecks (c : MonitorConfig) : ℕ :=
  let checks := if c.fbAfter > 0 then (c.fbAfter / 5).toNat else 4
  if checks < 1 then 1 else checks

/-- The ticks the watchdog waits for. -/
abbrev MonitorConfig.waitTicks (c : MonitorConfig) : ℕ :=
  AwgProxy.waitTicks c.timeout c.ports

/-- What the main loop has seen since the last tick, the client's traffic included. -/
structure MainTick extends Tick where
  /-- `had_activity`: a packet of the client. -/
  hadActivity : Bool

/-- The counters of the main loop. -/
structure Monitor extends Watchdog where
  /-- `fb_silent_count`. -/
  fbSilentCount : ℕ
  /-- `active_profile`. -/
  activeProfile : ℕ
  deriving DecidableEq

/-- The counters at the start. -/
def Monitor.start : Monitor := ⟨.start, 0, 0⟩

/-- The fallback prober on one tick, with the stage it switches to. -/
def fallbackTick (c : MonitorConfig) (m : Monitor) (t : MainTick) : Monitor × Option ℕ :=
  if c.fbEnabled then
    if t.hadRemoteRx then ({ m with fbSilentCount := 0 }, none)
    else if t.hadActivity then
      if m.fbSilentCount + 1 ≥ c.fbChecks then
        let next := if m.activeProfile + 1 ≥ c.profileCount then 0 else m.activeProfile + 1
        -- the switch also clears the watchdog's view of this silence
        (⟨⟨0, false, m.hopRounds⟩, 0, next⟩, some next)
      else ({ m with fbSilentCount := m.fbSilentCount + 1 }, none)
    else (m, none)
  else (m, none)

/-- What one tick does. -/
structure TickResult where
  /-- The counters after the tick. -/
  monitor : Monitor
  /-- The stage `switch_profile` is called with. -/
  switched : Option ℕ
  /-- What the watchdog raises. -/
  raised : Raised

/-- One tick of the main loop: the prober, then the watchdog. -/
def monitorTick (c : MonitorConfig) (m : Monitor) (t : MainTick) : TickResult :=
  let f := fallbackTick c m t
  let w := watchdogTick (checksNeeded c.timeout) (hopChecks c.ports) f.1.toWatchdog t.toTick
  ⟨{ f.1 with toWatchdog := w.1 }, f.2, w.2⟩

section

variable (c : MonitorConfig) (ticks : ℕ → MainTick)

/-- The counters before tick `n`. -/
def monitorAt : ℕ → Monitor
  | 0 => .start
  | n + 1 => (monitorTick c (monitorAt n) (ticks n)).monitor

/-- Tick `n` of the run. -/
def resultAt (n : ℕ) : TickResult :=
  monitorTick c (monitorAt c ticks n) (ticks n)

/-- Tick `n` switches the stage. -/
def SwitchesAt (n : ℕ) : Prop :=
  (resultAt c ticks n).switched ≠ none

/-- Tick `n` declares the connection dead. -/
def DeclaresAt (n : ℕ) : Prop :=
  (resultAt c ticks n).raised.remoteDead = true

/-- The watchdog's share of the ticks. -/
def watchTicks (n : ℕ) : Tick :=
  (ticks n).toTick

/-- The ticks from `a` to `n` on which the client sent something. -/
def activeTicks (a n : ℕ) : ℕ :=
  Nat.count (fun i => a ≤ i ∧ (ticks i).hadActivity = true) (n + 1)

/-- An init was seen by tick `n`, and nothing of the remote since. -/
def HasUnansweredInit (n : ℕ) : Prop :=
  ∃ u, u ≤ n ∧ (ticks u).hadInit = true ∧ Silent (watchTicks ticks) u n

end

variable {c : MonitorConfig} {ticks : ℕ → MainTick}

theorem one_le_fbChecks (c : MonitorConfig) : 1 ≤ c.fbChecks := by
  rw [MonitorConfig.fbChecks]
  generalize (if c.fbAfter > 0 then (c.fbAfter / 5).toNat else 4) = checks
  split <;> omega

/-! ### The prober -/

/-- **One tick of the prober.** It is off, or hears the remote, or counts an active tick
and switches when the count is full, or waits. -/
theorem fallbackTick_cases (c : MonitorConfig) (m : Monitor) (t : MainTick) :
    let r := fallbackTick c m t
    c.fbEnabled = false ∧ r = (m, none) ∨
      c.fbEnabled = true ∧ t.hadRemoteRx = true ∧ r.2 = none ∧ r.1.fbSilentCount = 0 ∧
        r.1.toWatchdog = m.toWatchdog ∨
      c.fbEnabled = true ∧ t.hadRemoteRx = false ∧ t.hadActivity = true ∧
        c.fbChecks ≤ m.fbSilentCount + 1 ∧ r.2 ≠ none ∧ r.1.fbSilentCount = 0 ∧
        r.1.silentTicks = 0 ∧ r.1.initUnanswered = false ∨
      c.fbEnabled = true ∧ t.hadRemoteRx = false ∧ t.hadActivity = true ∧
        m.fbSilentCount + 1 < c.fbChecks ∧ r.2 = none ∧
        r.1.fbSilentCount = m.fbSilentCount + 1 ∧ r.1.toWatchdog = m.toWatchdog ∨
      c.fbEnabled = true ∧ t.hadRemoteRx = false ∧ t.hadActivity = false ∧ r = (m, none) := by
  dsimp only
  rw [fallbackTick]
  by_cases hfb : c.fbEnabled = true
  · rw [if_pos hfb]
    right
    by_cases hrx : t.hadRemoteRx = true
    · rw [if_pos hrx]
      exact Or.inl ⟨hfb, hrx, rfl, rfl, rfl⟩
    rw [if_neg hrx]
    rw [Bool.not_eq_true] at hrx
    right
    by_cases hact : t.hadActivity = true
    · rw [if_pos hact]
      by_cases hfull : m.fbSilentCount + 1 ≥ c.fbChecks
      · rw [if_pos hfull]
        exact Or.inl ⟨hfb, hrx, hact, hfull, Option.some_ne_none _, rfl, rfl, rfl⟩
      · rw [if_neg hfull]
        exact Or.inr (Or.inl ⟨hfb, hrx, hact, Nat.lt_of_not_le hfull, rfl, rfl, rfl⟩)
    · rw [if_neg hact]
      rw [Bool.not_eq_true] at hact
      exact Or.inr (Or.inr ⟨hfb, hrx, hact, rfl⟩)
  · rw [if_neg hfb]
    rw [Bool.not_eq_true] at hfb
    exact Or.inl ⟨hfb, rfl⟩

/-- The watchdog does not touch the prober's counter. -/
theorem monitorTick_fbSilentCount (c : MonitorConfig) (m : Monitor) (t : MainTick) :
    (monitorTick c m t).monitor.fbSilentCount = (fallbackTick c m t).1.fbSilentCount :=
  rfl

/-- The count is never full between two ticks. -/
theorem monitorAt_fbSilentCount_lt (c : MonitorConfig) (ticks : ℕ → MainTick) (n : ℕ) :
    (monitorAt c ticks n).fbSilentCount < c.fbChecks := by
  have hpos := one_le_fbChecks c
  induction n with
  | zero => exact hpos
  | succ n ih =>
      rw [monitorAt, monitorTick_fbSilentCount]
      rcases fallbackTick_cases c (monitorAt c ticks n) (ticks n) with
        ⟨-, h⟩ | ⟨-, -, -, h, -⟩ | ⟨-, -, -, -, -, h, -⟩ | ⟨-, -, -, hlt, -, h, -⟩ | ⟨-, -, -, h⟩
      · rw [h]
        exact ih
      · rw [h]
        exact hpos
      · rw [h]
        exact hpos
      · rw [h]
        exact hlt
      · rw [h]
        exact ih

/-- The prober never adds to the watchdog's counter. -/
theorem fallbackTick_silentTicks_le (c : MonitorConfig) (m : Monitor) (t : MainTick) :
    (fallbackTick c m t).1.silentTicks ≤ m.silentTicks := by
  rcases fallbackTick_cases c m t with
    ⟨-, h⟩ | ⟨-, -, -, -, h⟩ | ⟨-, -, -, -, -, -, h, -⟩ | ⟨-, -, -, -, -, -, h⟩ | ⟨-, -, -, h⟩
  · rw [h]
  · rw [h]
  · rw [h]
    exact Nat.zero_le _
  · rw [h]
  · rw [h]

/-- The watchdog's counter is bounded as without the prober. -/
theorem monitorAt_silentTicks_le (c : MonitorConfig) (ticks : ℕ → MainTick) (n : ℕ) :
    (monitorAt c ticks n).silentTicks ≤ checksNeeded c.timeout := by
  induction n with
  | zero => exact Nat.zero_le _
  | succ n ih =>
      have hf := (fallbackTick_silentTicks_le c (monitorAt c ticks n) (ticks n)).trans ih
      rw [monitorAt]
      rcases watchdogTick_cases c.ports hf (ticks n).toTick with
        ⟨-, h, -⟩ | ⟨-, -, h, -⟩ | ⟨-, -, h, -⟩
      · exact h.le.trans (Nat.zero_le _)
      · exact h.le.trans (Nat.zero_le _)
      · refine h.le.trans ?_
        rw [silentNow]
        exact Nat.min_le_right _ _

/-! ### Which switches follow an unanswered init -/

/-- The active ticks of a stretch, up to its last tick. -/
theorem activeTicks_eq (ticks : ℕ → MainTick) (a n : ℕ) :
    activeTicks ticks a n = Nat.count (fun i => a ≤ i ∧ (ticks i).hadActivity = true) n +
      if a ≤ n ∧ (ticks n).hadActivity = true then 1 else 0 :=
  Nat.count_succ _ _

/-- Before a stretch begins none of its active ticks is counted. -/
theorem count_of_le (ticks : ℕ → MainTick) (a : ℕ) :
    Nat.count (fun i => a ≤ i ∧ (ticks i).hadActivity = true) a = 0 := by
  rw [Nat.count_iff_forall_not]
  rintro i hi ⟨hle, -⟩
  omega

/-- A silence begins with an empty count. -/
theorem SilenceStarts.fbSilentCount {a : ℕ} (ha : SilenceStarts (watchTicks ticks) a)
    (hfb : c.fbEnabled = true) : (monitorAt c ticks a).fbSilentCount = 0 := by
  rcases ha with rfl | ⟨b, rfl, hrx⟩
  · rfl
  · have hrx' : (ticks b).hadRemoteRx = true := hrx
    rw [monitorAt, monitorTick_fbSilentCount, fallbackTick, if_pos hfb, if_pos hrx']

/-- **The prober's count**: at most the active ticks of the silence. -/
theorem monitorAt_fbSilentCount_le {a n : ℕ} (ha : SilenceStarts (watchTicks ticks) a)
    (hfb : c.fbEnabled = true) (han : a ≤ n) :
    (monitorAt c ticks n).fbSilentCount ≤
      Nat.count (fun i => a ≤ i ∧ (ticks i).hadActivity = true) n := by
  induction n, han using Nat.le_induction with
  | base => rw [ha.fbSilentCount hfb]; exact Nat.zero_le _
  | succ n han ih =>
      rw [monitorAt, monitorTick_fbSilentCount, Nat.count_succ]
      rcases fallbackTick_cases c (monitorAt c ticks n) (ticks n) with
        ⟨-, h⟩ | ⟨-, -, -, h, -⟩ | ⟨-, -, -, -, -, h, -⟩ | ⟨-, -, hact, -, -, h, -⟩ | ⟨-, -, -, h⟩
      · rw [h]
        exact Nat.le_add_right_of_le ih
      · rw [h]
        exact Nat.zero_le _
      · rw [h]
        exact Nat.zero_le _
      · rw [h, if_pos ⟨han, hact⟩]
        exact Nat.succ_le_succ ih
      · rw [h]
        exact Nat.le_add_right_of_le ih

/-- Until the prober switches, it counts every active tick of a silence. -/
theorem monitorAt_fbSilentCount_eq {a n : ℕ} (ha : SilenceStarts (watchTicks ticks) a)
    (hfb : c.fbEnabled = true) (han : a ≤ n)
    (hquiet : ∀ i, a ≤ i → i < n → (ticks i).hadRemoteRx = false ∧ ¬ SwitchesAt c ticks i) :
    (monitorAt c ticks n).fbSilentCount =
      Nat.count (fun i => a ≤ i ∧ (ticks i).hadActivity = true) n := by
  induction n, han using Nat.le_induction with
  | base => rw [ha.fbSilentCount hfb, count_of_le]
  | succ n han ih =>
      have ih := ih fun i hai hin => hquiet i hai (by omega)
      obtain ⟨hrx, hno⟩ := hquiet n han (by omega)
      rw [monitorAt, monitorTick_fbSilentCount, Nat.count_succ]
      rcases fallbackTick_cases c (monitorAt c ticks n) (ticks n) with
        ⟨hoff, -⟩ | ⟨-, hrx', -⟩ | ⟨-, -, -, -, hsw, -⟩ | ⟨-, -, hact, -, -, h, -⟩ |
          ⟨-, -, hact, h⟩
      · rw [hfb] at hoff
        contradiction
      · rw [hrx] at hrx'
        contradiction
      · exact absurd hsw hno
      · rw [h, if_pos ⟨han, hact⟩, ih]
      · rw [h, if_neg fun hboth => by rw [hact] at hboth; exact Bool.false_ne_true hboth.2, ih,
          Nat.add_zero]

/-- A silence with enough active ticks makes the prober switch. -/
theorem exists_switchesAt {a n : ℕ} (ha : SilenceStarts (watchTicks ticks) a)
    (hfb : c.fbEnabled = true) (han : a ≤ n) (hsilent : Silent (watchTicks ticks) a n)
    (hfull : c.fbChecks ≤ activeTicks ticks a n) :
    ∃ m, a ≤ m ∧ m ≤ n ∧ SwitchesAt c ticks m := by
  by_contra hnone
  push Not at hnone
  have hcount := monitorAt_fbSilentCount_eq (n := n + 1) ha hfb (by omega)
    fun i hai hin => ⟨hsilent i hai (by omega), hnone i hai (by omega)⟩
  have hlt := monitorAt_fbSilentCount_lt c ticks (n + 1)
  rw [hcount] at hlt
  exact absurd hfull (Nat.not_le_of_lt hlt)

/-- Before a tick without a packet of the remote there is one with which its silence
begins. -/
theorem exists_silenceStarts {t : ℕ → Tick} {n : ℕ} (hrx : (t n).hadRemoteRx = false) :
    ∃ a, SilenceStarts t a ∧ a ≤ n ∧ Silent t a n := by
  induction n with
  | zero =>
      refine ⟨0, Or.inl rfl, le_refl 0, fun i _ hi => ?_⟩
      rwa [Nat.le_zero.mp hi]
  | succ n ih =>
      cases hn : (t n).hadRemoteRx with
      | true =>
          refine ⟨n + 1, Or.inr ⟨n, rfl, hn⟩, le_refl _, fun i hai hin => ?_⟩
          rwa [show i = n + 1 by omega]
      | false =>
          obtain ⟨a, ha, han, hsilent⟩ := ih hn
          refine ⟨a, ha, by omega, fun i hai hin => ?_⟩
          rcases Nat.lt_or_ge i (n + 1) with hlt | hge
          · exact hsilent i hai (by omega)
          · rwa [show i = n + 1 by omega]

/-- A switch happens on a silent tick, with the count full. -/
theorem SwitchesAt.spec {n : ℕ} (h : SwitchesAt c ticks n) :
    c.fbEnabled = true ∧ (ticks n).hadRemoteRx = false ∧ (ticks n).hadActivity = true ∧
      c.fbChecks ≤ (monitorAt c ticks n).fbSilentCount + 1 := by
  have h' : (fallbackTick c (monitorAt c ticks n) (ticks n)).2 ≠ none := h
  rcases fallbackTick_cases c (monitorAt c ticks n) (ticks n) with
    ⟨-, hr⟩ | ⟨-, -, hr, -⟩ | ⟨hfb, hrx, hact, hfull, -⟩ | ⟨-, -, -, -, hr, -⟩ | ⟨-, -, -, hr⟩
  · rw [hr] at h'
    contradiction
  · exact absurd hr h'
  · exact ⟨hfb, hrx, hact, hfull⟩
  · exact absurd hr h'
  · rw [hr] at h'
    contradiction

/-- **The switches of the prober.** Every one of them follows an init of the client that
nothing from the remote has followed, if and only if every silence has seen an init by the
tick on which its active ticks fill the count. -/
theorem forall_switches_unanswered_iff (c : MonitorConfig) (ticks : ℕ → MainTick) :
    (∀ n, SwitchesAt c ticks n → HasUnansweredInit ticks n) ↔
      (c.fbEnabled = true → ∀ a n, SilenceStarts (watchTicks ticks) a →
        Silent (watchTicks ticks) a n → a ≤ n → c.fbChecks ≤ activeTicks ticks a n →
          ∃ u, a ≤ u ∧ u ≤ n ∧ (ticks u).hadInit = true) := by
  constructor
  · intro hall hfb a n ha hsilent han hfull
    obtain ⟨m, ham, hmn, hm⟩ := exists_switchesAt ha hfb han hsilent hfull
    obtain ⟨u, hum, hu, husilent⟩ := hall m hm
    -- the init of the switch belongs to this silence
    refine ⟨u, ?_, by omega, hu⟩
    rcases ha with rfl | ⟨b, rfl, hrx⟩
    · exact Nat.zero_le u
    · by_contra hlt
      have := husilent b (by omega) (by omega)
      rw [hrx] at this
      contradiction
  · intro hcond n hn
    obtain ⟨hfb, hrx, hact, hfull⟩ := hn.spec
    obtain ⟨a, ha, han, hsilent⟩ := exists_silenceStarts (t := watchTicks ticks) hrx
    have hcount := monitorAt_fbSilentCount_le ha hfb han
    have hactive : c.fbChecks ≤ activeTicks ticks a n := by
      rw [activeTicks_eq, if_pos ⟨han, hact⟩]
      omega
    obtain ⟨u, hau, hun, hu⟩ := hcond hfb a n ha hsilent han hactive
    exact ⟨u, hun, hu, fun i hui hin => hsilent i (by omega) hin⟩

/-- A tunnel that carries nothing but keepalives of the client. -/
def keepalives (_ : ℕ) : MainTick :=
  ⟨⟨false, false⟩, true⟩

/-- Four ticks of keepalives, with no init at all, move the initiator to the other stage. -/
theorem not_hasUnansweredInit_keepalives :
    SwitchesAt ⟨180, 0, 2, .normal, 1⟩ keepalives 3 ∧ ¬ HasUnansweredInit keepalives 3 := by
  refine ⟨by unfold SwitchesAt; decide, ?_⟩
  rintro ⟨u, -, hu, -⟩
  exact Bool.false_ne_true hu

/-! ### Whether a lasting silence is declared -/

/-- On the `k` ticks from tick `n` on the client is active and asks to handshake, and
nothing comes from the remote. -/
def LastsFrom (ticks : ℕ → MainTick) (n k : ℕ) : Prop :=
  ∀ i, n ≤ i → i < n + k → (ticks i).hadRemoteRx = false ∧ (ticks i).hadInit = true ∧
    (ticks i).hadActivity = true

/-- Some number of such ticks is enough for a verdict, from any state of the counters that
is ever reached. -/
def DeclaresSilence (c : MonitorConfig) : Prop :=
  ∃ k, ∀ (ticks : ℕ → MainTick) (n : ℕ), LastsFrom ticks n k →
    ∃ i, n ≤ i ∧ i < n + k ∧ DeclaresAt c ticks i

/-- The watchdog passes its verdict on a tick of a lasting silence when the silence it still
counts is long enough, and else counts the tick. -/
theorem declaresAt_iff {n : ℕ} (hrx : (ticks n).hadRemoteRx = false)
    (hinit : (ticks n).hadInit = true) :
    (DeclaresAt c ticks n ↔
        c.waitTicks ≤ (fallbackTick c (monitorAt c ticks n) (ticks n)).1.silentTicks + 1) ∧
      (¬ DeclaresAt c ticks n → (monitorAt c ticks (n + 1)).silentTicks =
        (fallbackTick c (monitorAt c ticks n) (ticks n)).1.silentTicks + 1) := by
  have hwait : c.waitTicks ≤ checksNeeded c.timeout := waitTicks_le c.timeout c.ports
  have hle := (fallbackTick_silentTicks_le c (monitorAt c ticks n) (ticks n)).trans
    (monitorAt_silentTicks_le c ticks n)
  rw [monitorAt, DeclaresAt, resultAt]
  simp only [monitorTick]
  generalize (fallbackTick c (monitorAt c ticks n) (ticks n)).1.toWatchdog = w at hle ⊢
  have hseen : initSeen w (ticks n).toTick = true := by rw [initSeen, hinit, Bool.or_true]
  have hnow : c.waitTicks ≤ silentNow (checksNeeded c.timeout) w ↔
      c.waitTicks ≤ w.silentTicks + 1 := by
    rw [silentNow]
    omega
  rcases watchdogTick_cases c.ports hle (ticks n).toTick with
    ⟨hrx', -⟩ | ⟨-, ⟨-, hlong⟩, -, -, hr⟩ | ⟨-, hno, hs, -, hr⟩
  · rw [hrx] at hrx'
    contradiction
  · exact ⟨iff_of_true hr (hnow.mp hlong), fun h => absurd hr h⟩
  · have hshort : ¬ c.waitTicks ≤ w.silentTicks + 1 := fun h => hno ⟨hseen, hnow.mpr h⟩
    rw [hr, hs, silentNow]
    exact ⟨iff_of_false Bool.false_ne_true hshort, fun _ => by omega⟩

/-- **One tick of a lasting silence.** The prober switches and the watchdog counts the
silence from this tick, or both count this tick. -/
theorem lastingTick_cases {n : ℕ} (hrx : (ticks n).hadRemoteRx = false)
    (hact : (ticks n).hadActivity = true) :
    let silent := (fallbackTick c (monitorAt c ticks n) (ticks n)).1.silentTicks
    c.fbEnabled = true ∧ SwitchesAt c ticks n ∧
        c.fbChecks ≤ (monitorAt c ticks n).fbSilentCount + 1 ∧
        (monitorAt c ticks (n + 1)).fbSilentCount = 0 ∧ silent = 0 ∨
      (c.fbEnabled = true → ¬ SwitchesAt c ticks n ∧
          (monitorAt c ticks n).fbSilentCount + 1 < c.fbChecks ∧
          (monitorAt c ticks (n + 1)).fbSilentCount =
            (monitorAt c ticks n).fbSilentCount + 1) ∧
        silent = (monitorAt c ticks n).silentTicks := by
  dsimp only
  rw [monitorAt, monitorTick_fbSilentCount]
  rcases fallbackTick_cases c (monitorAt c ticks n) (ticks n) with
    ⟨hoff, h⟩ | ⟨-, hrx', -⟩ | ⟨hon, -, -, hfull, hsw, h0, hs, -⟩ |
      ⟨-, -, -, hless, hsw, h1, hs⟩ | ⟨-, -, hact', -⟩
  · refine Or.inr ⟨fun hon => ?_, by rw [h]⟩
    rw [hoff] at hon
    contradiction
  · rw [hrx] at hrx'
    contradiction
  · exact Or.inl ⟨hon, hsw, hfull, h0, hs⟩
  · exact Or.inr ⟨fun _ => ⟨fun h => h hsw, hless, h1⟩, by rw [hs]⟩
  · rw [hact] at hact'
    contradiction

/-- A silence that the prober does not interrupt any more is declared. -/
theorem exists_declaresAt {n k : ℕ} (hlasts : LastsFrom ticks n k) (hk : 1 ≤ k)
    (hlong : c.waitTicks ≤ (monitorAt c ticks n).silentTicks + k)
    (hfree : c.fbEnabled = true →
      (monitorAt c ticks n).fbSilentCount + 1 ≤ (monitorAt c ticks n).silentTicks ∧
        (monitorAt c ticks n).silentTicks < c.waitTicks ∧ c.waitTicks ≤ c.fbChecks) :
    ∃ i, n ≤ i ∧ i < n + k ∧ DeclaresAt c ticks i := by
  induction k generalizing n with
  | zero => omega
  | succ k ih =>
      by_cases hn : DeclaresAt c ticks n
      · exact ⟨n, le_refl n, by omega, hn⟩
      obtain ⟨hrx, hinit, hact⟩ := hlasts n (le_refl n) (by omega)
      obtain ⟨hdecl, hsilent⟩ := declaresAt_iff (c := c) hrx hinit
      have hsilent := hsilent hn
      rw [hdecl] at hn
      have hrest : LastsFrom ticks (n + 1) k := fun i hi hik => hlasts i (by omega) (by omega)
      rcases lastingTick_cases (c := c) hrx hact with
        ⟨hon, -, hfull, -, -⟩ | ⟨hcount, hkept⟩
      · obtain ⟨hle, hlt, hfast⟩ := hfree hon
        omega
      · rw [hkept] at hsilent hn
        obtain ⟨i, hi, hik, hdecl⟩ := ih hrest (by omega) (by omega) fun hon => by
          obtain ⟨-, -, hfb⟩ := hcount hon
          obtain ⟨hle, hlt, hfast⟩ := hfree hon
          exact ⟨by omega, by omega, hfast⟩
        exact ⟨i, by omega, by omega, hdecl⟩

/-- A lasting silence makes the prober switch. -/
theorem exists_switchesAt_of_lastsFrom {n : ℕ} (hon : c.fbEnabled = true)
    (hlasts : LastsFrom ticks n c.fbChecks) :
    ∃ i, n ≤ i ∧ i < n + c.fbChecks ∧ SwitchesAt c ticks i := by
  by_contra hnone
  push Not at hnone
  have hcount : ∀ k, k ≤ c.fbChecks → k ≤ (monitorAt c ticks (n + k)).fbSilentCount := by
    intro k hk
    induction k with
    | zero => exact Nat.zero_le _
    | succ k ih =>
        have ih := ih (by omega)
        obtain ⟨hrx, hinit, hact⟩ := hlasts (n + k) (by omega) (by omega)
        rcases lastingTick_cases (c := c) hrx hact with ⟨-, hsw, -⟩ | ⟨hfb, -⟩
        · exact absurd hsw (hnone (n + k) (by omega) (by omega))
        · rw [← Nat.add_assoc, (hfb hon).2.2]
          exact Nat.succ_le_succ ih
  have hlt := monitorAt_fbSilentCount_lt c ticks (n + c.fbChecks)
  exact absurd (hcount c.fbChecks (le_refl _)) (Nat.not_le_of_lt hlt)

/-- A prober that is faster than the watchdog keeps it from ever declaring a silence that
lasts from the start. -/
theorem not_declaresAt_of_fbChecks_lt (hon : c.fbEnabled = true)
    (hfast : c.fbChecks < c.waitTicks) (hlasts : ∀ k, LastsFrom ticks 0 k) (n : ℕ) :
    ¬ DeclaresAt c ticks n := by
  have hpos := one_le_fbChecks c
  -- the watchdog never counts more than one tick beyond the prober
  have hstep : ∀ n, (monitorAt c ticks n).silentTicks ≤
      (monitorAt c ticks n).fbSilentCount + 1 → ¬ DeclaresAt c ticks n ∧
        (monitorAt c ticks (n + 1)).silentTicks ≤
          (monitorAt c ticks (n + 1)).fbSilentCount + 1 := by
    intro n hn
    obtain ⟨hrx, hinit, hact⟩ := hlasts (n + 1) n (Nat.zero_le n) (by omega)
    obtain ⟨hdecl, hsilent⟩ := declaresAt_iff (c := c) hrx hinit
    rcases lastingTick_cases (c := c) hrx hact with ⟨-, -, -, h0, hs⟩ | ⟨hcount, hs⟩
    · have hno : ¬ DeclaresAt c ticks n := by
        rw [hdecl, hs]
        omega
      refine ⟨hno, ?_⟩
      rw [hsilent hno, hs, h0]
    · obtain ⟨-, hless, h1⟩ := hcount hon
      have hno : ¬ DeclaresAt c ticks n := by
        rw [hdecl, hs]
        omega
      refine ⟨hno, ?_⟩
      rw [hsilent hno, hs, h1]
      omega
  have hall : (monitorAt c ticks n).silentTicks ≤ (monitorAt c ticks n).fbSilentCount + 1 := by
    induction n with
    | zero => exact Nat.zero_le _
    | succ n ih => exact (hstep n ih).2
  exact (hstep n hall).1

/-- **Lasting silence.** There is a number of ticks after which a silence during which the
client asks to handshake is declared, if and only if the prober is off or takes at least as
long as the watchdog waits. -/
theorem declaresSilence_iff (c : MonitorConfig) :
    DeclaresSilence c ↔ (c.fbEnabled = true → c.waitTicks ≤ c.fbChecks) := by
  constructor
  · rintro ⟨k, hk⟩ hon
    by_contra hslow
    have hlasts : ∀ k, LastsFrom (fun _ => ⟨⟨false, true⟩, true⟩) 0 k :=
      fun _ _ _ _ => ⟨rfl, rfl, rfl⟩
    obtain ⟨i, -, -, hi⟩ := hk _ 0 (hlasts k)
    exact not_declaresAt_of_fbChecks_lt hon (Nat.lt_of_not_le hslow) hlasts i hi
  · intro hcond
    have hwait : 1 ≤ c.waitTicks := one_le_waitTicks c.timeout c.ports
    refine ⟨c.fbChecks + c.waitTicks, fun ticks n hlasts => ?_⟩
    cases hon : c.fbEnabled with
    | false =>
        obtain ⟨i, hi, hik, hdecl⟩ := exists_declaresAt (c := c) (n := n) hlasts (by omega)
          (by omega) fun h => by rw [hon] at h; contradiction
        exact ⟨i, hi, hik, hdecl⟩
    | true =>
        have hfast := hcond hon
        obtain ⟨s, hns, hsk, hs⟩ := exists_switchesAt_of_lastsFrom hon
          fun i hi hik => hlasts i hi (by omega)
        by_cases hdecl : DeclaresAt c ticks s
        · exact ⟨s, hns, by omega, hdecl⟩
        obtain ⟨hrx, hinit, hact⟩ := hlasts s hns (by omega)
        obtain ⟨hshort, hsilent⟩ := declaresAt_iff (c := c) hrx hinit
        have hsilent := hsilent hdecl
        rw [hshort] at hdecl
        rcases lastingTick_cases (c := c) hrx hact with ⟨-, -, -, h0, hzero⟩ | ⟨hcount, -⟩
        · rw [hzero] at hsilent hdecl
          obtain ⟨i, hi, hik, hdecl⟩ := exists_declaresAt (c := c) (n := s + 1) (k := c.waitTicks)
            (fun i hi hik => hlasts i (by omega) (by omega)) hwait (by omega)
            fun _ => ⟨by omega, by omega, hfast⟩
          exact ⟨i, by omega, by omega, hdecl⟩
        · exact absurd hs (hcount hon).1

/-- With the default periods and a chain of two stages the prober switches every 20 seconds,
and the watchdog's 180 never come up. -/
theorem not_declaresSilence_twoStages : ¬ DeclaresSilence ⟨180, 0, 2, .normal, 1⟩ := by
  rintro ⟨k, hk⟩
  have hlasts : ∀ k, LastsFrom (fun _ => ⟨⟨false, true⟩, true⟩) 0 k :=
    fun _ _ _ _ => ⟨rfl, rfl, rfl⟩
  obtain ⟨i, -, -, hi⟩ := hk _ 0 (hlasts k)
  exact not_declaresAt_of_fbChecks_lt (by decide) (by decide) hlasts i hi

end AwgProxy
