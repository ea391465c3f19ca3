import Mathlib.Data.Nat.Find
import Mathlib.Tactic.Common

/-!
# The Silence Watchdog

Every five seconds the main loop of `proxy.c` counts the ticks on which the remote stayed
silent and remembers whether the client asked to handshake meanwhile; when both say so, the
connection is declared dead. The run of ticks is a stream of what was seen on each of them.

What the verdict is meant to say is `Unanswered`: an init of the client has waited for the
whole configured time. The counter starts with the silence, not with the init, so after an
idle stretch the first init is taken for one that has waited.

* `watchdogAt_eq` — what the two counters hold, from the last tick that reset them on.
* `forall_raises_unanswered_iff` — for which streams every verdict of the watchdog is
  meant.
-/

namespace AwgProxy

/-- `checks_needed`: the ticks of the configured timeout, 180 seconds by default. -/
def checksNeeded (timeout : ℤ) : ℕ :=
  let timeoutSecs := if timeout > 0 then timeout.toNat else 180
  if timeoutSecs / 5 < 1 then 1 else timeoutSecs / 5

/-- `PORT_HOP_CHECKS`. -/
abbrev portHopChecks : ℕ := 3

/-- `hop_checks`: the ticks after which another of several ports is tried, 0 for never. -/
def hopChecks (ports : ℕ) : ℕ :=
  if ports > 1 then portHopChecks else 0

/-- What the main loop has seen since the last tick. -/
structure Tick where
  /-- `had_remote_rx`: a packet from the remote. -/
  hadRemoteRx : Bool
  /-- `had_init`: an init of the client. -/
  hadInit : Bool

/-- The counters of the watchdog. -/
structure Watchdog where
  /-- Consecutive ticks with nothing from the remote. -/
  silentTicks : ℕ
  /-- During which the client asked to handshake. -/
  initUnanswered : Bool
  /-- The port hops of this silence. -/
  hopRounds : ℕ
  deriving DecidableEq

/-- What the watchdog raises on a tick. With `remoteDead` goes the request to reconnect. -/
structure Raised where
  /-- `remote_dead`. -/
  remoteDead : Bool
  /-- `he_reset`. -/
  heReset : Bool
  deriving DecidableEq

/-- The counters at the start. -/
def Watchdog.start : Watchdog := ⟨0, false, 0⟩

/-- The silence watchdog on one tick, the profile fallback being off. -/
def watchdogTick (checksNeeded hopChecks : ℕ) (w : Watchdog) (t : Tick) : Watchdog × Raised :=
  if t.hadRemoteRx then (⟨0, false, 0⟩, ⟨false, false⟩)
  else
    let initUnanswered := if t.hadInit then true else w.initUnanswered
    let silentTicks := if w.silentTicks < checksNeeded then w.silentTicks + 1 else w.silentTicks
    if hopChecks ≠ 0 ∧ initUnanswered ∧ silentTicks ≥ hopChecks then
      -- a long silence of short hops also resets the address family
      if (w.hopRounds + 1) * hopChecks ≥ checksNeeded then (⟨0, false, 0⟩, ⟨true, true⟩)
      else (⟨0, false, w.hopRounds + 1⟩, ⟨true, false⟩)
    else if silentTicks ≥ checksNeeded ∧ initUnanswered then
      (⟨0, false, w.hopRounds⟩, ⟨true, true⟩)
    else (⟨silentTicks, initUnanswered, w.hopRounds⟩, ⟨false, false⟩)

section

variable (timeout : ℤ) (ports : ℕ) (ticks : ℕ → Tick)

/-- The counters before tick `n`. -/
def watchdogAt : ℕ → Watchdog
  | 0 => .start
  | n + 1 => (watchdogTick (checksNeeded timeout) (hopChecks ports) (watchdogAt n) (ticks n)).1

/-- The watchdog raises `remote_dead` on tick `n`. -/
def RaisesAt (n : ℕ) : Prop :=
  (watchdogTick (checksNeeded timeout) (hopChecks ports) (watchdogAt timeout ports ticks n)
    (ticks n)).2.remoteDead = true

/-- The ticks the watchdog is configured to wait for. -/
def waitTicks : ℕ :=
  if hopChecks ports ≠ 0 then min (hopChecks ports) (checksNeeded timeout)
  else checksNeeded timeout

/-- The remote is silent from tick `a` to tick `n`. -/
def Silent (a n : ℕ) : Prop :=
  ∀ i, a ≤ i → i ≤ n → (ticks i).hadRemoteRx = false

/-- What a verdict on tick `n` is meant to say: an init of the client was seen at least the
configured wait ago, and nothing of the remote since. -/
def Unanswered (n : ℕ) : Prop :=
  ∃ u, u + (waitTicks timeout ports - 1) ≤ n ∧ (ticks u).hadInit = true ∧ Silent ticks u n

/-- A silence begins on tick `a`. -/
def SilenceStarts (a : ℕ) : Prop :=
  a = 0 ∨ ∃ b, a = b + 1 ∧ (ticks b).hadRemoteRx = true

end

/-! ### What the counters hold -/

variable {timeout : ℤ} {ports : ℕ} {ticks : ℕ → Tick}

theorem one_le_checksNeeded (timeout : ℤ) : 1 ≤ checksNeeded timeout := by
  rw [checksNeeded]
  generalize (if timeout > 0 then timeout.toNat else 180) = secs
  split <;> omega

theorem one_le_waitTicks (timeout : ℤ) (ports : ℕ) : 1 ≤ waitTicks timeout ports := by
  have := one_le_checksNeeded timeout
  simp only [waitTicks, hopChecks, portHopChecks]
  split <;> split <;> omega

theorem waitTicks_le (timeout : ℤ) (ports : ℕ) :
    waitTicks timeout ports ≤ checksNeeded timeout := by
  simp only [waitTicks]
  split <;> omega

/-- The init flag after a tick. -/
def initSeen (w : Watchdog) (t : Tick) : Bool :=
  w.initUnanswered || t.hadInit

/-- The silent ticks after a silent tick. -/
def silentNow (checksNeeded : ℕ) (w : Watchdog) : ℕ :=
  min (w.silentTicks + 1) checksNeeded

/-- The silence after another silent tick. -/
theorem silentNow_eq {checksNeeded c k : ℕ} {w : Watchdog}
    (hs : w.silentTicks = min (k - c) checksNeeded) (hck : c ≤ k) :
    silentNow checksNeeded w = min (k + 1 - c) checksNeeded := by
  rw [silentNow, hs]
  omega

/-- **One tick.** A packet of the remote resets the counters; a verdict is passed, and
resets them, when an init was seen and the silence is as long as the wait. -/
theorem watchdogTick_cases (ports : ℕ) {w : Watchdog}
    (hw : w.silentTicks ≤ checksNeeded timeout) (t : Tick) :
    let r := watchdogTick (checksNeeded timeout) (hopChecks ports) w t
    t.hadRemoteRx = true ∧ r.1.silentTicks = 0 ∧ r.1.initUnanswered = false ∧
        r.2.remoteDead = false ∨
      t.hadRemoteRx = false ∧ (initSeen w t = true ∧
        waitTicks timeout ports ≤ silentNow (checksNeeded timeout) w) ∧
        r.1.silentTicks = 0 ∧ r.1.initUnanswered = false ∧ r.2.remoteDead = true ∨
      t.hadRemoteRx = false ∧ ¬ (initSeen w t = true ∧
        waitTicks timeout ports ≤ silentNow (checksNeeded timeout) w) ∧
        r.1.silentTicks = silentNow (checksNeeded timeout) w ∧
        r.1.initUnanswered = initSeen w t ∧ r.2.remoteDead = false := by
  have hsilent : (if w.silentTicks < checksNeeded timeout then w.silentTicks + 1
      else w.silentTicks) = silentNow (checksNeeded timeout) w := by
    rw [silentNow]
    split <;> omega
  have hinit : (if t.hadInit then true else w.initUnanswered) = initSeen w t := by
    rw [initSeen]
    cases t.hadInit <;> simp
  have hwait : waitTicks timeout ports ≤ silentNow (checksNeeded timeout) w ↔
      hopChecks ports ≠ 0 ∧ silentNow (checksNeeded timeout) w ≥ hopChecks ports ∨
        silentNow (checksNeeded timeout) w ≥ checksNeeded timeout := by
    rw [waitTicks]
    split <;> omega
  dsimp only
  rw [watchdogTick, hsilent, hinit, hwait]
  cases hrx : t.hadRemoteRx with
  | true => exact Or.inl ⟨rfl, rfl, rfl, rfl⟩
  | false =>
      right
      dsimp only
      rw [if_neg Bool.false_ne_true]
      by_cases hhop : hopChecks ports ≠ 0 ∧ initSeen w t = true ∧
          silentNow (checksNeeded timeout) w ≥ hopChecks ports
      · rw [if_pos hhop]
        refine Or.inl ⟨rfl, ⟨hhop.2.1, Or.inl ⟨hhop.1, hhop.2.2⟩⟩, ?_⟩
        split <;> exact ⟨rfl, rfl, rfl⟩
      · rw [if_neg hhop]
        by_cases hlong : silentNow (checksNeeded timeout) w ≥ checksNeeded timeout ∧
            initSeen w t = true
        · rw [if_pos hlong]
          exact Or.inl ⟨rfl, ⟨hlong.2, Or.inr hlong.1⟩, rfl, rfl, rfl⟩
        · rw [if_neg hlong]
          refine Or.inr ⟨rfl, ?_, rfl, rfl, rfl⟩
          rintro ⟨hi, ⟨hne, hge⟩ | hge⟩
          · exact hhop ⟨hne, hi, hge⟩
          · exact hlong ⟨hge, hi⟩

/-- The silence is never counted beyond the timeout. -/
theorem silentTicks_watchdogAt_le (timeout : ℤ) (ports : ℕ) (ticks : ℕ → Tick) (n : ℕ) :
    (watchdogAt timeout ports ticks n).silentTicks ≤ checksNeeded timeout := by
  induction n with
  | zero => exact Nat.zero_le _
  | succ n ih =>
      rw [watchdogAt]
      rcases watchdogTick_cases ports ih (ticks n) with
        ⟨-, h, -⟩ | ⟨-, -, h, -⟩ | ⟨-, -, h, -⟩
      · omega
      · omega
      · rw [h, silentNow]
        omega

/-- Tick `c` begins with counters at zero. -/
def Resets (timeout : ℤ) (ports : ℕ) (ticks : ℕ → Tick) (c : ℕ) : Prop :=
  c = 0 ∨ ∃ b, c = b + 1 ∧ ((ticks b).hadRemoteRx = true ∨ RaisesAt timeout ports ticks b)

/-- A silence begins with counters at zero. -/
theorem SilenceStarts.resets {a : ℕ} (h : SilenceStarts ticks a) :
    Resets timeout ports ticks a := by
  rcases h with h0 | ⟨b, hb, hrx⟩
  · exact Or.inl h0
  · exact Or.inr ⟨b, hb, Or.inl hrx⟩

/-- **The counters** since tick `c` began with zeros: without a packet of the remote or a
verdict since, they hold the length of the silence and whether it saw an init. -/
theorem watchdogAt_eq {c k : ℕ} (hc : Resets timeout ports ticks c) (hck : c ≤ k)
    (hquiet : ∀ i, c ≤ i → i < k →
      (ticks i).hadRemoteRx = false ∧ ¬ RaisesAt timeout ports ticks i) :
    (watchdogAt timeout ports ticks k).silentTicks = min (k - c) (checksNeeded timeout) ∧
      ((watchdogAt timeout ports ticks k).initUnanswered = true ↔
        ∃ u, c ≤ u ∧ u < k ∧ (ticks u).hadInit = true) := by
  induction k, hck using Nat.le_induction with
  | base =>
      have hnone : ¬ ∃ u, c ≤ u ∧ u < c ∧ (ticks u).hadInit = true := by
        rintro ⟨u, hle, hlt, -⟩
        omega
      rw [Nat.sub_self, Nat.zero_min]
      rcases hc with rfl | ⟨b, rfl, hb⟩
      · exact ⟨rfl, iff_of_false Bool.false_ne_true hnone⟩
      · have hle := silentTicks_watchdogAt_le timeout ports ticks b
        rw [watchdogAt]
        rcases watchdogTick_cases ports hle (ticks b) with
          ⟨-, hs, hi, -⟩ | ⟨-, -, hs, hi, -⟩ | ⟨hrx, -, -, -, hr⟩
        · rw [hs, hi]
          exact ⟨rfl, iff_of_false Bool.false_ne_true hnone⟩
        · rw [hs, hi]
          exact ⟨rfl, iff_of_false Bool.false_ne_true hnone⟩
        · rcases hb with hb | hb
          · rw [hrx] at hb
            contradiction
          · rw [RaisesAt, hr] at hb
            contradiction
  | succ k hck ih =>
      obtain ⟨hs, hi⟩ := ih fun i hci hik => hquiet i hci (by omega)
      obtain ⟨hrx, hno⟩ := hquiet k hck (by omega)
      have hle := silentTicks_watchdogAt_le timeout ports ticks k
      rw [watchdogAt]
      rcases watchdogTick_cases ports hle (ticks k) with
        ⟨hrx', -⟩ | ⟨-, -, -, -, hr⟩ | ⟨-, -, hs', hi', -⟩
      · rw [hrx] at hrx'
        contradiction
      · exact absurd hr hno
      · rw [hs', hi', silentNow_eq hs hck, initSeen, Bool.or_eq_true, hi]
        refine ⟨rfl, ?_⟩
        constructor
        · rintro (⟨u, hcu, huk, hu⟩ | hu)
          · exact ⟨u, hcu, by omega, hu⟩
          · exact ⟨k, hck, by omega, hu⟩
        · rintro ⟨u, hcu, huk, hu⟩
          rcases Nat.lt_or_ge u k with hlt | hge
          · exact Or.inl ⟨u, hcu, hlt, hu⟩
          · obtain rfl : u = k := by omega
            exact Or.inr hu

/-- When a verdict is passed, in terms of what was seen since the counters were reset. -/
theorem raisesAt_iff {c n : ℕ} (hc : Resets timeout ports ticks c) (hcn : c ≤ n)
    (hquiet : ∀ i, c ≤ i → i < n →
      (ticks i).hadRemoteRx = false ∧ ¬ RaisesAt timeout ports ticks i) :
    RaisesAt timeout ports ticks n ↔ (ticks n).hadRemoteRx = false ∧
      (∃ u, c ≤ u ∧ u ≤ n ∧ (ticks u).hadInit = true) ∧
        c + waitTicks timeout ports ≤ n + 1 := by
  obtain ⟨hs, hi⟩ := watchdogAt_eq hc hcn hquiet
  have hle := silentTicks_watchdogAt_le timeout ports ticks n
  have hwait := waitTicks_le timeout ports
  have hseen : initSeen (watchdogAt timeout ports ticks n) (ticks n) = true ↔
      ∃ u, c ≤ u ∧ u ≤ n ∧ (ticks u).hadInit = true := by
    rw [initSeen, Bool.or_eq_true, hi]
    constructor
    · rintro (⟨u, hcu, hun, hu⟩ | hu)
      · exact ⟨u, hcu, by omega, hu⟩
      · exact ⟨n, hcn, le_refl n, hu⟩
    · rintro ⟨u, hcu, hun, hu⟩
      rcases Nat.lt_or_ge u n with hlt | hge
      · exact Or.inl ⟨u, hcu, hlt, hu⟩
      · obtain rfl : u = n := by omega
        exact Or.inr hu
  have hlong : waitTicks timeout ports ≤
      silentNow (checksNeeded timeout) (watchdogAt timeout ports ticks n) ↔
        c + waitTicks timeout ports ≤ n + 1 := by
    rw [silentNow_eq hs hcn, Nat.le_min]
    clear hi hseen
    omega
  rw [RaisesAt, ← hseen, ← hlong]
  rcases watchdogTick_cases ports hle (ticks n) with
    ⟨hrx, -, -, hr⟩ | ⟨hrx, hyes, -, -, hr⟩ | ⟨hrx, hno, -, -, hr⟩
  · rw [hr, hrx]
    simp
  · exact iff_of_true hr ⟨hrx, hyes⟩
  · rw [hr]
    exact iff_of_false Bool.false_ne_true fun h => hno h.2

/-- Before every tick there is one that reset the counters last. -/
theorem exists_resets (timeout : ℤ) (ports : ℕ) (ticks : ℕ → Tick) (n : ℕ) :
    ∃ c, Resets timeout ports ticks c ∧ c ≤ n ∧ ∀ i, c ≤ i → i < n →
      (ticks i).hadRemoteRx = false ∧ ¬ RaisesAt timeout ports ticks i := by
  induction n with
  | zero => exact ⟨0, Or.inl rfl, le_refl 0, fun i _ hi => absurd hi (Nat.not_lt_zero i)⟩
  | succ n ih =>
      obtain ⟨c, hc, hcn, hquiet⟩ := ih
      by_cases hn : (ticks n).hadRemoteRx = true ∨ RaisesAt timeout ports ticks n
      · exact ⟨n + 1, Or.inr ⟨n, rfl, hn⟩, le_refl _, fun i hi hi' => by omega⟩
      · obtain ⟨hrx, hno⟩ := not_or.mp hn
        refine ⟨c, hc, by omega, fun i hci hi => ?_⟩
        rcases Nat.lt_or_ge i n with hlt | hge
        · exact hquiet i hci hlt
        · obtain rfl : i = n := by omega
          exact ⟨by simpa using hrx, hno⟩

/-! ### Which verdicts are meant -/

/-- Each silence that lasts as long as the wait and sees an init begins with one. -/
def SilencesBeginWithInit (timeout : ℤ) (ports : ℕ) (ticks : ℕ → Tick) : Prop :=
  ∀ a n u, SilenceStarts ticks a → Silent ticks a n → a + waitTicks timeout ports ≤ n + 1 →
    a ≤ u → u ≤ n → (ticks u).hadInit = true → (ticks a).hadInit = true

/-- A verdict late in a silence is meant, once one has been passed in it: the init of the
first one is old enough for all that follow. -/
theorem unanswered_of_raisesAt {b n : ℕ} (hb : RaisesAt timeout ports ticks b)
    (hn : b + waitTicks timeout ports ≤ n) (hsilent : Silent ticks (b + 1) n) :
    Unanswered timeout ports ticks n := by
  obtain ⟨c, hc, hcb, hquiet⟩ := exists_resets timeout ports ticks b
  obtain ⟨hrx, ⟨u, hcu, hub, hu⟩, -⟩ := (raisesAt_iff hc hcb hquiet).mp hb
  have hwait := one_le_waitTicks timeout ports
  refine ⟨u, by omega, hu, fun i hui hin => ?_⟩
  rcases Nat.lt_trichotomy i b with hlt | rfl | hgt
  · exact (hquiet i (by omega) hlt).1
  · exact hrx
  · exact hsilent i hgt hin

/-- The first verdict of a silence comes no later than both the wait and an init allow, and
until it comes the counters run from the start of the silence. -/
theorem exists_first_raisesAt {a n u : ℕ} (ha : SilenceStarts ticks a) (hsilent : Silent ticks a n)
    (hlong : a + waitTicks timeout ports ≤ n + 1) (hau : a ≤ u) (hun : u ≤ n)
    (hu : (ticks u).hadInit = true) :
    ∃ m, a ≤ m ∧ m ≤ n ∧ RaisesAt timeout ports ticks m ∧
      ∀ i, a ≤ i → i < m → (ticks i).hadRemoteRx = false ∧ ¬ RaisesAt timeout ports ticks i := by
  classical
  have hex : ∃ m, a ≤ m ∧ m ≤ n ∧ RaisesAt timeout ports ticks m := by
    by_contra hnone
    push Not at hnone
    have han : a ≤ n := Nat.le_trans hau hun
    refine hnone n han (le_refl n) ((raisesAt_iff ha.resets han fun i hai hin => ?_).mpr
      ⟨hsilent n han (le_refl n), ⟨u, hau, hun, hu⟩, hlong⟩)
    exact ⟨hsilent i hai (by omega), hnone i hai (by omega)⟩
  obtain ⟨ham, hmn, hm⟩ := Nat.find_spec hex
  refine ⟨Nat.find hex, ham, hmn, hm, fun i hai him => ⟨hsilent i hai (by omega), fun hi => ?_⟩⟩
  exact Nat.find_min hex him ⟨hai, by omega, hi⟩

/-- **The verdicts of the watchdog.** Every one of them says that an init of the client has
gone unanswered for the configured wait, if and only if the wait is a single tick or every
silence that is long enough and sees an init begins with one. -/
theorem forall_raises_unanswered_iff (timeout : ℤ) (ports : ℕ) (ticks : ℕ → Tick) :
    (∀ n, RaisesAt timeout ports ticks n → Unanswered timeout ports ticks n) ↔
      waitTicks timeout ports ≤ 1 ∨ SilencesBeginWithInit timeout ports ticks := by
  constructor
  · intro hall
    by_cases hone : waitTicks timeout ports ≤ 1
    · exact Or.inl hone
    right
    intro a n u ha hsilent hlong hau hun hu
    obtain ⟨m, ham, hmn, hm, hquiet⟩ := exists_first_raisesAt ha hsilent hlong hau hun hu
    obtain ⟨v, hvm, hv, hvsilent⟩ := hall m hm
    -- the init of the verdict belongs to this silence
    have hav : a ≤ v := by
      rcases ha with rfl | ⟨b, rfl, hrx⟩
      · exact Nat.zero_le v
      · by_contra hlt
        have := hvsilent b (by omega) (by omega)
        rw [hrx] at this
        contradiction
    rcases Nat.eq_or_lt_of_le hav with rfl | hlt
    · exact hv
    · -- the tick before would have passed the verdict already
      have hbefore : RaisesAt timeout ports ticks (m - 1) :=
        (raisesAt_iff ha.resets (by omega) fun i hai him => hquiet i hai (by omega)).mpr
          ⟨hsilent (m - 1) (by omega) (by omega), ⟨v, hav, by omega, hv⟩, by omega⟩
      exact absurd hbefore (hquiet (m - 1) (by omega) (by omega)).2
  · intro hcond n hn
    obtain ⟨c, hc, hcn, hquiet⟩ := exists_resets timeout ports ticks n
    obtain ⟨hrx, ⟨u, hcu, hun, hu⟩, hlong⟩ := (raisesAt_iff hc hcn hquiet).mp hn
    have hsilent : Silent ticks c n := by
      intro i hci hin
      rcases Nat.eq_or_lt_of_le hin with rfl | hlt
      · exact hrx
      · exact (hquiet i hci hlt).1
    rcases hcond with hone | hbegin
    · exact ⟨u, by omega, hu, fun i hui hin => hsilent i (by omega) hin⟩
    · by_cases hstart : SilenceStarts ticks c
      · exact ⟨c, by omega, hbegin c n u hstart hsilent hlong hcu hun hu, hsilent⟩
      · rcases hc with h0 | ⟨b, rfl, hb⟩
        · exact absurd (Or.inl h0) hstart
        · rcases hb with hb | hb
          · exact absurd (Or.inr ⟨b, rfl, hb⟩) hstart
          · exact unanswered_of_raisesAt hb (by omega) hsilent

/-- Two idle ticks, then an init. -/
def idleThenInit (n : ℕ) : Tick :=
  ⟨false, n = 2⟩

/-- With two ports the wait is three ticks: an init after two idle ones is taken for
unanswered on the tick it is seen. -/
theorem not_unanswered_idleThenInit :
    RaisesAt 180 2 idleThenInit 2 ∧ ¬ Unanswered 180 2 idleThenInit 2 := by
  refine ⟨by unfold RaisesAt; decide, ?_⟩
  rintro ⟨u, hle, hinit, -⟩
  have hwait : waitTicks 180 2 = 3 := by decide
  have hu : u = 2 := of_decide_eq_true hinit
  omega

end AwgProxy
