import AwgProxy.Fallback

/-!
# When the Learned Family Is Dropped

The watchdog raises `he_reset` when the remote has been silent for a whole timeout: the
address family that used to answer may be the one that died. A hop to another port resets the
count of silent ticks long before that, so with several ports the hops stand in for the time:
what was counted is `silenceCounted`, and a silence is never shorter than that.

* `silent_of_monitorAt` — the silence behind the counters.
* `family_reset_exact` — the flag is raised after a full timeout of silence only, and in one
  that asks for an answer it is raised.
-/

namespace AwgProxy

/-- Tick `n` raises `he_reset`. -/
def ResetsFamilyAt (c : MonitorConfig) (ticks : ℕ → MainTick) (n : ℕ) : Prop :=
  (resultAt c ticks n).raised.heReset = true

/-- The silent ticks the counters stand for. -/
def silenceCounted (hopChecks : ℕ) (w : Watchdog) : ℕ :=
  w.hopRounds * hopChecks + w.silentTicks

/-- The watchdog hops to another port on this tick. -/
def HopsOn (checksNeeded hopChecks : ℕ) (w : Watchdog) (t : Tick) : Prop :=
  hopChecks ≠ 0 ∧ initSeen w t = true ∧ hopChecks ≤ silentNow checksNeeded w

/-- **One tick**, by what becomes of the address family: a packet of the remote forgets the
silence; a hop counts one more round, or raises the flag with the last of them; without a hop
the flag is raised when the silence is long enough and an init was seen in it. -/
theorem watchdogTick_family {checksNeeded : ℕ} (hopChecks : ℕ) {w : Watchdog}
    (hw : w.silentTicks ≤ checksNeeded) (t : Tick) :
    let r := watchdogTick checksNeeded hopChecks w t
    t.hadRemoteRx = true ∧ r = (.start, ⟨false, false⟩) ∨
      t.hadRemoteRx = false ∧ HopsOn checksNeeded hopChecks w t ∧
        checksNeeded ≤ (w.hopRounds + 1) * hopChecks ∧ r = (.start, ⟨true, true⟩) ∨
      t.hadRemoteRx = false ∧ HopsOn checksNeeded hopChecks w t ∧
        (w.hopRounds + 1) * hopChecks < checksNeeded ∧
        r = (⟨0, false, w.hopRounds + 1⟩, ⟨true, false⟩) ∨
      t.hadRemoteRx = false ∧ checksNeeded ≤ silentNow checksNeeded w ∧
        r = (⟨0, false, w.hopRounds⟩, ⟨true, true⟩) ∨
      t.hadRemoteRx = false ∧ ¬ HopsOn checksNeeded hopChecks w t ∧
        ¬ (checksNeeded ≤ silentNow checksNeeded w ∧ initSeen w t = true) ∧
        r = (⟨silentNow checksNeeded w, initSeen w t, w.hopRounds⟩, ⟨false, false⟩) := by
  have hsilent : (if w.silentTicks < checksNeeded then w.silentTicks + 1
      else w.silentTicks) = silentNow checksNeeded w := by
    rw [silentNow]
    split <;> omega
  have hinit : (if t.hadInit then true else w.initUnanswered) = initSeen w t := by
    rw [initSeen]
    cases t.hadInit <;> simp
  dsimp only
  rw [watchdogTick, hsilent, hinit]
  dsimp only
  cases hrx : t.hadRemoteRx with
  | true => exact Or.inl ⟨rfl, rfl⟩
  | false =>
      right
      rw [if_neg Bool.false_ne_true]
      by_cases hhop : hopChecks ≠ 0 ∧ initSeen w t = true ∧ silentNow checksNeeded w ≥ hopChecks
      · rw [if_pos hhop]
        by_cases hfull : (w.hopRounds + 1) * hopChecks ≥ checksNeeded
        · rw [if_pos hfull]
          exact Or.inl ⟨rfl, hhop, hfull, rfl⟩
        · rw [if_neg hfull]
          exact Or.inr (Or.inl ⟨rfl, hhop, Nat.lt_of_not_le hfull, rfl⟩)
      · rw [if_neg hhop]
        right
        right
        by_cases hlong : silentNow checksNeeded w ≥ checksNeeded ∧ initSeen w t = true
        · rw [if_pos hlong]
          exact Or.inl ⟨rfl, hlong.1, rfl⟩
        · rw [if_neg hlong]
          exact Or.inr ⟨rfl, hhop, hlong, rfl⟩

section

variable {c : MonitorConfig} {ticks : ℕ → MainTick}

/-- The counters after tick `n`: the watchdog's own tick, behind the prober. -/
theorem monitorAt_succ_toWatchdog (c : MonitorConfig) (ticks : ℕ → MainTick) (n : ℕ) :
    (monitorAt c ticks (n + 1)).toWatchdog =
      (watchdogTick (checksNeeded c.timeout) (hopChecks c.ports)
        (fallbackTick c (monitorAt c ticks n) (ticks n)).1.toWatchdog (ticks n).toTick).1 := rfl

theorem resetsFamilyAt_def (c : MonitorConfig) (ticks : ℕ → MainTick) (n : ℕ) :
    ResetsFamilyAt c ticks n ↔
      (watchdogTick (checksNeeded c.timeout) (hopChecks c.ports)
        (fallbackTick c (monitorAt c ticks n) (ticks n)).1.toWatchdog
        (ticks n).toTick).2.heReset = true := Iff.rfl

/-! ### Never too early -/

/-- The prober never touches the rounds of hops. -/
theorem fallbackTick_hopRounds (c : MonitorConfig) (m : Monitor) (t : MainTick) :
    (fallbackTick c m t).1.hopRounds = m.hopRounds := by
  rw [fallbackTick]
  split
  · split
    · rfl
    · split
      · split <;> rfl
      · rfl
  · rfl

/-- It forgets silent ticks only. -/
theorem fallbackTick_silenceCounted_le (c : MonitorConfig) (m : Monitor) (t : MainTick)
    (h : ℕ) : silenceCounted h (fallbackTick c m t).1.toWatchdog ≤
      silenceCounted h m.toWatchdog := by
  rw [silenceCounted, silenceCounted, fallbackTick_hopRounds]
  exact Nat.add_le_add_left (fallbackTick_silentTicks_le c m t) _

/-- What the watchdog finds on tick `n`: the counters as the prober leaves them. -/
theorem exists_watched (c : MonitorConfig) (ticks : ℕ → MainTick) (n : ℕ) :
    ∃ w : Watchdog, w.silentTicks ≤ checksNeeded c.timeout ∧
      w.hopRounds = (monitorAt c ticks n).hopRounds ∧
      silenceCounted (hopChecks c.ports) w ≤
        silenceCounted (hopChecks c.ports) (monitorAt c ticks n).toWatchdog ∧
      (monitorAt c ticks (n + 1)).toWatchdog = (watchdogTick (checksNeeded c.timeout)
        (hopChecks c.ports) w (ticks n).toTick).1 ∧
      (ResetsFamilyAt c ticks n ↔ (watchdogTick (checksNeeded c.timeout) (hopChecks c.ports) w
        (ticks n).toTick).2.heReset = true) :=
  ⟨_, (fallbackTick_silentTicks_le c (monitorAt c ticks n) (ticks n)).trans
      (monitorAt_silentTicks_le c ticks n), fallbackTick_hopRounds c _ (ticks n),
    fallbackTick_silenceCounted_le c _ (ticks n) _, monitorAt_succ_toWatchdog c ticks n,
    resetsFamilyAt_def c ticks n⟩

/-- **The silence behind the counters** is at least as long as they say. -/
theorem silent_of_monitorAt (c : MonitorConfig) (ticks : ℕ → MainTick) (n : ℕ) :
    ∃ a, a + silenceCounted (hopChecks c.ports) (monitorAt c ticks n).toWatchdog ≤ n ∧
      ∀ i, a ≤ i → i < n → (ticks i).hadRemoteRx = false := by
  induction n with
  | zero =>
      refine ⟨0, ?_, fun i _ hi => absurd hi (Nat.not_lt_zero i)⟩
      simp [silenceCounted, monitorAt, Monitor.start, Watchdog.start]
  | succ n ih =>
      obtain ⟨a, ha, hsilent⟩ := ih
      obtain ⟨w, hle, -, hcount, hnext, -⟩ := exists_watched c ticks n
      rw [hnext]
      have hmore : (ticks n).hadRemoteRx = false →
          ∀ i, a ≤ i → i < n + 1 → (ticks i).hadRemoteRx = false := by
        intro hrx i hai hin
        rcases Nat.lt_succ_iff_lt_or_eq.mp hin with hlt | rfl
        · exact hsilent i hai hlt
        · exact hrx
      have hnow : silentNow (checksNeeded c.timeout) w ≤ w.silentTicks + 1 := Nat.min_le_left _ _
      rw [silenceCounted] at hcount
      rcases watchdogTick_family (hopChecks c.ports) hle (ticks n).toTick with
        ⟨-, hr⟩ | ⟨hrx, -, -, hr⟩ | ⟨hrx, ⟨-, -, hhop⟩, -, hr⟩ | ⟨hrx, -, hr⟩ | ⟨hrx, -, -, hr⟩
      · rw [hr]
        refine ⟨n + 1, by simp [silenceCounted, Watchdog.start], fun i hai hin => ?_⟩
        omega
      · rw [hr]
        refine ⟨a, ?_, hmore hrx⟩
        simp only [silenceCounted, Watchdog.start]
        omega
      · rw [hr]
        refine ⟨a, ?_, hmore hrx⟩
        simp only [silenceCounted, Nat.add_mul, Nat.one_mul]
        omega
      · rw [hr]
        refine ⟨a, ?_, hmore hrx⟩
        simp only [silenceCounted]
        omega
      · rw [hr]
        refine ⟨a, ?_, hmore hrx⟩
        simp only [silenceCounted]
        omega

/-- The flag is raised after a full timeout of silence only. -/
theorem ResetsFamilyAt.silent {n : ℕ} (h : ResetsFamilyAt c ticks n) :
    ∃ a, a + checksNeeded c.timeout ≤ n + 1 ∧ Silent (watchTicks ticks) a n := by
  obtain ⟨a, ha, hsilent⟩ := silent_of_monitorAt c ticks n
  obtain ⟨w, hle, -, hcount, -, hreset⟩ := exists_watched c ticks n
  rw [hreset] at h
  rw [silenceCounted] at hcount
  have hnow : silentNow (checksNeeded c.timeout) w ≤ w.silentTicks + 1 := Nat.min_le_left _ _
  have hmore : (ticks n).hadRemoteRx = false → Silent (watchTicks ticks) a n := by
    intro hrx i hai hin
    rcases Nat.lt_or_eq_of_le hin with hlt | rfl
    · exact hsilent i hai hlt
    · exact hrx
  rcases watchdogTick_family (hopChecks c.ports) hle (ticks n).toTick with
    ⟨-, hr⟩ | ⟨hrx, ⟨-, -, hhop⟩, hfull, -⟩ | ⟨-, -, -, hr⟩ | ⟨hrx, hlong, -⟩ | ⟨-, -, -, hr⟩
  · rw [hr] at h
    contradiction
  · refine ⟨a, ?_, hmore hrx⟩
    rw [Nat.add_mul, Nat.one_mul] at hfull
    omega
  · rw [hr] at h
    contradiction
  · exact ⟨a, by omega, hmore hrx⟩
  · rw [hr] at h
    contradiction

/-! ### Never too late -/

/-- With the last round of a timeout's hops the count starts anew. -/
theorem monitorAt_hopRounds_lt (c : MonitorConfig) (ticks : ℕ → MainTick) (n : ℕ) :
    (monitorAt c ticks n).hopRounds * hopChecks c.ports < checksNeeded c.timeout := by
  have hpos : 0 < checksNeeded c.timeout := one_le_checksNeeded c.timeout
  induction n with
  | zero => simpa [monitorAt, Monitor.start, Watchdog.start] using hpos
  | succ n ih =>
      obtain ⟨w, hle, hrounds, -, hnext, -⟩ := exists_watched c ticks n
      rw [← hrounds] at ih
      rw [hnext]
      rcases watchdogTick_family (hopChecks c.ports) hle (ticks n).toTick with
        ⟨-, hr⟩ | ⟨-, -, -, hr⟩ | ⟨-, -, hlt, hr⟩ | ⟨-, -, hr⟩ | ⟨-, -, -, hr⟩
      · rw [hr]
        simpa [Watchdog.start] using hpos
      · rw [hr]
        simpa [Watchdog.start] using hpos
      · rw [hr]
        exact hlt
      · rw [hr]
        exact ih
      · rw [hr]
        exact ih

/-- On the `k` ticks from tick `n` on the client asks to handshake and nothing comes from the
remote. -/
def AsksInSilence (ticks : ℕ → MainTick) (n k : ℕ) : Prop :=
  ∀ i, n ≤ i → i < n + k → (ticks i).hadRemoteRx = false ∧ (ticks i).hadInit = true

/-- **Until the flag is raised**, with several ports and no fallback, each tick of such a
silence is counted: as a silent tick, or in a round of hops. -/
theorem le_silenceCounted (hports : c.ports > 1) (hfb : c.fbEnabled = false) {a k : ℕ}
    (hasks : AsksInSilence ticks a k)
    (hno : ∀ i, a ≤ i → i < a + k → ¬ ResetsFamilyAt c ticks i) :
    k ≤ silenceCounted portHopChecks (monitorAt c ticks (a + k)).toWatchdog ∧
      (0 < k → (monitorAt c ticks (a + k)).silentTicks < portHopChecks) := by
  have hhop : hopChecks c.ports = portHopChecks := if_pos hports
  induction k with
  | zero => exact ⟨Nat.zero_le _, fun h => absurd h (Nat.lt_irrefl 0)⟩
  | succ k ih =>
      obtain ⟨hcount, hshort⟩ := ih (fun i hai hi => hasks i hai (by omega))
        fun i hai hi => hno i hai (by omega)
      obtain ⟨hrx, hinit⟩ := hasks (a + k) (by omega) (by omega)
      have hquiet := hno (a + k) (by omega) (by omega)
      have hle := monitorAt_silentTicks_le c ticks (a + k)
      have hoff : fallbackTick c (monitorAt c ticks (a + k)) (ticks (a + k)) =
          (monitorAt c ticks (a + k), none) := by
        rw [fallbackTick, if_neg (by rw [hfb]; exact Bool.false_ne_true)]
      rw [resetsFamilyAt_def, hoff, hhop] at hquiet
      rw [← Nat.add_assoc, monitorAt_succ_toWatchdog, hoff, hhop]
      dsimp only at hquiet ⊢
      generalize (monitorAt c ticks (a + k)).toWatchdog = w at hle hcount hshort hquiet ⊢
      have hseen : initSeen w (ticks (a + k)).toTick = true := by
        rw [initSeen, hinit, Bool.or_true]
      simp only [silenceCounted] at hcount ⊢
      rcases watchdogTick_family portHopChecks hle (ticks (a + k)).toTick with
        ⟨hrx', -⟩ | ⟨-, -, -, hr⟩ | ⟨-, -, -, hr⟩ | ⟨-, -, hr⟩ | ⟨-, hnohop, hnolong, hr⟩
      · rw [hrx] at hrx'
        contradiction
      · rw [hr] at hquiet
        exact absurd rfl hquiet
      · rw [hr]
        refine ⟨?_, fun _ => (by decide : 0 < 3)⟩
        dsimp only
        simp only [portHopChecks] at hcount hshort ⊢
        omega
      · rw [hr] at hquiet
        exact absurd rfl hquiet
      · rw [hr]
        have hlong : silentNow (checksNeeded c.timeout) w < checksNeeded c.timeout :=
          Nat.lt_of_not_le fun h => hnolong ⟨h, hseen⟩
        have hstay : silentNow (checksNeeded c.timeout) w < portHopChecks :=
          Nat.lt_of_not_le fun h => hnohop ⟨by decide, hseen, h⟩
        rw [silentNow] at hlong hstay ⊢
        dsimp only
        simp only [portHopChecks] at hcount hshort hstay ⊢
        refine ⟨?_, fun _ => ?_⟩ <;> omega

/-- **The learned family is dropped after a full timeout of silence only, and then it is.** -/
theorem family_reset_exact (c : MonitorConfig) (ticks : ℕ → MainTick) :
    (∀ n, ResetsFamilyAt c ticks n →
      ∃ a, a + checksNeeded c.timeout ≤ n + 1 ∧ Silent (watchTicks ticks) a n) ∧
    (c.ports > 1 → c.fbEnabled = false → ∀ a,
      AsksInSilence ticks a (checksNeeded c.timeout + 2 * portHopChecks) →
        ∃ n, a ≤ n ∧ n < a + (checksNeeded c.timeout + 2 * portHopChecks) ∧
          ResetsFamilyAt c ticks n) := by
  refine ⟨fun n h => h.silent, fun hports hfb a hasks => ?_⟩
  by_contra hnone
  push Not at hnone
  obtain ⟨hcount, hshort⟩ := le_silenceCounted hports hfb hasks hnone
  have hrounds := monitorAt_hopRounds_lt c ticks (a + (checksNeeded c.timeout + 2 * portHopChecks))
  have hhop : hopChecks c.ports = portHopChecks := if_pos hports
  rw [hhop] at hrounds
  rw [silenceCounted] at hcount
  simp only [portHopChecks] at hcount hshort hrounds
  omega

end

/-- Two ports, and the timeout of 180 seconds. -/
def twoPortMonitor : MonitorConfig where
  timeout := 180
  fbAfter := 0
  profileCount := 1
  mode := .normal
  ports := 2

/-- The remote falls silent on the tenth tick; the client keeps asking. -/
def silentFromTen (n : ℕ) : MainTick where
  hadRemoteRx := n < 10
  hadInit := true
  hadActivity := true

/-- The flag comes no earlier than 36 ticks into the silence, and within 42. -/
theorem family_reset_exact_silentFromTen :
    (∀ n < 45, ¬ ResetsFamilyAt twoPortMonitor silentFromTen n) ∧
      ∃ n, 10 ≤ n ∧ n < 10 + (36 + 2 * 3) ∧ ResetsFamilyAt twoPortMonitor silentFromTen n := by
  obtain ⟨hearly, hlate⟩ := family_reset_exact twoPortMonitor silentFromTen
  refine ⟨fun n hn hreset => ?_, hlate (by decide) (by decide) 10 fun i hi _ => ?_⟩
  · obtain ⟨a, ha, hsilent⟩ := hearly n hreset
    change a + 36 ≤ n + 1 at ha
    have hspeaks : a < 10 := by omega
    have hrx := hsilent a le_rfl (by omega)
    exact absurd hspeaks (of_decide_eq_false hrx)
  · exact ⟨decide_eq_false (Nat.not_lt.mpr hi), rfl⟩

end AwgProxy
