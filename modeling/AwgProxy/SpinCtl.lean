import AwgProxy.Lib.Search
import Mathlib.Data.Finset.Card
import Mathlib.Data.List.Infix
import Mathlib.Logic.Function.Basic

/-!
# The Self-Tuning Spin Budget

How long a reader keeps looking before it lets itself be put to sleep is tuned at run time: a
controller walks a ladder of budgets, scores each rung by the share of packets the kernel
dropped while it was in force, and settles on the best. A settled controller still probes one
of the other rungs every `SP_PROBE_EVERY` windows, each in its turn.

A window is judged when enough packets went through it. `judgedStates` are the states a run
of ticks leaves behind its judged windows; every statement is about them, for all packet and
drop counters the ticks may read.

* `card_unscored_run` — until every rung has a score, each judged window gives one to a new
  rung.
* `length_probes` — the probes among the settled windows, by number.
* `mem_probeWalk` — six probes in a row come past every rung but the best.
* `judgesWindow_spRun` — which tick judges a window, and what the score becomes.
* `spin_settles` — the controller settles on the measured best.
-/

namespace AwgProxy

/-! ### The code -/

/-- `SP_LADDER_N`. -/
abbrev spLadderN : ℕ := 6

/-- `SP_START_IDX`. -/
abbrev spStartIdx : ℕ := 3

/-- `SP_WINDOW_TICKS`. -/
abbrev spWindowTicks : ℕ := 3

/-- `SP_MIN_PACKETS`. -/
abbrev spMinPackets : UInt32 := 20000

/-- `SP_PROBE_EVERY`. -/
abbrev spProbeEvery : ℕ := 20

/-- `SPIN_START_US`. -/
abbrev spinStartUs : ℕ := 200

/-- `sp_ladder`. -/
def spLadder : List ℕ := [0, 50, 100, 200, 400, 800]

/-- `spin_ctl_t`. -/
structure SpinCtl where
  idx : ℕ
  best : ℕ
  tick : ℕ
  windows : ℕ
  probeCursor : ℕ
  score : ℕ → UInt32
  seen : ℕ → Bool
  pvPkts : UInt32
  pvDrops : UInt64

/-- What `sp_packets` and `sp_drops` return on a tick. -/
structure SpinReading where
  pkts : UInt32
  drops : UInt64

/-- The controller, and `spin_us` of the proxy. -/
structure Spinner where
  ctl : SpinCtl
  spinUs : ℕ

/-- `sp_init`, with the budget `AWG_SPIN=auto` starts with. -/
def spInit (r : SpinReading) : Spinner where
  ctl :=
    { idx := spStartIdx, best := spStartIdx, tick := 0, windows := 0, probeCursor := 0
      score := fun _ => 0, seen := fun _ => false, pvPkts := r.pkts, pvDrops := r.drops }
  spinUs := spinStartUs

/-- The drops for every ten thousand packets. -/
def spSample (dPkts : UInt32) (dDrops : UInt64) : UInt32 :=
  (dDrops * 10000 / dPkts.toUInt64).toUInt32

/-- The sample of a judged window goes into the score of the rung in force. -/
def SpinCtl.scored (c : SpinCtl) (sample : UInt32) : SpinCtl :=
  { c with
    score := Function.update c.score c.idx
      (if c.seen c.idx then (c.score c.idx * 3 + sample) / 4 else sample)
    seen := Function.update c.seen c.idx true }

/-- The first loop of `sp_tick`: a rung without a score. -/
def firstUnseen (seen : ℕ → Bool) : Option ℕ :=
  ((List.range spLadderN).map fun k => (spStartIdx + k) % spLadderN).find? fun i => !seen i

/-- The second loop: the rung of the lowest score. -/
def lowestScore (score : ℕ → UInt32) : ℕ :=
  (List.range' 1 (spLadderN - 1)).foldl (fun best i => if score i < score best then i else best) 0

/-- The third loop: the rung to probe. -/
def probeRung (best cursor : ℕ) : Option ℕ :=
  ((List.range spLadderN).map fun k => (cursor + k) % spLadderN).find? fun i => i ≠ best

/-- The end of `sp_tick`, where every rung has a score. -/
def spSettle (s : Spinner) : Spinner :=
  let c := s.ctl
  let best := lowestScore c.score
  let c := { c with windows := c.windows + 1 }
  let (c, next) :=
    if c.windows ≥ spProbeEvery then
      match probeRung best c.probeCursor with
      | some i => ({ c with windows := 0, probeCursor := i + 1 }, i)
      | none => ({ c with windows := 0 }, best)
    else (c, best)
  let c := { c with best := best }
  if next ≠ c.idx then ⟨{ c with idx := next }, spLadder.getD next 0⟩ else ⟨c, s.spinUs⟩

/-- What `sp_tick` does once the window is judged. -/
def spJudge (s : Spinner) (sample : UInt32) : Spinner :=
  let c := s.ctl.scored sample
  match firstUnseen c.seen with
  | some i => ⟨{ c with idx := i }, spLadder.getD i 0⟩
  | none => spSettle ⟨c, s.spinUs⟩

/-- `sp_tick`, and whether it judges a window. -/
def spTick (s : Spinner) (r : SpinReading) : Spinner × Bool :=
  let c := s.ctl
  if c.tick + 1 < spWindowTicks then (⟨{ c with tick := c.tick + 1 }, s.spinUs⟩, false)
  else
    let dPkts := r.pkts - c.pvPkts
    let dDrops := if r.drops > c.pvDrops then r.drops - c.pvDrops else 0
    let c := { c with tick := 0, pvPkts := r.pkts, pvDrops := r.drops }
    if dPkts < spMinPackets then (⟨c, s.spinUs⟩, false)
    else (spJudge ⟨c, s.spinUs⟩ (spSample dPkts dDrops), true)

/-- A run of ticks. -/
def spRun (s : Spinner) (rs : List SpinReading) : Spinner :=
  rs.foldl (fun s r => (spTick s r).1) s

/-- The states behind the judged windows of a run. -/
def judgedStates (s : Spinner) : List SpinReading → List Spinner
  | [] => []
  | r :: rs =>
      let (s', judged) := spTick s r
      if judged then s' :: judgedStates s' rs else judgedStates s' rs

/-! ### What the controller is for -/

/-- Every rung has been scored. -/
def AllSeen (s : Spinner) : Prop :=
  ∀ i < spLadderN, s.ctl.seen i = true

instance : DecidablePred AllSeen := fun s => by unfold AllSeen; infer_instance

/-- The lowest-indexed rung of minimal score. -/
def IsBest (s : Spinner) (b : ℕ) : Prop :=
  List.IsFirstMin (fun i => (s.ctl.score i).toNat) spLadderN b

/-- The rung in force is the best one. -/
def OnBest (s : Spinner) : Prop :=
  IsBest s s.ctl.idx

instance : DecidablePred OnBest := fun s => by
  unfold OnBest IsBest List.IsFirstMin
  infer_instance

/-- The reading the window in progress counts from: the one its predecessor ended with, or the
first. -/
def windowStart (r₀ : SpinReading) (rs : List SpinReading) : SpinReading :=
  (r₀ :: rs).getD (spWindowTicks * (rs.length / spWindowTicks)) r₀

/-- What a tick makes of a window that counts from `start`, behind so many other ticks. -/
structure JudgesWindow (start : SpinReading) (ticks : ℕ) (s : Spinner) (r : SpinReading) :
    Prop where
  /-- The window is judged where it is over and enough packets were read in it. -/
  judged : (spTick s r).2 = true ↔
    spWindowTicks ∣ ticks + 1 ∧ spMinPackets ≤ r.pkts - start.pkts
  /-- The share of drops then goes into the score of the rung that was in force. -/
  scored : (spTick s r).2 = true →
    let sample := spSample (r.pkts - start.pkts)
      (if r.drops > start.drops then r.drops - start.drops else 0)
    let score := s.ctl.score s.ctl.idx
    (spTick s r).1.ctl.score = Function.update s.ctl.score s.ctl.idx
        (if s.ctl.seen s.ctl.idx then (score * 3 + sample) / 4 else sample) ∧
      (spTick s r).1.ctl.seen = Function.update s.ctl.seen s.ctl.idx true
  /-- Any other tick leaves the scores alone. -/
  kept : (spTick s r).2 = false →
    (spTick s r).1.ctl.score = s.ctl.score ∧ (spTick s r).1.ctl.seen = s.ctl.seen

/-! ### The three loops -/

/-- A rung the first loop finds. -/
theorem of_firstUnseen_eq_some {seen : ℕ → Bool} {i : ℕ} (h : firstUnseen seen = some i) :
    i < spLadderN ∧ seen i = false := by
  obtain ⟨k, -, rfl, hp, -⟩ := List.find?_map_range_eq_some_iff.mp h
  exact ⟨Nat.mod_lt _ (by decide), by simpa using hp⟩

/-- It comes past all of them. -/
theorem firstUnseen_eq_none_iff {seen : ℕ → Bool} :
    firstUnseen seen = none ↔ ∀ i < spLadderN, seen i = true := by
  rw [firstUnseen, List.find?_map_range_eq_none_iff]
  constructor
  · intro h i (hi : i < 6)
    have hk := h ((i + 3) % 6) (Nat.mod_lt _ (by decide))
    have hround : (3 + (i + 3) % 6) % 6 = i := by omega
    rw [hround] at hk
    simpa using hk
  · intro h k _
    simpa using h _ (Nat.mod_lt _ (by decide))

/-- The second loop finds the best rung. -/
theorem isBest_lowestScore (s : Spinner) : IsBest s (lowestScore s.ctl.score) := by
  simp only [lowestScore, UInt32.lt_iff_toNat_lt]
  exact List.isFirstMin_foldl (fun i => (s.ctl.score i).toNat) (spLadderN - 1)

/-- There is no other. -/
theorem isBest_iff {s : Spinner} {b : ℕ} : IsBest s b ↔ b = lowestScore s.ctl.score :=
  ⟨fun h => h.unique (isBest_lowestScore s), fun h => h ▸ isBest_lowestScore s⟩

theorem lowestScore_lt (score : ℕ → UInt32) : lowestScore score < spLadderN := by
  simp only [lowestScore, UInt32.lt_iff_toNat_lt]
  exact (List.isFirstMin_foldl (fun i => (score i).toNat) (spLadderN - 1)).1

/-- The third loop always finds another rung. -/
theorem exists_probeRung (best cursor : ℕ) :
    ∃ i, probeRung best cursor = some i ∧ i < spLadderN ∧ i ≠ best := by
  rcases h : probeRung best cursor with _ | i
  · rw [probeRung, List.find?_map_range_eq_none_iff] at h
    have h0 : (cursor + 0) % 6 = best := by simpa using h 0 (by decide)
    have h1 : (cursor + 1) % 6 = best := by simpa using h 1 (by decide)
    omega
  · obtain ⟨k, -, rfl, hp, -⟩ := List.find?_map_range_eq_some_iff.mp h
    exact ⟨_, rfl, Nat.mod_lt _ (by decide), of_decide_eq_true hp⟩

/-! ### One tick -/

/-- The two states agree on all that a judged window goes by. -/
structure SameTuning (s t : Spinner) : Prop where
  idx : t.ctl.idx = s.ctl.idx
  windows : t.ctl.windows = s.ctl.windows
  probeCursor : t.ctl.probeCursor = s.ctl.probeCursor
  seen : t.ctl.seen = s.ctl.seen
  spinUs : t.spinUs = s.spinUs

/-- The state that a window is judged from when it ends with this reading. -/
def Spinner.turned (s : Spinner) (r : SpinReading) : Spinner :=
  ⟨{ s.ctl with tick := 0, pvPkts := r.pkts, pvDrops := r.drops }, s.spinUs⟩

/-- The sample of that window. -/
def Spinner.sample (s : Spinner) (r : SpinReading) : UInt32 :=
  spSample (r.pkts - s.ctl.pvPkts)
    (if r.drops > s.ctl.pvDrops then r.drops - s.ctl.pvDrops else 0)

theorem spTick_of_lt {s : Spinner} (h : s.ctl.tick + 1 < spWindowTicks) (r : SpinReading) :
    spTick s r = (⟨{ s.ctl with tick := s.ctl.tick + 1 }, s.spinUs⟩, false) := by
  rw [spTick, if_pos h]

theorem spTick_of_ge {s : Spinner} (h : ¬ s.ctl.tick + 1 < spWindowTicks) (r : SpinReading) :
    spTick s r =
      if r.pkts - s.ctl.pvPkts < spMinPackets then (s.turned r, false)
      else (spJudge (s.turned r) (s.sample r), true) := by
  rw [spTick, if_neg h]
  rfl

/-- A tick within a window, or at the end of an idle one, changes nothing of it; the end of any
other judges the window. -/
theorem spTick_cases (s : Spinner) (r : SpinReading) :
    ∃ t, SameTuning s t ∧
      (spTick s r = (t, false) ∨ ∃ sample, spTick s r = (spJudge t sample, true)) := by
  by_cases hmid : s.ctl.tick + 1 < spWindowTicks
  · exact ⟨⟨{ s.ctl with tick := s.ctl.tick + 1 }, s.spinUs⟩, ⟨rfl, rfl, rfl, rfl, rfl⟩,
      Or.inl (spTick_of_lt hmid r)⟩
  · refine ⟨s.turned r, ⟨rfl, rfl, rfl, rfl, rfl⟩, ?_⟩
    rw [spTick_of_ge hmid]
    split
    · exact Or.inl rfl
    · exact Or.inr ⟨_, rfl⟩

/-- The two states count the same window. -/
structure SameWindow (s t : Spinner) : Prop where
  tick : t.ctl.tick = s.ctl.tick
  pvPkts : t.ctl.pvPkts = s.ctl.pvPkts
  pvDrops : t.ctl.pvDrops = s.ctl.pvDrops

/-- How a settled window ends, when so many windows have been judged since the last probe and
the cursor stands there: on the best rung, or with a probe. -/
def SettledFrom (windows cursor : ℕ) (s : Spinner) : Prop :=
  windows + 1 < spProbeEvery ∧ s.ctl.windows = windows + 1 ∧ s.ctl.probeCursor = cursor ∧
      s.ctl.idx = lowestScore s.ctl.score ∨
    spProbeEvery ≤ windows + 1 ∧ s.ctl.windows = 0 ∧ s.ctl.probeCursor = s.ctl.idx + 1 ∧
      probeRung (lowestScore s.ctl.score) cursor = some s.ctl.idx

/-- `spin_us` is the rung in force. -/
def OnLadder (s : Spinner) : Prop :=
  s.ctl.idx < spLadderN ∧ spLadder[s.ctl.idx]? = some s.spinUs

theorem onLadder_getD {c : SpinCtl} (h : c.idx < spLadderN) :
    OnLadder ⟨c, spLadder.getD c.idx 0⟩ := by
  refine ⟨h, ?_⟩
  dsimp only
  rw [List.getD_eq_getElem?_getD, List.getElem?_eq_getElem h, Option.getD_some]

/-- A settled window, with every score as it was. -/
theorem spSettle_spec {s : Spinner} (h : OnLadder s) :
    SameWindow s (spSettle s) ∧ (spSettle s).ctl.score = s.ctl.score ∧
      (spSettle s).ctl.seen = s.ctl.seen ∧ OnLadder (spSettle s) ∧
      SettledFrom s.ctl.windows s.ctl.probeCursor (spSettle s) := by
  obtain ⟨i, hi, hlt, -⟩ := exists_probeRung (lowestScore s.ctl.score) s.ctl.probeCursor
  have hbest := lowestScore_lt s.ctl.score
  by_cases hw : s.ctl.windows + 1 ≥ spProbeEvery
  · by_cases hidx : i = s.ctl.idx
    · have heq : spSettle s = ⟨{ s.ctl with
          windows := 0, probeCursor := i + 1, best := lowestScore s.ctl.score }, s.spinUs⟩ := by
        simp only [spSettle, if_pos hw, hi, hidx, ne_eq, not_true_eq_false, if_false]
      rw [heq]
      exact ⟨⟨rfl, rfl, rfl⟩, rfl, rfl, h, Or.inr ⟨hw, rfl, congrArg (· + 1) hidx, hidx ▸ hi⟩⟩
    · have heq : spSettle s = ⟨{ s.ctl with
          windows := 0, probeCursor := i + 1, best := lowestScore s.ctl.score, idx := i },
          spLadder.getD i 0⟩ := by
        simp only [spSettle, if_pos hw, hi, ne_eq, hidx, not_false_eq_true, if_true]
      rw [heq]
      exact ⟨⟨rfl, rfl, rfl⟩, rfl, rfl, onLadder_getD hlt, Or.inr ⟨hw, rfl, rfl, hi⟩⟩
  · by_cases hidx : lowestScore s.ctl.score = s.ctl.idx
    · have heq : spSettle s = ⟨{ s.ctl with
          windows := s.ctl.windows + 1, best := lowestScore s.ctl.score }, s.spinUs⟩ := by
        simp only [spSettle, if_neg hw, hidx, ne_eq, not_true_eq_false, if_false]
      rw [heq]
      exact ⟨⟨rfl, rfl, rfl⟩, rfl, rfl, h, Or.inl ⟨not_le.mp hw, rfl, rfl, hidx.symm⟩⟩
    · have heq : spSettle s = ⟨{ s.ctl with
          windows := s.ctl.windows + 1, best := lowestScore s.ctl.score,
          idx := lowestScore s.ctl.score }, spLadder.getD (lowestScore s.ctl.score) 0⟩ := by
        simp only [spSettle, if_neg hw, ne_eq, hidx, not_false_eq_true, if_true]
      rw [heq]
      exact ⟨⟨rfl, rfl, rfl⟩, rfl, rfl, onLadder_getD hbest, Or.inl ⟨not_le.mp hw, rfl, rfl, rfl⟩⟩

/-- A judged window scores the rung in force, and then moves on to one without a score, or
settles. -/
theorem spJudge_spec {s : Spinner} (h : OnLadder s) (sample : UInt32) :
    let s' := spJudge s sample
    SameWindow s s' ∧ s'.ctl.score = (s.ctl.scored sample).score ∧
      s'.ctl.seen = Function.update s.ctl.seen s.ctl.idx true ∧ OnLadder s' ∧
      (s'.ctl.seen s'.ctl.idx = false ∧ s'.ctl.windows = s.ctl.windows ∧
          s'.ctl.probeCursor = s.ctl.probeCursor ∨
        AllSeen s' ∧ SettledFrom s.ctl.windows s.ctl.probeCursor s') := by
  rcases hfirst : firstUnseen (s.ctl.scored sample).seen with _ | i
  · have heq : spJudge s sample = spSettle ⟨s.ctl.scored sample, s.spinUs⟩ := by
      simp only [spJudge, hfirst]
    have hon : OnLadder ⟨s.ctl.scored sample, s.spinUs⟩ := h
    obtain ⟨⟨htick, hpkts, hdrops⟩, hscore, hseen, hon', hset⟩ := spSettle_spec hon
    dsimp only
    rw [heq]
    refine ⟨⟨htick, hpkts, hdrops⟩, hscore, hseen, hon', Or.inr ⟨?_, hset⟩⟩
    rw [AllSeen, hseen]
    exact firstUnseen_eq_none_iff.mp hfirst
  · have heq : spJudge s sample = ⟨{ s.ctl.scored sample with idx := i }, spLadder.getD i 0⟩ := by
      simp only [spJudge, hfirst]
    obtain ⟨hi, hseen⟩ := of_firstUnseen_eq_some hfirst
    dsimp only
    rw [heq]
    exact ⟨⟨rfl, rfl, rfl⟩, rfl, rfl, onLadder_getD hi, Or.inl ⟨hseen, rfl, rfl⟩⟩

/-! ### Runs -/

theorem judgedStates_cons (s : Spinner) (r : SpinReading) (rs : List SpinReading) :
    judgedStates s (r :: rs) =
      if (spTick s r).2 then (spTick s r).1 :: judgedStates (spTick s r).1 rs
      else judgedStates (spTick s r).1 rs := rfl

/-- The states of a run: the rung in force is one of the ladder and, until every rung has a
score, without one; both cursors are in range. -/
structure SpinnerOk (s : Spinner) : Prop where
  onLadder : OnLadder s
  unseen : AllSeen s ∨ s.ctl.seen s.ctl.idx = false
  windows : s.ctl.windows < spProbeEvery
  probeCursor : s.ctl.probeCursor ≤ spLadderN

theorem spinnerOk_spInit (r : SpinReading) : SpinnerOk (spInit r) :=
  ⟨⟨(by decide : 3 < 6), rfl⟩, Or.inr rfl, (by decide : 0 < 20), Nat.zero_le 6⟩

theorem SpinnerOk.congr {s t : Spinner} (h : SpinnerOk s) (hst : SameTuning s t) :
    SpinnerOk t := by
  obtain ⟨⟨hidx, hus⟩, hseen, hw, hc⟩ := h
  constructor
  · rw [OnLadder, hst.idx, hst.spinUs]
    exact ⟨hidx, hus⟩
  · rw [AllSeen, hst.seen, hst.idx]
    exact hseen
  · rw [hst.windows]
    exact hw
  · rw [hst.probeCursor]
    exact hc

/-- A settled window leaves both cursors in range. -/
theorem SettledFrom.lt {w c : ℕ} {s : Spinner} (h : SettledFrom w c s) (hs : OnLadder s)
    (hc : c ≤ spLadderN) : s.ctl.windows < spProbeEvery ∧ s.ctl.probeCursor ≤ spLadderN := by
  rcases h with ⟨hlt, hw, hcur, -⟩ | ⟨-, hw, hcur, -⟩
  · rw [hw, hcur]
    exact ⟨hlt, hc⟩
  · rw [hw, hcur]
    exact ⟨by decide, hs.1⟩

/-- The rungs without a score. -/
def unscored (s : Spinner) : Finset ℕ :=
  (Finset.range spLadderN).filter fun i => s.ctl.seen i = false

theorem unscored_eq_empty_iff {s : Spinner} : unscored s = ∅ ↔ AllSeen s := by
  simp [unscored, AllSeen, Finset.filter_eq_empty_iff]

/-- **A judged window**, from a state of the run: the rung in force has its score, and the
next is one without or the window has settled. -/
theorem spJudge_ok {s : Spinner} (h : SpinnerOk s) (sample : UInt32) :
    let s' := spJudge s sample
    SpinnerOk s' ∧ (unscored s').card = (unscored s).card - 1 ∧
      (¬ AllSeen s' ∧ s'.ctl.windows = s.ctl.windows ∧
          s'.ctl.probeCursor = s.ctl.probeCursor ∨
        AllSeen s' ∧ SettledFrom s.ctl.windows s.ctl.probeCursor s') := by
  obtain ⟨-, -, hseen, hon, hcases⟩ := spJudge_spec h.onLadder sample
  dsimp only
  have hunscored : unscored (spJudge s sample) = (unscored s).erase s.ctl.idx := by
    ext i
    rw [unscored, unscored, Finset.mem_erase, Finset.mem_filter, Finset.mem_filter, hseen,
      Function.update_apply]
    by_cases hi : i = s.ctl.idx
    · simp [hi]
    · simp [hi]
  have hcard : (unscored (spJudge s sample)).card = (unscored s).card - 1 := by
    rw [hunscored]
    rcases h.unseen with hall | hidx
    · rw [unscored_eq_empty_iff.mpr hall]
      rfl
    · exact Finset.card_erase_of_mem
        (Finset.mem_filter.mpr ⟨Finset.mem_range.mpr h.onLadder.1, hidx⟩)
  rcases hcases with ⟨hidx, hw, hc⟩ | ⟨hall, hset⟩
  · refine ⟨⟨hon, Or.inr hidx, hw ▸ h.windows, hc ▸ h.probeCursor⟩, hcard, Or.inl ⟨?_, hw, hc⟩⟩
    intro hall
    rw [hall _ hon.1] at hidx
    contradiction
  · obtain ⟨hw, hc⟩ := hset.lt hon h.probeCursor
    exact ⟨⟨hon, Or.inl hall, hw, hc⟩, hcard, Or.inr ⟨hall, hset⟩⟩

/-- Every tick leaves a state of the run. -/
theorem spinnerOk_spTick {s : Spinner} (h : SpinnerOk s) (r : SpinReading) :
    SpinnerOk (spTick s r).1 := by
  obtain ⟨t, hst, heq | ⟨sample, heq⟩⟩ := spTick_cases s r
  · rw [heq]
    exact h.congr hst
  · rw [heq]
    exact (spJudge_ok (h.congr hst) sample).1

theorem spinnerOk_spRun {s : Spinner} (h : SpinnerOk s) (rs : List SpinReading) :
    SpinnerOk (spRun s rs) := by
  induction rs generalizing s with
  | nil => exact h
  | cons r rs ih => exact ih (spinnerOk_spTick h r)

theorem spinnerOk_of_mem_judgedStates {s t : Spinner} (h : SpinnerOk s)
    {rs : List SpinReading} (ht : t ∈ judgedStates s rs) : SpinnerOk t := by
  induction rs generalizing s with
  | nil => cases ht
  | cons r rs ih =>
      have hstep := spinnerOk_spTick h r
      rw [judgedStates_cons] at ht
      split at ht
      · rcases List.mem_cons.mp ht with rfl | ht
        · exact hstep
        · exact ih hstep ht
      · exact ih hstep ht

/-- **Until every rung has a score**, each judged window gives one to another rung. -/
theorem card_unscored_run {s : Spinner} (h : SpinnerOk s) (rs : List SpinReading) :
    (unscored (spRun s rs)).card = (unscored s).card - (judgedStates s rs).length := by
  induction rs generalizing s with
  | nil => rfl
  | cons r rs ih =>
      have hrun : spRun s (r :: rs) = spRun (spTick s r).1 rs := rfl
      rw [hrun, ih (spinnerOk_spTick h r), judgedStates_cons]
      obtain ⟨t, hst, heq | ⟨sample, heq⟩⟩ := spTick_cases s r
      · have hsame : unscored t = unscored s := by rw [unscored, hst.seen, unscored]
        rw [heq, hsame, if_neg Bool.false_ne_true]
      · have hsame : unscored t = unscored s := by rw [unscored, hst.seen, unscored]
        rw [heq, if_pos rfl, List.length_cons, (spJudge_ok (h.congr hst) sample).2.1, hsame]
        omega

/-! ### Which windows are judged -/

/-- Where the controller stands in its window after the readings `rs`. -/
structure SpinCounted (r₀ : SpinReading) (rs : List SpinReading) (s : Spinner) : Prop where
  tick : s.ctl.tick = rs.length % spWindowTicks
  pvPkts : s.ctl.pvPkts = (windowStart r₀ rs).pkts
  pvDrops : s.ctl.pvDrops = (windowStart r₀ rs).drops

/-- A tick in the middle of a window does not move its start. -/
theorem windowStart_concat_of_lt (r₀ r : SpinReading) {rs : List SpinReading}
    (h : rs.length % spWindowTicks + 1 < spWindowTicks) :
    windowStart r₀ (rs ++ [r]) = windowStart r₀ rs := by
  change rs.length % 3 + 1 < 3 at h
  have hlen : (rs ++ [r]).length / 3 = rs.length / 3 := by
    rw [List.length_append, List.length_singleton]
    omega
  rw [windowStart, windowStart]
  change (r₀ :: rs ++ [r]).getD (3 * ((rs ++ [r]).length / 3)) r₀ =
    (r₀ :: rs).getD (3 * (rs.length / 3)) r₀
  have hlt : 3 * (rs.length / 3) < (r₀ :: rs).length := by
    rw [List.length_cons]
    omega
  rw [hlen, List.getD_eq_getElem?_getD, List.getElem?_append_left hlt,
    ← List.getD_eq_getElem?_getD]

/-- The last tick of a window is where the next one starts. -/
theorem windowStart_concat_of_ge (r₀ r : SpinReading) {rs : List SpinReading}
    (h : ¬ rs.length % spWindowTicks + 1 < spWindowTicks) :
    windowStart r₀ (rs ++ [r]) = r := by
  change ¬ rs.length % 3 + 1 < 3 at h
  rw [windowStart]
  change (r₀ :: rs ++ [r]).getD (3 * ((rs ++ [r]).length / 3)) r₀ = r
  have hidx : 3 * ((rs ++ [r]).length / 3) = (r₀ :: rs).length := by
    rw [List.length_append, List.length_singleton, List.length_cons]
    omega
  rw [hidx, List.getD_eq_getElem?_getD, List.getElem?_concat_length, Option.getD_some]

section

variable {r₀ : SpinReading} {rs : List SpinReading} {s : Spinner}

/-- A tick in the middle of a window counts on. -/
theorem SpinCounted.mid (h : SpinCounted r₀ rs s) (hmid : s.ctl.tick + 1 < spWindowTicks)
    (r : SpinReading) :
    SpinCounted r₀ (rs ++ [r]) (spTick s r).1 ∧
      JudgesWindow (windowStart r₀ rs) rs.length s r := by
  obtain ⟨htick, hpkts, hdrops⟩ := h
  have heq := spTick_of_lt hmid r
  rw [htick] at hmid
  have hstart := windowStart_concat_of_lt r₀ r hmid
  change rs.length % 3 + 1 < 3 at hmid
  change s.ctl.tick = rs.length % 3 at htick
  refine ⟨⟨?_, ?_, ?_⟩, ⟨?_, fun hj => ?_, fun _ => ?_⟩⟩
  · rw [heq, List.length_append, List.length_singleton]
    change s.ctl.tick + 1 = (rs.length + 1) % 3
    omega
  · rw [heq, hstart]
    exact hpkts
  · rw [heq, hstart]
    exact hdrops
  · rw [heq]
    refine iff_of_false Bool.false_ne_true fun hj => ?_
    have hdvd : 3 ∣ rs.length + 1 := hj.1
    omega
  · rw [heq] at hj
    contradiction
  · rw [heq]
    exact ⟨rfl, rfl⟩

/-- The last tick of a window judges it, unless too few packets were read. -/
theorem SpinCounted.whole (h : SpinCounted r₀ rs s) (hs : OnLadder s)
    (hmid : ¬ s.ctl.tick + 1 < spWindowTicks) (r : SpinReading) :
    SpinCounted r₀ (rs ++ [r]) (spTick s r).1 ∧
      JudgesWindow (windowStart r₀ rs) rs.length s r := by
  obtain ⟨htick, hpkts, hdrops⟩ := h
  have heq := spTick_of_ge hmid r
  rw [htick] at hmid
  have hend := windowStart_concat_of_ge r₀ r hmid
  have hdvd : spWindowTicks ∣ rs.length + 1 := by
    change ¬ rs.length % 3 + 1 < 3 at hmid
    change 3 ∣ rs.length + 1
    omega
  have hzero : 0 = (rs ++ [r]).length % spWindowTicks := by
    rw [List.length_append, List.length_singleton]
    exact (Nat.mod_eq_zero_of_dvd hdvd).symm
  by_cases hidle : r.pkts - s.ctl.pvPkts < spMinPackets
  · rw [if_pos hidle] at heq
    refine ⟨⟨?_, ?_, ?_⟩, ⟨?_, fun hj => ?_, fun _ => ?_⟩⟩
    · rw [heq]
      exact hzero
    · rw [heq, hend]
      rfl
    · rw [heq, hend]
      rfl
    · rw [heq, ← hpkts]
      exact iff_of_false Bool.false_ne_true fun hj => UInt32.not_le.mpr hidle hj.2
    · rw [heq] at hj
      contradiction
    · rw [heq]
      exact ⟨rfl, rfl⟩
  · rw [if_neg hidle] at heq
    have ht : OnLadder (s.turned r) := hs
    obtain ⟨hsame, hscore, hseen, -, -⟩ := spJudge_spec ht (s.sample r)
    refine ⟨⟨?_, ?_, ?_⟩, ⟨?_, fun _ => ?_, fun hj => ?_⟩⟩
    · rw [heq, hsame.tick]
      exact hzero
    · rw [heq, hsame.pvPkts, hend]
      rfl
    · rw [heq, hsame.pvDrops, hend]
      rfl
    · rw [heq, ← hpkts]
      exact iff_of_true rfl ⟨hdvd, UInt32.not_lt.mp hidle⟩
    · rw [heq, ← hpkts, ← hdrops]
      exact ⟨hscore, hseen⟩
    · rw [heq] at hj
      contradiction

/-- **One tick** moves the controller on in its window, and judges the window it ends. -/
theorem SpinCounted.stepped (h : SpinCounted r₀ rs s) (hs : OnLadder s) (r : SpinReading) :
    SpinCounted r₀ (rs ++ [r]) (spTick s r).1 ∧
      JudgesWindow (windowStart r₀ rs) rs.length s r := by
  by_cases hmid : s.ctl.tick + 1 < spWindowTicks
  · exact h.mid hmid r
  · exact h.whole hs hmid r

end

/-- **Which tick judges a window**, in any run. -/
theorem judgesWindow_spRun (r₀ : SpinReading) (rs : List SpinReading) :
    ∀ r, JudgesWindow (windowStart r₀ rs) rs.length (spRun (spInit r₀) rs) r := by
  have hon : ∀ rs, OnLadder (spRun (spInit r₀) rs) :=
    fun rs => (spinnerOk_spRun (spinnerOk_spInit r₀) rs).onLadder
  have hcounted : SpinCounted r₀ rs (spRun (spInit r₀) rs) := by
    induction rs using List.reverseRecOn with
    | nil => exact ⟨rfl, rfl, rfl⟩
    | append_singleton rs r ih =>
        rw [spRun, List.foldl_append]
        exact (ih.stepped (hon rs) r).1
  exact fun r => (hcounted.stepped (hon rs) r).2

/-! ### Settled windows -/

/-- The states behind the settled windows of a run: those judged with a score for every
rung. -/
def settledStates (s : Spinner) (rs : List SpinReading) : List Spinner :=
  (judgedStates s rs).filter fun t => AllSeen t

/-- Settled windows one after the other. -/
def SettledRun (windows cursor : ℕ) : List Spinner → Prop
  | [] => True
  | s :: ss =>
      SpinnerOk s ∧ SettledFrom windows cursor s ∧ SettledRun s.ctl.windows s.ctl.probeCursor ss

/-- The settled windows of a run are such; the windows in between leave both cursors alone. -/
theorem settledRun_settledStates {s : Spinner} (h : SpinnerOk s) (rs : List SpinReading) :
    SettledRun s.ctl.windows s.ctl.probeCursor (settledStates s rs) := by
  induction rs generalizing s with
  | nil => trivial
  | cons r rs ih =>
      have hok := spinnerOk_spTick h r
      have ih := ih hok
      rw [settledStates, judgedStates_cons]
      obtain ⟨t, hst, heq | ⟨sample, heq⟩⟩ := spTick_cases s r
      · rw [heq] at ih ⊢
        rw [if_neg Bool.false_ne_true, ← hst.windows, ← hst.probeCursor]
        exact ih
      · rw [heq] at ih hok ⊢
        rw [if_pos rfl]
        rcases (spJudge_ok (h.congr hst) sample).2.2 with ⟨hun, hw, hc⟩ | ⟨hall, hset⟩
        · rw [List.filter_cons_of_neg (by simpa using hun), ← hst.windows, ← hst.probeCursor,
            ← hw, ← hc]
          exact ih
        · rw [List.filter_cons_of_pos (by simpa using hall), ← hst.windows, ← hst.probeCursor]
          exact ⟨hok, hset, ih⟩

/-- A stretch of settled windows is one. -/
theorem SettledRun.infix {w c : ℕ} {ss l : List Spinner} (h : SettledRun w c ss)
    (hw : w < spProbeEvery) (hc : c ≤ spLadderN) (hl : l <:+: ss) :
    ∃ w' c', w' < spProbeEvery ∧ c' ≤ spLadderN ∧ SettledRun w' c' l := by
  obtain ⟨pre, post, rfl⟩ := hl
  rw [List.append_assoc] at h
  induction pre generalizing w c with
  | nil =>
      refine ⟨w, c, hw, hc, ?_⟩
      clear hw hc
      induction l generalizing w c with
      | nil => trivial
      | cons s l ih => exact ⟨h.1, h.2.1, ih h.2.2⟩
  | cons s pre ih => exact ih h.1.windows h.1.probeCursor h.2.2

/-- The probes among settled windows. -/
def probes (ss : List Spinner) : List Spinner :=
  ss.filter fun s => ¬ OnBest s

/-- A settled window is on the best rung, or a probe: the twentieth since the last. -/
theorem SettledFrom.onBest_iff {w c : ℕ} {s : Spinner} (h : SettledFrom w c s) :
    OnBest s ↔ w + 1 < spProbeEvery := by
  rw [OnBest, isBest_iff]
  rcases h with ⟨hlt, -, -, hidx⟩ | ⟨hge, -, -, hprobe⟩
  · exact iff_of_true hidx hlt
  · obtain ⟨i, hi, -, hne⟩ := exists_probeRung (lowestScore s.ctl.score) c
    obtain rfl := Option.some.inj (hi.symm.trans hprobe)
    exact iff_of_false hne (not_lt.mpr hge)

/-- **The probes by number**: every twentieth settled window is one. -/
theorem length_probes {w c : ℕ} {ss : List Spinner} (h : SettledRun w c ss)
    (hw : w < spProbeEvery) : (probes ss).length = (w + ss.length) / spProbeEvery := by
  induction ss generalizing w c with
  | nil => exact (Nat.div_eq_of_lt hw).symm
  | cons s ss ih =>
      obtain ⟨hok, hset, hrest⟩ := h
      have ih := ih hrest hok.windows
      have hiff := hset.onBest_iff
      rcases hset with ⟨hlt, hw', -, -⟩ | ⟨hge, hw', -, -⟩
      · rw [probes, List.filter_cons_of_neg (by simpa using hiff.mpr hlt), ← probes, ih, hw',
          List.length_cons, Nat.add_assoc, Nat.add_comm 1]
      · rw [probes, List.filter_cons_of_pos (by simpa using hiff.not.mpr (not_lt.mpr hge)),
          ← probes, List.length_cons, List.length_cons, ih, hw']
        change (0 + ss.length) / 20 + 1 = (w + (ss.length + 1)) / 20
        replace hge : 20 ≤ w + 1 := hge
        replace hw : w < 20 := hw
        omega

/-! ### The turn of the rungs -/

/-- The rungs of so many probes in a row, while `best` stays the best. -/
def probeWalk (best : ℕ) : ℕ → ℕ → List ℕ
  | _, 0 => []
  | cursor, n + 1 =>
      match probeRung best cursor with
      | some i => i :: probeWalk best (i + 1) n
      | none => []

/-- The probes among settled windows of one best rung take their turns. -/
theorem map_idx_probes {b w c : ℕ} {ss : List Spinner} (h : SettledRun w c ss)
    (hb : ∀ s ∈ ss, IsBest s b) :
    (probes ss).map (fun s => s.ctl.idx) = probeWalk b c (probes ss).length := by
  induction ss generalizing w c with
  | nil => rfl
  | cons s ss ih =>
      obtain ⟨-, hset, hrest⟩ := h
      have ih := ih hrest fun t ht => hb t (List.mem_cons_of_mem s ht)
      have hbest := isBest_iff.mp (hb s List.mem_cons_self)
      have hiff := hset.onBest_iff
      rcases hset with ⟨hlt, -, hcur, -⟩ | ⟨hge, -, hcur, hprobe⟩
      · rw [probes, List.filter_cons_of_neg (by simpa using hiff.mpr hlt), ← probes, ih, hcur]
      · rw [probes, List.filter_cons_of_pos (by simpa using hiff.not.mpr (not_lt.mpr hge)),
          ← probes, List.map_cons, List.length_cons, probeWalk, hbest, hprobe, ih, hcur, hbest]

/-- **Six probes in a row** come past every rung but the best. -/
theorem mem_probeWalk {b c i : ℕ} (hb : b < spLadderN) (hc : c ≤ spLadderN)
    (hi : i < spLadderN) (hne : i ≠ b) : i ∈ probeWalk b c spLadderN := by
  have hall : ∀ (b : Fin 6) (c : Fin 7) (i : Fin 6), i ≠ b → i.val ∈ probeWalk b c 6 := by
    decide
  exact hall ⟨b, hb⟩ ⟨c, Nat.lt_succ_of_le hc⟩ ⟨i, hi⟩ fun h => hne (Fin.mk.inj h)

/-- A stretch of the probes is the probes of a stretch of windows. -/
theorem exists_infix_of_infix_probes {ss ps : List Spinner} (h : ps <:+: probes ss) :
    ∃ l, l <:+: ss ∧ ps = probes l := by
  obtain ⟨pre, post, heq⟩ := h
  obtain ⟨l₁, l₃, rfl, h₁, -⟩ := List.filter_eq_append_iff.mp heq.symm
  obtain ⟨l₀, l₂, rfl, -, h₂⟩ := List.filter_eq_append_iff.mp h₁
  exact ⟨l₂, ⟨l₀, l₃, rfl⟩, h₂.symm⟩

/-- **The spin controller settles on the measured best.** -/
theorem spin_settles (r₀ : SpinReading) (rs : List SpinReading) :
    (spRun (spInit r₀) rs).ctl.idx < spLadderN ∧
    spLadder[(spRun (spInit r₀) rs).ctl.idx]? = some (spRun (spInit r₀) rs).spinUs ∧
    (∀ s ∈ judgedStates (spInit r₀) rs, AllSeen s ∨ s.ctl.seen s.ctl.idx = false) ∧
    (spLadderN ≤ (judgedStates (spInit r₀) rs).length → AllSeen (spRun (spInit r₀) rs)) ∧
    (∀ ss, ss <:+: settledStates (spInit r₀) rs →
      (ss.length ≤ spProbeEvery → (probes ss).length ≤ 1) ∧
      (∀ s t, ss = [s, t] → ¬ OnBest s → OnBest t) ∧
      ∀ b, (∀ s ∈ ss, IsBest s b) → ∀ ps, ps <:+: probes ss → ps.length = spLadderN →
        ∀ i < spLadderN, i ≠ b → ∃ s ∈ ps, s.ctl.idx = i) ∧
    ∀ pre r post, rs = pre ++ r :: post →
      JudgesWindow (windowStart r₀ pre) pre.length (spRun (spInit r₀) pre) r := by
  have hstart := spinnerOk_spInit r₀
  have hrun := spinnerOk_spRun hstart rs
  refine ⟨hrun.onLadder.1, hrun.onLadder.2, fun s hs => ?_, fun hlen => ?_, fun ss hss => ?_,
    fun pre r _ _ => judgesWindow_spRun r₀ pre r⟩
  · exact (spinnerOk_of_mem_judgedStates hstart hs).unseen
  · have hcard := card_unscored_run hstart rs
    have hsix : (unscored (spInit r₀)).card = 6 := rfl
    rw [hsix, Nat.sub_eq_zero_of_le hlen, Finset.card_eq_zero] at hcard
    exact unscored_eq_empty_iff.mp hcard
  · have hall := settledRun_settledStates hstart rs
    have hstretch : ∀ l, l <:+: settledStates (spInit r₀) rs →
        ∃ w c, w < spProbeEvery ∧ c ≤ spLadderN ∧ SettledRun w c l :=
      fun l hl => hall.infix hstart.windows hstart.probeCursor hl
    have hmost : ss.length ≤ spProbeEvery → (probes ss).length ≤ 1 := by
      intro hlen
      obtain ⟨w, c, hw, -, hset⟩ := hstretch ss hss
      rw [length_probes hset hw]
      change ss.length ≤ 20 at hlen
      change w < 20 at hw
      change (w + ss.length) / 20 ≤ 1
      omega
    refine ⟨hmost, ?_, fun b hb ps hps hlen i hi hne => ?_⟩
    · rintro s t rfl hs
      by_contra ht
      have htwo : probes [s, t] = [s, t] := by
        rw [probes, List.filter_cons_of_pos (by simpa using hs),
          List.filter_cons_of_pos (by simpa using ht), List.filter_nil]
      have hone := hmost (by decide : 2 ≤ 20)
      rw [htwo] at hone
      exact absurd hone (by decide : ¬ 2 ≤ 1)
    · obtain ⟨l, hl, rfl⟩ := exists_infix_of_infix_probes hps
      obtain ⟨w, c, -, hc, hset⟩ := hstretch l (hl.trans hss)
      have hwalk := map_idx_probes hset fun s hs => hb s (hl.subset hs)
      rw [hlen] at hwalk
      obtain ⟨s, hs⟩ : ∃ s, s ∈ probes l :=
        List.exists_mem_of_length_pos (by rw [hlen]; decide)
      have hbest := hb s (hl.subset (List.mem_of_mem_filter hs))
      have hmem : i ∈ (probes l).map fun s => s.ctl.idx := by
        rw [hwalk]
        exact mem_probeWalk hbest.1 hc hi hne
      exact List.mem_map.mp hmem

/-- Seven thousand packets on every tick, and none of them dropped. -/
def steadyReadings : List SpinReading :=
  (List.range 81).map fun i => ⟨.ofNat (7000 * (i + 1)), 0⟩

/-- Every third tick judges a window: six of them score the rungs, and of the settled ones the
twentieth is a probe. -/
theorem spin_settles_steady :
    (judgedStates (spInit ⟨0, 0⟩) steadyReadings).length = 27 ∧
      AllSeen (spRun (spInit ⟨0, 0⟩) steadyReadings) ∧
      (probes (settledStates (spInit ⟨0, 0⟩) steadyReadings)).map (fun s => s.ctl.idx) = [1] ∧
      JudgesWindow ⟨14000 + 7000, 0⟩ 5 (spRun (spInit ⟨0, 0⟩) (steadyReadings.take 5))
        ⟨42000, 0⟩ := by
  have hlen : (judgedStates (spInit ⟨0, 0⟩) steadyReadings).length = 27 := by decide +kernel
  obtain ⟨-, -, -, hseen, -, hjudges⟩ := spin_settles ⟨0, 0⟩ steadyReadings
  exact ⟨hlen, hseen (by rw [hlen]; decide), by decide +kernel,
    hjudges (steadyReadings.take 5) ⟨42000, 0⟩ (steadyReadings.drop 6) rfl⟩

end AwgProxy
