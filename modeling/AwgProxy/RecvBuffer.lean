import AwgProxy.Lib.Machine
import Mathlib.Algebra.Order.Ring.Int

/-!
# The Receive Buffer

On a weak router the receive buffer of a socket follows the traffic: on every tick the rate is
read off a counter, a decaying peak is kept, and a new size is requested when it has moved far
enough. All of it is 32-bit arithmetic; an `int` that would overflow is no result here.

* `rbForRate_eq` — the size of a rate, between the floor and the cap.
* `rbStep_spec` — what one tick leaves behind.
* `rbControlled` — the bounds after every tick, and that a constant rate is never answered by
  going back and forth.
-/

namespace AwgProxy

/-! ### The code -/

/-- `RB_FLOOR`. -/
abbrev rbFloor : ℤ := 212992

/-- The result of `int` arithmetic, `none` where it overflows. -/
def intVal (v : ℤ) : Option ℤ :=
  if -2 ^ 31 ≤ v ∧ v < 2 ^ 31 then some v else none

/-- `rb_for_rate`, with `RB_QUEUE_MS` and `RB_TRUESIZE` filled in. -/
def rbForRate (pps : UInt32) (cap : ℤ) : Option ℤ :=
  let r : UInt64 := pps.toUInt64 * 50 * 2304 / 2000
  let r := if r > .ofInt cap then .ofInt cap else r
  let r := if r < .ofInt rbFloor then .ofInt rbFloor else r
  intVal r.toNat

/-- `rb_ctl_t`. -/
structure RbCtl where
  pvPkts : UInt32
  peakPps : UInt32
  /-- The request in force. -/
  req : ℤ

/-- What a tick is called with: the counter, and the seconds since the last one. -/
structure RbTick where
  pkts : UInt32
  secs : ℤ

/-- The rate of a tick. -/
def rbRate (pvPkts : UInt32) (e : RbTick) : UInt32 :=
  (e.pkts - pvPkts) / .ofInt (if e.secs > 0 then e.secs else 1)

/-- The peak after a tick at rate `pps`. -/
def rbPeak (peak pps : UInt32) : UInt32 :=
  if pps ≥ peak then pps else peak - (peak - pps) / 4

/-- `rb_step`: the request, zero for none, and the controller; `none` where an `int`
overflows. -/
def rbStep (c : RbCtl) (e : RbTick) (cap : ℤ) : Option (ℤ × RbCtl) := do
  let peakPps := rbPeak c.peakPps (rbRate c.pvPkts e)
  let want ← rbForRate peakPps cap
  let up ← intVal (c.req + c.req.tdiv 8)
  if want > up then return (want, ⟨e.pkts, peakPps, want⟩)
  let down ← intVal (c.req - c.req.tdiv 4)
  if want < down then return (want, ⟨e.pkts, peakPps, want⟩)
  return (0, ⟨e.pkts, peakPps, c.req⟩)

/-- A controller at the start of `proxy_run`, its counter at `pvPkts`. -/
def rbStart (pvPkts : UInt32) : RbCtl := ⟨pvPkts, 0, rbFloor⟩

/-- The controller, tick after tick. -/
def rbMachine (cap : ℤ) : Machine RbCtl RbTick where
  step c e := (rbStep c e cap).map Prod.snd

/-! ### What is meant -/

/-- The rates of a sequence of ticks. -/
def rbRates : UInt32 → List RbTick → List UInt32
  | _, [] => []
  | pvPkts, e :: es => rbRate pvPkts e :: rbRates e.pkts es

/-- The size wanted for a rate. -/
def rbWant (pps : UInt32) (cap : ℤ) : ℤ :=
  max rbFloor (min cap (pps.toNat * 50 * 2304 / 2000))

/-- The state after a tick, at the last and among all of the `rates` seen. -/
structure RbBounded (cap : ℤ) (rates : List UInt32) (c : RbCtl) : Prop where
  /-- The peak is not below the current rate. -/
  ge_rate : ∀ pps, rates.getLast? = some pps → pps ≤ c.peakPps
  /-- And not above the largest one. -/
  le_max : ∃ pps ∈ rates, c.peakPps ≤ pps
  req_mem : rbFloor ≤ c.req ∧ c.req ≤ cap
  /-- The size wanted is within the band of the request. -/
  want_mem : rbWant c.peakPps cap ≤ c.req + c.req / 8 ∧ c.req - c.req / 4 ≤ rbWant c.peakPps cap

/-! ### The size of a rate -/

variable {cap : ℤ}

theorem intVal_eq_some {v : ℤ} (hlo : -2 ^ 31 ≤ v) (hhi : v < 2 ^ 31) : intVal v = some v :=
  if_pos ⟨hlo, hhi⟩

/-- The size of a rate is the one wanted; nothing overflows. -/
theorem rbForRate_eq (pps : UInt32) (hfloor : rbFloor ≤ cap) (hcap : cap ≤ 2 ^ 30) :
    rbForRate pps cap = some (rbWant pps cap) := by
  have hpps := pps.toNat_lt
  have hsize : (pps.toUInt64 * 50 * 2304 / 2000).toNat = pps.toNat * 50 * 2304 / 2000 := by
    rw [UInt64.toNat_div, UInt64.toNat_mul, UInt64.toNat_mul, UInt32.toNat_toUInt64]
    simp only [UInt64.reduceToNat]
    omega
  have hf : rbFloor = 212992 := rfl
  have hofInt : ∀ v : ℤ, rbFloor ≤ v → v ≤ 2 ^ 30 → ((UInt64.ofInt v).toNat : ℤ) = v := by
    intro v hlo hhi
    rw [UInt64.ofInt, UInt64.toNat_ofNat']
    omega
  have hcapNat := hofInt cap hfloor hcap
  have hfloorNat := hofInt rbFloor le_rfl (by decide)
  have hval : ∀ x y : UInt64, (if x > y then y else x).toNat = min x.toNat y.toNat := by
    intro x y
    split
    · next h => exact (Nat.min_eq_right (UInt64.lt_iff_toNat_lt.mp h).le).symm
    · next h => exact (Nat.min_eq_left (Nat.not_lt.mp (UInt64.lt_iff_toNat_lt.not.mp h))).symm
  have hval' : ∀ x y : UInt64, (if x < y then y else x).toNat = max x.toNat y.toNat := by
    intro x y
    split
    · next h => exact (Nat.max_eq_right (UInt64.lt_iff_toNat_lt.mp h).le).symm
    · next h => exact (Nat.max_eq_left (Nat.not_lt.mp (UInt64.lt_iff_toNat_lt.not.mp h))).symm
  rw [rbForRate, hval', hval, hsize]
  have hwant : ((max (min (pps.toNat * 50 * 2304 / 2000) (UInt64.ofInt cap).toNat)
      (UInt64.ofInt rbFloor).toNat : ℕ) : ℤ) = rbWant pps cap := by
    rw [rbWant]
    omega
  rw [hwant]
  refine intVal_eq_some ?_ ?_
  · rw [rbWant]
    omega
  · rw [rbWant]
    omega

/-- A lower rate wants no more. -/
theorem rbWant_mono {x y : UInt32} (h : x ≤ y) : rbWant x cap ≤ rbWant y cap := by
  have hle := UInt32.le_iff_toNat_le.mp h
  rw [rbWant, rbWant]
  omega

theorem rbWant_mem (pps : UInt32) (hfloor : rbFloor ≤ cap) :
    rbFloor ≤ rbWant pps cap ∧ rbWant pps cap ≤ cap := by
  rw [rbWant]
  omega

/-! ### The peak -/

/-- A peak above the rate decays by a quarter of the difference. -/
theorem toNat_rbPeak_of_lt {peak pps : UInt32} (h : pps < peak) :
    (rbPeak peak pps).toNat = peak.toNat - (peak.toNat - pps.toNat) / 4 := by
  have hlt := UInt32.lt_iff_toNat_lt.mp h
  have hsub : (peak - pps).toNat = peak.toNat - pps.toNat :=
    UInt32.toNat_sub_of_le _ _ (UInt32.le_iff_toNat_le.mpr hlt.le)
  have hdiv : ((peak - pps) / 4).toNat = (peak.toNat - pps.toNat) / 4 := by
    rw [UInt32.toNat_div, hsub]
    rfl
  have hle : (peak - pps) / 4 ≤ peak := UInt32.le_iff_toNat_le.mpr (by omega)
  rw [rbPeak, if_neg (UInt32.not_le.mpr h), UInt32.toNat_sub_of_le _ _ hle, hdiv]

theorem rbPeak_of_le {peak pps : UInt32} (h : peak ≤ pps) : rbPeak peak pps = pps :=
  if_pos h

/-- The peak is not below the rate. -/
theorem le_rbPeak (peak pps : UInt32) : pps ≤ rbPeak peak pps := by
  rcases UInt32.le_total peak pps with h | h
  · rw [rbPeak_of_le h]
    exact UInt32.le_refl pps
  · rcases UInt32.lt_or_eq_of_le h with hlt | rfl
    · have hnat := UInt32.lt_iff_toNat_lt.mp hlt
      rw [UInt32.le_iff_toNat_le, toNat_rbPeak_of_lt hlt]
      omega
    · rw [rbPeak_of_le (UInt32.le_refl _)]
      exact UInt32.le_refl _

/-- A rate that is not above the peak does not raise it. -/
theorem rbPeak_le {peak pps : UInt32} (h : pps ≤ peak) : rbPeak peak pps ≤ peak := by
  rcases UInt32.lt_or_eq_of_le h with hlt | rfl
  · rw [UInt32.le_iff_toNat_le, toNat_rbPeak_of_lt hlt]
    exact Nat.sub_le _ _
  · rw [rbPeak_of_le (UInt32.le_refl _)]
    exact UInt32.le_refl _

/-! ### One tick -/

/-- The request is between the floor and the cap. -/
def RbCtl.InRange (cap : ℤ) (c : RbCtl) : Prop := rbFloor ≤ c.req ∧ c.req ≤ cap

/-- The size wanted is within the band of the request. -/
def RbCtl.InBand (cap : ℤ) (c : RbCtl) : Prop :=
  rbWant c.peakPps cap ≤ c.req + c.req / 8 ∧ c.req - c.req / 4 ≤ rbWant c.peakPps cap

/-- What a tick returns and leaves behind. -/
structure RbStepped (cap : ℤ) (c : RbCtl) (e : RbTick) (v : ℤ) (c' : RbCtl) : Prop where
  pvPkts : c'.pvPkts = e.pkts
  peakPps : c'.peakPps = rbPeak c.peakPps (rbRate c.pvPkts e)
  inRange : c'.InRange cap
  inBand : c'.InBand cap
  /-- A request is made where the size wanted has left the band. -/
  request : v = 0 ∧ c'.req = c.req ∨
    v = rbWant c'.peakPps cap ∧ c'.req = v ∧ (c.req + c.req / 8 < v ∨ v < c.req - c.req / 4)

/-- **One tick** overflows nowhere. -/
theorem rbStep_spec (hfloor : rbFloor ≤ cap) (hcap : cap ≤ 2 ^ 30) {c : RbCtl}
    (h : c.InRange cap) (e : RbTick) :
    ∃ v c', rbStep c e cap = some (v, c') ∧ RbStepped cap c e v c' := by
  have hf : rbFloor = 212992 := rfl
  obtain ⟨hlo, hhi⟩ := h
  generalize hpeak : rbPeak c.peakPps (rbRate c.pvPkts e) = peak
  obtain ⟨hwlo, hwhi⟩ := rbWant_mem peak hfloor
  have hnonneg : 0 ≤ c.req := by omega
  have h8 : c.req.tdiv 8 = c.req / 8 := Int.tdiv_eq_ediv_of_nonneg hnonneg
  have h4 : c.req.tdiv 4 = c.req / 4 := Int.tdiv_eq_ediv_of_nonneg hnonneg
  have hup : intVal (c.req + c.req / 8) = some (c.req + c.req / 8) :=
    intVal_eq_some (by omega) (by omega)
  have hdown : intVal (c.req - c.req / 4) = some (c.req - c.req / 4) :=
    intVal_eq_some (by omega) (by omega)
  simp only [rbStep, hpeak, rbForRate_eq peak hfloor hcap, h8, hup, h4, hdown,
    Option.bind_eq_bind, Option.bind_some, Option.pure_def]
  split
  · next hgt =>
      refine ⟨_, _, rfl, ⟨rfl, hpeak.symm, ⟨hwlo, hwhi⟩, ?_, Or.inr ⟨rfl, rfl, Or.inl hgt⟩⟩⟩
      rw [RbCtl.InBand]
      dsimp only
      omega
  · next hgt =>
      split
      · next hlt =>
          refine ⟨_, _, rfl, ⟨rfl, hpeak.symm, ⟨hwlo, hwhi⟩, ?_, Or.inr ⟨rfl, rfl, Or.inr hlt⟩⟩⟩
          rw [RbCtl.InBand]
          dsimp only
          omega
      · next hlt =>
          exact ⟨_, _, rfl, ⟨rfl, hpeak.symm, ⟨hlo, hhi⟩,
            ⟨Int.not_lt.mp hgt, Int.not_lt.mp hlt⟩, Or.inl ⟨rfl, rfl⟩⟩⟩

/-- A step of the machine is a tick. -/
theorem rbMachine_step (hfloor : rbFloor ≤ cap) (hcap : cap ≤ 2 ^ 30) {c c' : RbCtl} {e : RbTick}
    (h : c.InRange cap) (hs : (rbMachine cap).step c e = some c') :
    ∃ v, rbStep c e cap = some (v, c') ∧ RbStepped cap c e v c' := by
  obtain ⟨v, c'', hrun, hstepped⟩ := rbStep_spec hfloor hcap h e
  simp only [rbMachine, hrun, Option.map_some] at hs
  obtain rfl := Option.some.inj hs
  exact ⟨v, hrun, hstepped⟩

/-! ### A run of ticks -/

/-- The counter as it was last seen. -/
def lastPkts (pvPkts : UInt32) (es : List RbTick) : UInt32 :=
  es.foldl (fun _ e => e.pkts) pvPkts

theorem rbRates_concat (pvPkts : UInt32) (es : List RbTick) (e : RbTick) :
    rbRates pvPkts (es ++ [e]) = rbRates pvPkts es ++ [rbRate (lastPkts pvPkts es) e] := by
  induction es generalizing pvPkts with
  | nil => rfl
  | cons e' es ih => exact congrArg (rbRate pvPkts e' :: ·) (ih e'.pkts)

/-- What stands of the controller after the ticks `es`. -/
structure RbSeen (cap : ℤ) (start : UInt32) (es : List RbTick) (c : RbCtl) : Prop where
  inRange : c.InRange cap
  pvPkts : c.pvPkts = lastPkts start es
  /-- The peak is not above the largest rate. -/
  le_max : c.peakPps = 0 ∨ ∃ pps ∈ rbRates start es, c.peakPps ≤ pps

/-- A peak that is not above the largest rate is not above it with one more rate. -/
theorem exists_rbPeak_le {rates : List UInt32} {peak : UInt32} (pps : UInt32)
    (h : peak = 0 ∨ ∃ q ∈ rates, peak ≤ q) : ∃ q ∈ rates ++ [pps], rbPeak peak pps ≤ q := by
  have hmem : pps ∈ rates ++ [pps] := List.mem_append_right _ List.mem_cons_self
  rcases UInt32.le_total peak pps with hle | hle
  · exact ⟨pps, hmem, by rw [rbPeak_of_le hle]; exact UInt32.le_refl pps⟩
  · have hdecay := rbPeak_le hle
    rcases h with rfl | ⟨q, hq, hle'⟩
    · have hzero : (0 : UInt32) ≤ pps := UInt32.le_iff_toNat_le.mpr (Nat.zero_le _)
      exact ⟨pps, hmem, UInt32.le_trans hdecay hzero⟩
    · exact ⟨q, List.mem_append_left _ hq, UInt32.le_trans hdecay hle'⟩

/-- **One more tick** bounds the state by the rates seen. -/
theorem RbSeen.stepped {pvPkts : UInt32} {es : List RbTick} {c c' : RbCtl} {e : RbTick} {v : ℤ}
    (h : RbSeen cap pvPkts es c) (hs : RbStepped cap c e v c') :
    RbSeen cap pvPkts (es ++ [e]) c' ∧ RbBounded cap (rbRates pvPkts (es ++ [e])) c' := by
  have hpeak := hs.peakPps
  rw [h.pvPkts] at hpeak
  have hmax := exists_rbPeak_le (rbRate (lastPkts pvPkts es) e) h.le_max
  rw [← hpeak, ← rbRates_concat] at hmax
  refine ⟨⟨hs.inRange, ?_, Or.inr hmax⟩, fun q hq => ?_, hmax, hs.inRange, hs.inBand⟩
  · rw [hs.pvPkts, lastPkts, List.foldl_append]
    rfl
  · rw [rbRates_concat, List.getLast?_concat] at hq
    obtain rfl := Option.some.inj hq
    rw [hpeak]
    exact le_rbPeak _ _

/-- **A run of ticks** overflows nowhere, and its peak is among the rates. -/
theorem exists_run (hfloor : rbFloor ≤ cap) (hcap : cap ≤ 2 ^ 30) (pvPkts : UInt32)
    (es : List RbTick) :
    ∃ c, (rbMachine cap).run (rbStart pvPkts) es = some c ∧ RbSeen cap pvPkts es c ∧
      (es ≠ [] → RbBounded cap (rbRates pvPkts es) c) := by
  induction es using List.reverseRecOn with
  | nil => exact ⟨rbStart pvPkts, rfl, ⟨⟨le_rfl, hfloor⟩, rfl, Or.inl rfl⟩, fun h => absurd rfl h⟩
  | append_singleton es e ih =>
      obtain ⟨c, hrun, hseen, -⟩ := ih
      obtain ⟨v, c', hstep, hstepped⟩ := rbStep_spec hfloor hcap hseen.inRange e
      have hstep' : (rbMachine cap).step c e = some c' := by
        simp only [rbMachine, hstep, Option.map_some]
      obtain ⟨hseen', hbounded⟩ := hseen.stepped hstepped
      exact ⟨c', (Machine.run_concat_eq_some _).mpr ⟨c, hrun, hstep'⟩, hseen', fun _ => hbounded⟩

/-! ### A constant rate -/

/-- What a constant rate leaves behind after its first tick. -/
structure RbSettling (cap : ℤ) (pps : UInt32) (c : RbCtl) : Prop where
  inRange : c.InRange cap
  ge_rate : pps ≤ c.peakPps
  /-- Nothing larger is wanted. -/
  below : rbWant c.peakPps cap ≤ c.req + c.req / 8

/-- **A tick at the same rate** asks for less than before, or for nothing. -/
theorem RbSettling.stepped {pps : UInt32} {c c' : RbCtl} {e : RbTick} {v : ℤ}
    (h : RbSettling cap pps c) (hrate : rbRate c.pvPkts e = pps)
    (hs : RbStepped cap c e v c') : RbSettling cap pps c' ∧ (v ≠ 0 → v < c.req) := by
  have hf : rbFloor = 212992 := rfl
  obtain ⟨hlo, -⟩ := h.inRange
  have hpeak := hs.peakPps
  rw [hrate] at hpeak
  have hless : rbWant c'.peakPps cap ≤ rbWant c.peakPps cap :=
    rbWant_mono (hpeak ▸ rbPeak_le h.ge_rate)
  have hbelow := h.below
  refine ⟨⟨hs.inRange, hpeak ▸ le_rbPeak _ _, hs.inBand.1⟩, fun hv => ?_⟩
  rcases hs.request with ⟨hzero, -⟩ | ⟨hwant, -, hup | hdown⟩
  · exact absurd hzero hv
  · omega
  · omega

/-- The controller after a sequence of ticks. -/
structure RbControls (cap : ℤ) (pvPkts : UInt32) (es : List RbTick) (c : RbCtl) : Prop where
  /-- Nothing has overflown. -/
  run : (rbMachine cap).run (rbStart pvPkts) es = some c
  bounded : es ≠ [] → RbBounded cap (rbRates pvPkts es) c
  /-- What the next tick returns is the request it leaves in force, unless it is zero: then the
  old one stays. -/
  request : ∀ e v c', rbStep c e cap = some (v, c') →
    v = 0 ∧ c'.req = c.req ∨ v ≠ 0 ∧ v = rbWant c'.peakPps cap ∧ c'.req = v
  /-- While the rate is `pps`, every request but the first is smaller than the one before. -/
  settles : ∀ pps first mid e c' v c'',
    (rbMachine cap).Meets (fun c e => rbRate c.pvPkts e = pps) c (first :: mid ++ [e]) →
      (rbMachine cap).run c (first :: mid) = some c' → rbStep c' e cap = some (v, c'') →
        v ≠ 0 → v < c'.req

/-- **The controller is bounded and does not oscillate**, after any sequence of ticks. -/
theorem rbControlled (hfloor : rbFloor ≤ cap) (hcap : cap ≤ 2 ^ 30) (pvPkts : UInt32)
    (es : List RbTick) : ∃ c, RbControls cap pvPkts es c := by
  obtain ⟨c, hrun, ⟨hrange, -, -⟩, hbounded⟩ := exists_run hfloor hcap pvPkts es
  refine ⟨c, hrun, hbounded, fun e v c' hstep => ?_,
    fun pps first mid e c' v c'' hmeets hmid hstep hv => ?_⟩
  · obtain ⟨v', c'', hstep', hstepped⟩ := rbStep_spec hfloor hcap hrange e
    cases hstep.symm.trans hstep'
    refine hstepped.request.imp_right fun ⟨hwant, hreq, _⟩ => ⟨?_, hwant, hreq⟩
    have hpos : 212992 ≤ rbWant c'.peakPps cap := (rbWant_mem c'.peakPps hfloor).1
    omega
  obtain ⟨c₁, hfirst, hrest⟩ := Option.bind_eq_some_iff.mp hmid
  have hrate₁ : rbRate c.pvPkts first = pps := hmeets [] first (mid ++ [e]) c rfl rfl
  obtain ⟨v₁, -, hstepped₁⟩ := rbMachine_step hfloor hcap hrange hfirst
  -- the first tick brings the peak up to the rate
  have h₁ : RbSettling cap pps c₁ :=
    ⟨hstepped₁.inRange, hstepped₁.peakPps ▸ hrate₁ ▸ le_rbPeak _ _, hstepped₁.inBand.1⟩
  have hmeets₁ : (rbMachine cap).Meets (fun c e => rbRate c.pvPkts e = pps) c₁ mid := by
    intro pre f post s hpre hs
    refine hmeets (first :: pre) f (post ++ [e]) s ?_ ?_
    · rw [hpre]
      simp only [List.cons_append, List.append_assoc]
    · rw [Machine.run_cons, hfirst]
      exact hs
  have h' : RbSettling cap pps c' := by
    refine Machine.guarded_induction (fun s f s' hs hrate hsf => ?_) h₁ hmeets₁ hrest
    obtain ⟨w, -, hstepped⟩ := rbMachine_step hfloor hcap hs.inRange hsf
    exact (hs.stepped hrate hstepped).1
  have hrate' : rbRate c'.pvPkts e = pps := hmeets (first :: mid) e [] c' rfl hmid
  obtain ⟨v', c₂, hstep', hstepped'⟩ := rbStep_spec hfloor hcap h'.inRange e
  cases hstep.symm.trans hstep'
  exact (h'.stepped hrate' hstepped').2 hv

/-- The cap of a router that sizes its buffers itself, and a burst. -/
theorem rbControlled_burst :
    ∃ c, RbControls (16 * 1024 * 1024) 0 [⟨1000000, 5⟩, ⟨1000000, 5⟩] c :=
  rbControlled (by decide) (by decide) 0 _

end AwgProxy
