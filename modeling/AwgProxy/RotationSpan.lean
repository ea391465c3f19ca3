import AwgProxy.Lib.Wrap
import AwgProxy.RotationDue

/-!
# The Spans of a Rotation

The timer and the volume a port serves are spans, `30m-2h` and `800-1200`: read with their
units, turned into ticks, drawn from and compared with the clock. All of it is arithmetic on
32-bit words, and what keeps it from wrapping is that the reader stops at a ninth digit.

* `rotParseSpan_bounds` — what is read is in order, and leaves room for the rounding.
* `drawSafe_of_le` — a draw stays in its span.
* `rotIsDue_reset` — when a fresh schedule falls due.
* `rotationSafe` — all of it, for every setting that is accepted.
-/

namespace AwgProxy

/-! ### The code -/

/-- `ROT_IDLE_S`. -/
abbrev rotIdleS : UInt32 := 30

/-- `ROT_FORCE_S`. -/
abbrev rotForceS : UInt32 := 900

/-- `ROT_RETRY_TICKS`. -/
abbrev rotRetryTicks : UInt32 := 60

/-- The loop of `span_num`. -/
def spanNumLoop (v : UInt64) : List Char → UInt64 × List Char
  | [] => (v, [])
  | c :: s =>
      if c.isDigit ∧ v ≤ 100000000 then
        spanNumLoop (v * 10 + .ofNat (c.toNat - '0'.toNat)) s
      else (v, c :: s)

/-- The unit behind the digits of a time. -/
def spanTimeUnit (v : UInt64) : List Char → UInt64 × List Char
  | 'h' :: s => (v * 3600, s)
  | 'm' :: s => (v * 60, s)
  | 's' :: s => (v, s)
  | s => (v, s)

/-- The unit behind the digits of a volume. -/
def spanVolumeUnit (v : UInt64) (s : List Char) : UInt64 × List Char :=
  let (v, s) :=
    match s with
    | 'G' :: s => (v * 1024, s)
    | 'g' :: s => (v * 1024, s)
    | 'M' :: s => (v, s)
    | 'm' :: s => (v, s)
    | s => (v, s)
  match s with
  | 'B' :: s => (v, s)
  | 'b' :: s => (v, s)
  | s => (v, s)

/-- The unit behind the digits. -/
def spanUnit (time : Bool) (v : UInt64) (s : List Char) : UInt64 × List Char :=
  if time then spanTimeUnit v s else spanVolumeUnit v s

/-- `span_num`. -/
def spanNum (time : Bool) (s : List Char) : Option (UInt32 × List Char) :=
  let (v, e) := spanNumLoop 0 s
  if e.length = s.length then none
  else
    let (v, e) := spanUnit time v e
    if v = 0 ∨ 0xFFFFFFFF < v then none else some (v.toUInt32, e)

/-- The second number of a span, the first one where there is no dash. -/
def spanEnd (time : Bool) (lo : UInt32) : List Char → Option (UInt32 × List Char)
  | '-' :: e => spanNum time e
  | e => some (lo, e)

/-- `rot_parse_span`, `none` where it leaves a span of zeros. -/
def rotParseSpan (time : Bool) (s : List Char) : Option (UInt32 × UInt32) := do
  let (lo, e) ← spanNum time s
  let (hi, e) ← spanEnd time lo e
  if e ≠ [] ∨ hi < lo then none else some (lo, hi)

/-- `rot_cfg_t`, with the wait for a lull. -/
structure FullRotCfg extends RotCfg where
  idle : UInt32

/-- `rot_cfg_make`. -/
def rotCfgMake (tLoS tHiS mbLo mbHi : UInt32) : FullRotCfg :=
  let c : FullRotCfg := ⟨⟨0, 0, mbLo, mbHi, rotRetryTicks, 0⟩, 0⟩
  let (c, idleS, forceS) :=
    if tLoS ≠ 0 then
      let c := { c with tLo := (tLoS + 4) / 5, tHi := (tHiS + 4) / 5 }
      let idleS := if tLoS < rotIdleS then tLoS else rotIdleS
      let forceS := if tLoS < rotForceS then tLoS else rotForceS
      ({ c with retry := if c.tLo < c.retry then c.tLo else c.retry }, idleS, forceS)
    else (c, rotIdleS, rotForceS)
  { c with idle := (idleS + 4) / 5, force := (forceS + 4) / 5 }

/-! ### What is safe -/

/-- A draw from a span: the division is by no zero, and nothing wraps. -/
structure DrawSafe (lo hi : UInt32) : Prop where
  /-- The divisor of `rot_draw`. -/
  nonzero : hi.toUInt64 - lo.toUInt64 + 1 ≠ 0
  /-- The number drawn, without a wrap. -/
  value : ∀ rng, (rotDraw lo hi rng).1.toNat =
    lo.toNat + (fastrandU64 rng).toNat % (hi.toNat - lo.toNat + 1)
  /-- It is in the span. -/
  mem : ∀ rng, lo ≤ (rotDraw lo hi rng).1 ∧ (rotDraw lo hi rng).1 ≤ hi

/-- The ticks `rot_sched_reset` draws, and the generator behind them. -/
def timerDraw (c : RotCfg) (rng : UInt64) : UInt32 × UInt64 :=
  if c.tLo ≠ 0 then rotDraw c.tLo c.tHi rng else (0, rng)

/-- The megabytes `rot_sched_reset` draws. -/
def volumeDraw (c : RotCfg) (rng : UInt64) : UInt32 × UInt64 :=
  if c.mbLo ≠ 0 then rotDraw c.mbLo c.mbHi (timerDraw c rng).2 else (0, (timerDraw c rng).2)

/-- A fresh schedule falls due when the timer drawn has run or the volume drawn is carried, and
at no other tick of the half turn that follows. -/
def DueOnTime (c : RotCfg) : Prop :=
  ∀ (now k : UInt32) (rng bytes : UInt64), k.toNat < 2 ^ 31 →
    (rotIsDue c { (rotSchedReset c now rng).1 with bytes := bytes } (now + k) = true ↔
      (c.tLo ≠ 0 ∧ (timerDraw c rng).1 ≤ k) ∨
        (c.mbLo ≠ 0 ∧ (volumeDraw c rng).1.toNat * 2 ^ 20 ≤ bytes.toNat))

/-- What the arithmetic of the rotation keeps to, for a timer of `t` seconds and a volume of `mb`
megabytes. -/
structure RotationSafe (t mb : UInt32 × UInt32) (c : FullRotCfg) : Prop where
  /-- The timer in ticks of five seconds, rounded up. -/
  timer : c.tLo.toNat = (t.1.toNat + 4) / 5 ∧ c.tHi.toNat = (t.2.toNat + 4) / 5
  /-- The volume. -/
  volume : c.mbLo = mb.1 ∧ c.mbHi = mb.2
  /-- A timer that is set is a span of less than half a turn. -/
  span : t.1 ≠ 0 → 1 ≤ c.tLo ∧ c.tLo ≤ c.tHi ∧ c.tHi.toNat < 2 ^ 31
  /-- Every wait is a tick at least. -/
  waits : 1 ≤ c.idle ∧ 1 ≤ c.force ∧ 1 ≤ c.retry
  /-- The waits, none longer than the timer. -/
  waits_eq : c.idle.toNat = ((if t.1 = 0 then 30 else min t.1.toNat 30) + 4) / 5 ∧
    c.force.toNat = ((if t.1 = 0 then 900 else min t.1.toNat 900) + 4) / 5 ∧
    c.retry.toNat = if t.1 = 0 then 60 else min c.tLo.toNat 60
  /-- The ticks are drawn from their span. -/
  draw : c.tLo ≠ 0 → DrawSafe c.tLo c.tHi
  /-- So are the megabytes. -/
  drawVolume : c.mbLo ≠ 0 → DrawSafe c.mbLo c.mbHi
  /-- The port falls due when it should. -/
  due : DueOnTime c.toRotCfg

/-- A setting: a text, or nothing. -/
def spanOf (time : Bool) : Option (List Char) → Option (UInt32 × UInt32)
  | none => some (0, 0)
  | some s => rotParseSpan time s

/-! ### What is read -/

/-- A product that fits does not wrap. -/
theorem toNat_mul_of_lt {v u : UInt64} {n : ℕ} (hu : u.toNat = n) (h : v.toNat * n < 2 ^ 64) :
    (v * u).toNat = v.toNat * n := by
  rw [UInt64.toNat_mul, hu, Nat.mod_eq_of_lt h]

/-- A digit behind a number that is read. -/
theorem toNat_push {v : UInt64} {d : ℕ} (hv : v.toNat ≤ 100000000) (hd : d ≤ 9) :
    (v * 10 + .ofNat d).toNat = v.toNat * 10 + d := by
  have hten : (v * 10).toNat = v.toNat * 10 := toNat_mul_of_lt rfl (by omega)
  rw [UInt64.toNat_add, hten, UInt64.toNat_ofNat', Nat.mod_eq_of_lt (by omega : d < 2 ^ 64),
    Nat.mod_eq_of_lt (by omega)]

/-- The reader stops once another digit might be too much. -/
theorem spanNumLoop_le (s : List Char) {v : UInt64} (hv : v.toNat ≤ 1000000009) :
    (spanNumLoop v s).1.toNat ≤ 1000000009 := by
  induction s generalizing v with
  | nil => exact hv
  | cons c s ih =>
      rw [spanNumLoop]
      split
      · next h =>
          have hdigit : 48 ≤ c.toNat ∧ c.toNat ≤ 57 := Char.isDigit_iff_toNat.mp h.1
          have hzero : '0'.toNat = 48 := rfl
          have hle : v.toNat ≤ 100000000 := UInt64.le_iff_toNat_le.mp h.2
          refine ih ?_
          rw [toNat_push hle (by omega)]
          omega
      · exact hv

/-- A unit of time scales a number that is read without a wrap. -/
theorem spanTimeUnit_cases {v : UInt64} (hv : v.toNat ≤ 1000000009) (s : List Char) :
    (spanTimeUnit v s).1.toNat = v.toNat ∨ (spanTimeUnit v s).1.toNat = v.toNat * 60 ∨
      (spanTimeUnit v s).1.toNat = v.toNat * 3600 := by
  unfold spanTimeUnit
  split
  · exact Or.inr (Or.inr (toNat_mul_of_lt rfl (by omega)))
  · exact Or.inr (Or.inl (toNat_mul_of_lt rfl (by omega)))
  · exact Or.inl rfl
  · exact Or.inl rfl

/-- A number that is read is not zero. A time leaves room for the rounding to ticks. -/
theorem spanNum_bounds {time : Bool} {s e : List Char} {v : UInt32}
    (h : spanNum time s = some (v, e)) :
    1 ≤ v.toNat ∧ (time = true → v.toNat ≤ 4294967280) := by
  have hzero : (0 : UInt64).toNat ≤ 1000000009 := Nat.zero_le _
  have hloop := spanNumLoop_le s hzero
  simp only [spanNum] at h
  split at h
  · cases h
  · split at h
    · cases h
    · next hrange =>
        obtain ⟨rfl, -⟩ := Prod.mk.inj (Option.some.inj h)
        rw [not_or, UInt64.not_lt, UInt64.le_iff_toNat_le] at hrange
        obtain ⟨hne, hle⟩ := hrange
        have hmax : (0xFFFFFFFF : UInt64).toNat = 4294967295 := rfl
        have hpos := Nat.pos_of_ne_zero fun hz => hne (UInt64.toNat_inj.mp hz)
        rw [UInt64.toNat_toUInt32, Nat.mod_eq_of_lt (by omega)]
        refine ⟨hpos, fun htime => ?_⟩
        rw [spanUnit, if_pos htime] at hle ⊢
        have hunit := spanTimeUnit_cases hloop (spanNumLoop 0 s).2
        omega

/-- **What is read is a span of numbers in order, none of them zero. A time leaves room for the
rounding to ticks.** -/
theorem rotParseSpan_bounds {time : Bool} {s : List Char} {lo hi : UInt32}
    (h : rotParseSpan time s = some (lo, hi)) :
    1 ≤ lo.toNat ∧ lo.toNat ≤ hi.toNat ∧ (time = true → hi.toNat ≤ 4294967280) := by
  simp only [rotParseSpan, Option.bind_eq_bind, Option.bind_eq_some_iff, Prod.exists,
    Option.ite_none_left_eq_some, Option.some.injEq, Prod.mk.injEq] at h
  obtain ⟨lo, e, hlo, hi, e', hhi, hend, rfl, rfl⟩ := h
  have hlo := spanNum_bounds hlo
  have hle : lo.toNat ≤ hi.toNat := by
    rw [not_or, UInt32.not_lt] at hend
    exact UInt32.le_iff_toNat_le.mp hend.2
  refine ⟨hlo.1, hle, fun htime => ?_⟩
  unfold spanEnd at hhi
  split at hhi
  · exact (spanNum_bounds hhi).2 htime
  · obtain ⟨rfl, -⟩ := Prod.mk.inj (Option.some.inj hhi)
    exact hlo.2 htime

/-! ### Ticks -/

/-- Rounding up to ticks. -/
theorem toNat_ticks {t : UInt32} (ht : t.toNat ≤ 4294967280) :
    ((t + 4) / 5).toNat = (t.toNat + 4) / 5 := by
  rw [UInt32.toNat_div, UInt32.toNat_add]
  have hfour : (4 : UInt32).toNat = 4 := rfl
  have hfive : (5 : UInt32).toNat = 5 := rfl
  rw [hfour, hfive, Nat.mod_eq_of_lt (by omega)]

/-- The smaller one of two. -/
theorem toNat_min (a b : UInt32) : (if a < b then a else b).toNat = min a.toNat b.toNat := by
  split
  · next h => exact (min_eq_left (UInt32.lt_iff_toNat_lt.mp h).le).symm
  · next h => exact (min_eq_right (UInt32.le_iff_toNat_le.mp (UInt32.not_lt.mp h))).symm

/-! ### The draw -/

/-- **A draw from a span stays in it.** -/
theorem drawSafe_of_le {lo hi : UInt32} (h : lo.toNat ≤ hi.toNat) : DrawSafe lo hi := by
  have hhi := hi.toNat_lt
  have hdiv : (hi.toUInt64 - lo.toUInt64 + 1).toNat = hi.toNat - lo.toNat + 1 := by
    have hone : (1 : UInt64).toNat = 1 := rfl
    rw [UInt64.toNat_add, UInt64.toNat_sub, UInt32.toNat_toUInt64, UInt32.toNat_toUInt64, hone]
    omega
  have hval : ∀ rng, (rotDraw lo hi rng).1.toNat =
      lo.toNat + (fastrandU64 rng).toNat % (hi.toNat - lo.toNat + 1) := by
    intro rng
    have hlt : (fastrandU64 rng).toNat % (hi.toNat - lo.toNat + 1) < hi.toNat - lo.toNat + 1 :=
      Nat.mod_lt _ (Nat.succ_pos _)
    rw [rotDraw, UInt32.toNat_add, UInt64.toNat_toUInt32, UInt64.toNat_mod, hdiv]
    omega
  refine ⟨fun hz => ?_, hval, fun rng => ?_⟩
  · rw [hz] at hdiv
    cases hdiv
  · have hlt : (fastrandU64 rng).toNat % (hi.toNat - lo.toNat + 1) < hi.toNat - lo.toNat + 1 :=
      Nat.mod_lt _ (Nat.succ_pos _)
    have hrng := hval rng
    exact ⟨UInt32.le_iff_toNat_le.mpr (by omega), UInt32.le_iff_toNat_le.mpr (by omega)⟩

/-! ### The schedule -/

/-- The schedule of a fresh port. -/
theorem rotSchedReset_eq (c : RotCfg) (now : UInt32) (rng : UInt64) :
    (rotSchedReset c now rng).1 =
      ⟨if c.tLo ≠ 0 then now + (timerDraw c rng).1 else 0, now, 0,
        (volumeDraw c rng).1.toUInt64 <<< 20⟩ := by
  by_cases ht : c.tLo = 0
  · by_cases hmb : c.mbLo = 0
    · simp [rotSchedReset, timerDraw, volumeDraw, ht, hmb]
    · simp [rotSchedReset, timerDraw, volumeDraw, ht, hmb]
  · by_cases hmb : c.mbLo = 0
    · simp [rotSchedReset, timerDraw, volumeDraw, ht, hmb]
    · simp [rotSchedReset, timerDraw, volumeDraw, ht, hmb]

/-- Megabytes in bytes. -/
theorem toNat_megabytes (mb : UInt32) : (mb.toUInt64 <<< 20).toNat = mb.toNat * 2 ^ 20 := by
  have hmb := mb.toNat_lt
  have htwenty : (20 : UInt64).toNat % 64 = 20 := rfl
  rw [UInt64.toNat_shiftLeft, htwenty, UInt32.toNat_toUInt64, Nat.shiftLeft_eq,
    Nat.mod_eq_of_lt (by omega)]

/-- **A fresh schedule falls due on time.** -/
theorem dueOnTime {c : RotCfg} (ht : c.tLo ≠ 0 → DrawSafe c.tLo c.tHi ∧ c.tHi.toNat < 2 ^ 31)
    (hmb : c.mbLo ≠ 0 → DrawSafe c.mbLo c.mbHi ∧ 1 ≤ c.mbLo) : DueOnTime c := by
  intro now k rng bytes hk
  have htimer : c.tLo ≠ 0 → (0 ≤ (now + k - (now + (timerDraw c rng).1)).toInt32 ↔
      (timerDraw c rng).1 ≤ k) := by
    intro hset
    obtain ⟨hsafe, hlt⟩ := ht hset
    refine Wrap.nonneg_sub_iff now hk ?_
    rw [timerDraw, if_pos hset]
    have hle := UInt32.le_iff_toNat_le.mp (hsafe.mem rng).2
    omega
  have hvolume : (volumeDraw c rng).1.toUInt64 <<< 20 ≠ 0 ↔ c.mbLo ≠ 0 := by
    rw [ne_eq, ← UInt64.toNat_inj, toNat_megabytes]
    constructor
    · intro hne hz
      simp [volumeDraw, hz] at hne
    · intro hset hz
      obtain ⟨hsafe, hpos⟩ := hmb hset
      rw [volumeDraw, if_pos hset] at hz
      have hle := UInt32.le_iff_toNat_le.mp (hsafe.mem (timerDraw c rng).2).1
      have hpos := UInt32.le_iff_toNat_le.mp hpos
      have hone : (1 : UInt32).toNat = 1 := rfl
      have hzero : (0 : UInt64).toNat = 0 := rfl
      omega
  rw [rotSchedReset_eq, rotIsDue, if_neg (Wrap.not_neg_sub now hk)]
  simp only [Bool.or_eq_true, Bool.and_eq_true, bne_iff_ne, decide_eq_true_eq]
  rw [hvolume, UInt64.le_iff_toNat_le, toNat_megabytes]
  refine or_congr (and_congr_right fun hset => ?_) Iff.rfl
  rw [if_pos hset]
  exact htimer hset

/-! ### A setting that is accepted -/

/-- Without a timer the waits are the stock ones. -/
theorem rotCfgMake_zero (tHiS mbLo mbHi : UInt32) :
    rotCfgMake 0 tHiS mbLo mbHi =
      ⟨⟨0, 0, mbLo, mbHi, rotRetryTicks, (rotForceS + 4) / 5⟩, (rotIdleS + 4) / 5⟩ := by
  rw [rotCfgMake, if_neg (not_not.mpr rfl)]

/-- A timer shortens the waits that are longer. -/
theorem rotCfgMake_of_ne {tLoS : UInt32} (h : tLoS ≠ 0) (tHiS mbLo mbHi : UInt32) :
    rotCfgMake tLoS tHiS mbLo mbHi =
      ⟨⟨(tLoS + 4) / 5, (tHiS + 4) / 5, mbLo, mbHi,
        if (tLoS + 4) / 5 < rotRetryTicks then (tLoS + 4) / 5 else rotRetryTicks,
        ((if tLoS < rotForceS then tLoS else rotForceS) + 4) / 5⟩,
        ((if tLoS < rotIdleS then tLoS else rotIdleS) + 4) / 5⟩ := by
  rw [rotCfgMake, if_pos h]

/-- A setting is a span of numbers in order, or none. -/
theorem spanOf_bounds {time : Bool} {s : Option (List Char)} {t : UInt32 × UInt32}
    (h : spanOf time s = some t) :
    (t.1 = 0 → t.2 = 0) ∧ t.1.toNat ≤ t.2.toNat ∧ (time = true → t.2.toNat ≤ 4294967280) := by
  cases s with
  | none =>
      obtain rfl := Option.some.inj h
      exact ⟨fun _ => rfl, le_rfl, fun _ => Nat.zero_le _⟩
  | some s =>
      obtain ⟨hpos, hle, hmax⟩ := rotParseSpan_bounds h
      refine ⟨fun hz => ?_, hle, hmax⟩
      rw [hz] at hpos
      cases hpos

/-- The draws of a configuration whose spans are in order, and when its port falls due. -/
theorem dueOnTime_of_le {c : RotCfg} (ht : c.tLo.toNat ≤ c.tHi.toNat)
    (hlt : c.tHi.toNat < 2 ^ 31) (hmb : c.mbLo.toNat ≤ c.mbHi.toNat) : DueOnTime c := by
  refine dueOnTime (fun _ => ⟨drawSafe_of_le ht, hlt⟩) fun hset => ⟨drawSafe_of_le hmb, ?_⟩
  refine UInt32.le_iff_toNat_le.mpr (Nat.one_le_iff_ne_zero.mpr fun hz => hset ?_)
  exact UInt32.toNat_inj.mp hz

/-- **The arithmetic of the rotation is safe for every setting that is accepted.** -/
theorem rotationSafe {timer volume : Option (List Char)} {t mb : UInt32 × UInt32}
    (ht : spanOf true timer = some t) (hmb : spanOf false volume = some mb) :
    RotationSafe t mb (rotCfgMake t.1 t.2 mb.1 mb.2) := by
  obtain ⟨hzero, hle, hmax⟩ := spanOf_bounds ht
  obtain ⟨-, hlev, -⟩ := spanOf_bounds hmb
  have hmax := hmax rfl
  obtain ⟨lo, hi⟩ := t
  obtain ⟨mbLo, mbHi⟩ := mb
  simp only at hzero hle hlev hmax
  have hone : (1 : UInt32).toNat = 1 := rfl
  by_cases hset : lo = 0
  · obtain rfl := hset
    obtain rfl := hzero rfl
    simp only [rotCfgMake_zero]
    exact {
      timer := ⟨rfl, rfl⟩
      volume := ⟨rfl, rfl⟩
      span := fun h => absurd rfl h
      waits := by
        dsimp only
        decide
      waits_eq := by
        dsimp only
        decide
      draw := fun h => absurd rfl h
      drawVolume := fun _ => drawSafe_of_le hlev
      due := dueOnTime_of_le (Nat.le_refl 0) (Nat.two_pow_pos 31) hlev }
  · have hpos : 1 ≤ lo.toNat := Nat.one_le_iff_ne_zero.mpr fun hz => hset (UInt32.toNat_inj.mp hz)
    have htLo := toNat_ticks (hle.trans hmax)
    have htHi := toNat_ticks hmax
    have hidle : (((if lo < rotIdleS then lo else rotIdleS) + 4) / 5).toNat =
        (min lo.toNat 30 + 4) / 5 := by
      rw [toNat_ticks, toNat_min]
      · rfl
      · rw [toNat_min]
        omega
    have hforce : (((if lo < rotForceS then lo else rotForceS) + 4) / 5).toNat =
        (min lo.toNat 900 + 4) / 5 := by
      rw [toNat_ticks, toNat_min]
      · rfl
      · rw [toNat_min]
        omega
    have hretry : (if (lo + 4) / 5 < rotRetryTicks then (lo + 4) / 5 else rotRetryTicks).toNat =
        min ((lo.toNat + 4) / 5) 60 := by
      rw [toNat_min, htLo]
      rfl
    have hticks : ((lo + 4) / 5).toNat ≤ ((hi + 4) / 5).toNat := by omega
    have hhalf : ((hi + 4) / 5).toNat < 2 ^ 31 := by omega
    simp only [rotCfgMake_of_ne hset]
    exact {
      timer := ⟨htLo, htHi⟩
      volume := ⟨rfl, rfl⟩
      span := fun _ => by
        dsimp only
        rw [UInt32.le_iff_toNat_le, UInt32.le_iff_toNat_le]
        omega
      waits := by
        dsimp only
        rw [UInt32.le_iff_toNat_le, UInt32.le_iff_toNat_le, UInt32.le_iff_toNat_le, hidle, hforce,
          hretry]
        omega
      waits_eq := by
        rw [if_neg hset, if_neg hset, if_neg hset, htLo]
        exact ⟨hidle, hforce, hretry⟩
      draw := fun _ => drawSafe_of_le hticks
      drawVolume := fun _ => drawSafe_of_le hlev
      due := dueOnTime_of_le hticks hhalf hlev }

/-- `AWG_PORT_ROTATE=30m-2h` and `AWG_PORT_ROTATE_MB=1G`. -/
theorem rotationSafe_halfHour :
    RotationSafe (1800, 7200) (1024, 1024) (rotCfgMake 1800 7200 1024 1024) :=
  have ht : spanOf true (some ['3', '0', 'm', '-', '2', 'h']) = some (1800, 7200) := by decide
  have hmb : spanOf false (some ['1', 'G']) = some (1024, 1024) := by decide
  rotationSafe ht hmb

end AwgProxy
