import Mathlib.Data.Nat.Bitwise
import AwgProxy.Lib.Bytes

/-!
# Performance Knobs

The container compares the performance settings with the cores it got: cores the process may
not use are not pinned, the cores that are pinned are taken out of the RPS mask, and on a weak
router all of it is dropped. The mask is a text of hexadecimal digits in a buffer of sixteen
bytes, which is read, and printed anew when a core is taken out.

* `readMaskLoop_eq` — the value of one to eight digits.
* `printMaskLoop_spec` — the digits of a value, without leading zeros.
* `perfFitHw_fits` — what the settings are afterwards, what the flags say about it, and that a
  second call finds nothing to do.
-/

namespace AwgProxy

/-! ### The code -/

/-- The settings of `awg_config_t` that `perf_fit_hw` checks. -/
structure PerfKnobs where
  /-- The core of the c2s thread, negative for none. -/
  cpuC2s : ℤ
  /-- The core of the s2c thread. -/
  cpuS2c : ℤ
  /-- The real-time priority, 0 for none. -/
  rtPrio : ℤ
  /-- `char rps_mask[16]`. -/
  rpsMask : Bytes

/-- `PERF_MIN_CPUS`. -/
abbrev perfMinCpus : ℤ := 4

/-- `PERF_FEW_CPUS`. -/
abbrev perfFewCpus : ℕ := 1

/-- `PERF_NO_C2S_CPU`. -/
abbrev perfNoC2sCpu : ℕ := 2

/-- `PERF_NO_S2C_CPU`. -/
abbrev perfNoS2cCpu : ℕ := 4

/-- `PERF_RPS_TRIMMED`. -/
abbrev perfRpsTrimmed : ℕ := 8

/-- `PERF_RPS_DROPPED`. -/
abbrev perfRpsDropped : ℕ := 16

/-- `PERF_32BIT`. -/
abbrev perf32bit : ℕ := 32

/-- `hw_strong`. -/
def hwStrong (ncpu : ℤ) (wide : Bool) : Bool := wide && ncpu ≥ perfMinCpus

/-- A core that is asked for and cannot be used. -/
def cpuRefused (cpu : ℤ) (allowed : UInt32) : Bool :=
  cpu ≥ 32 || (cpu ≥ 0 && (allowed >>> UInt32.ofInt cpu) &&& 1 == 0)

/-- The value of a digit of the mask. -/
def maskDigit? (c : UInt8) : Option ℕ :=
  if 48 ≤ c ∧ c ≤ 57 then some (c.toNat - 48)
  else if 97 ≤ c ∧ c ≤ 102 then some (c.toNat - 97 + 10)
  else if 65 ≤ c ∧ c ≤ 70 then some (c.toNat - 65 + 10)
  else none

/-- The loop that reads the mask, with `n` digits of value `m` read: the value and the number
of digits, 0 where the text is no mask. -/
def readMaskLoop : Bytes → ℕ → UInt32 → UInt32 × ℕ
  | [], n, m => (m, n)
  | c :: s, n, m =>
      if c = 0 then (m, n)
      else
        match maskDigit? c with
        | none => (m, 0)
        | some d => if n ≥ 8 then (m, 0) else readMaskLoop s (n + 1) (m <<< 4 ||| .ofNat d)

/-- The bit of a pinned core. -/
def cpuBit (cpu : ℤ) : UInt32 := if cpu ≥ 0 then (1 : UInt32) <<< UInt32.ofInt cpu else 0

/-- `hex`. -/
def maskDigits : Bytes := "0123456789abcdef".toList.map fun c => .ofNat c.toNat

/-- The loop that prints the mask, with `j` digits to go. -/
def printMaskLoop (m : UInt32) : ℕ → Bytes → Bytes
  | 0, tmp => tmp
  | j + 1, tmp =>
      let d := (m >>> UInt32.ofNat (4 * j)) &&& 0xF
      if tmp ≠ [] ∨ d ≠ 0 then printMaskLoop m j (tmp ++ [maskDigits.getD d.toNat 0])
      else printMaskLoop m j tmp

/-- The part of `perf_fit_hw` that takes the pinned cores out of the mask. -/
def perfFitRps (cfg : PerfKnobs) (changed : ℕ) : ℕ × PerfKnobs :=
  let (m, n) := readMaskLoop cfg.rpsMask 0 0
  if n > 0 then
    let busy := cpuBit cfg.cpuC2s ||| cpuBit cfg.cpuS2c
    if m &&& busy ≠ 0 then
      let m := m &&& ~~~busy
      if m = 0 then
        (changed ||| perfRpsDropped, { cfg with rpsMask := cfg.rpsMask.patch 0 [0] })
      else
        (changed ||| perfRpsTrimmed,
          { cfg with rpsMask := cfg.rpsMask.patch 0 (printMaskLoop m 8 [] ++ [0]) })
    else (changed, cfg)
  else (changed, cfg)

/-- Every setting is off: `perf_fit_hw` has nothing to check. -/
def PerfKnobs.unset (cfg : PerfKnobs) : Bool :=
  cfg.cpuC2s < 0 && cfg.cpuS2c < 0 && cfg.rtPrio ≤ 0 && cfg.rpsMask.getD 0 0 == 0

/-- `perf_fit_hw`: the flags, and the settings behind it. -/
def perfFitHw (cfg : PerfKnobs) (ncpu : ℤ) (allowed : UInt32) (wide : Bool) : ℕ × PerfKnobs :=
  if cfg.unset then (0, cfg)
  else if !hwStrong ncpu wide then
    (if ncpu < perfMinCpus then perfFewCpus else perf32bit,
      { cpuC2s := -1, cpuS2c := -1, rtPrio := 0, rpsMask := cfg.rpsMask.patch 0 [0] })
  else
    let (changed, cfg) :=
      if cpuRefused cfg.cpuC2s allowed then (0 ||| perfNoC2sCpu, { cfg with cpuC2s := -1 })
      else (0, cfg)
    let (changed, cfg) :=
      if cpuRefused cfg.cpuS2c allowed then (changed ||| perfNoS2cCpu, { cfg with cpuS2c := -1 })
      else (changed, cfg)
    perfFitRps cfg changed

/-! ### What is meant -/

/-- The text in a buffer. -/
def maskText (buf : Bytes) : Bytes := buf.takeWhile (· ≠ 0)

/-- The number that digits denote. -/
def maskValue (ds : List ℕ) : ℕ := ds.foldl (fun v d => 16 * v + d) 0

/-- A mask of one to eight digits, and its value. -/
def IsMask (s : Bytes) (v : ℕ) : Prop :=
  s ≠ [] ∧ s.length ≤ 8 ∧ ∃ ds, s.map maskDigit? = ds.map some ∧ maskValue ds = v

/-- A core one of the threads is pinned to. -/
def PerfKnobs.Pinned (cfg : PerfKnobs) (i : ℕ) : Prop := cfg.cpuC2s = i ∨ cfg.cpuS2c = i

instance (cfg : PerfKnobs) : DecidablePred cfg.Pinned := fun i =>
  inferInstanceAs (Decidable (cfg.cpuC2s = i ∨ cfg.cpuS2c = i))

/-- No thread is pinned or real-time, and there is no mask. -/
structure PerfKnobs.Cleared (cfg : PerfKnobs) : Prop where
  cpuC2s : cfg.cpuC2s < 0
  cpuS2c : cfg.cpuS2c < 0
  rtPrio : cfg.rtPrio ≤ 0
  rpsMask : maskText cfg.rpsMask = []

/-- The flags of what is different on a strong router. -/
def changedFlags (cfg cfg' : PerfKnobs) : ℕ :=
  (if cfg'.cpuC2s ≠ cfg.cpuC2s then perfNoC2sCpu else 0) |||
    (if cfg'.cpuS2c ≠ cfg.cpuS2c then perfNoS2cCpu else 0) |||
      if maskText cfg'.rpsMask = maskText cfg.rpsMask then 0
      else if maskText cfg'.rpsMask = [] then perfRpsDropped else perfRpsTrimmed

/-- Settings that fit the hardware. -/
structure PerfFits (cfg : PerfKnobs) (ncpu : ℤ) (allowed : UInt32) (wide : Bool)
    (r : ℕ × PerfKnobs) : Prop where
  /-- Every pinned core is allowed. -/
  pinned : ∀ cpu, cpu = r.2.cpuC2s ∨ cpu = r.2.cpuS2c → 0 ≤ cpu →
    cpu < 32 ∧ allowed.toNat.testBit cpu.toNat = true
  /-- A mask has lost the pinned cores, and no other. -/
  mask : hwStrong ncpu wide = true → ∀ v, IsMask (maskText cfg.rpsMask) v →
    ∃ v', (maskText r.2.rpsMask = [] ∧ v' = 0 ∨ IsMask (maskText r.2.rpsMask) v') ∧
      ∀ i, v'.testBit i = (v.testBit i && !decide (r.2.Pinned i))
  weak : hwStrong ncpu wide = false → r.2.Cleared
  /-- The flags say what is different. -/
  flags : hwStrong ncpu wide = true →
    r.1 = changedFlags cfg r.2 ∧ r.2.rtPrio = cfg.rtPrio ∧ (r.1 = 0 → r.2 = cfg)
  weakFlags : hwStrong ncpu wide = false → (r.1 = 0 ↔ r.2 = cfg) ∧
    (r.1 ≠ 0 → r.1 = if ncpu < perfMinCpus then perfFewCpus else perf32bit)
  /-- A second call finds nothing to do. -/
  again : perfFitHw r.2 ncpu allowed wide = (0, r.2)

/-! ### Reading a mask -/

/-- The value of a digit. -/
theorem maskDigit?_lt {c : UInt8} {d : ℕ} (h : maskDigit? c = some d) : d < 16 ∧ c ≠ 0 := by
  have hzero : maskDigit? 0 = none := by decide
  refine ⟨?_, fun hc => by rw [hc, hzero] at h; cases h⟩
  rw [maskDigit?] at h
  split_ifs at h with hdigit hlower hupper
  · have hle : c.toNat ≤ 57 := UInt8.le_iff_toNat_le.mp hdigit.2
    obtain rfl := Option.some.inj h
    omega
  · have hle : c.toNat ≤ 102 := UInt8.le_iff_toNat_le.mp hlower.2
    obtain rfl := Option.some.inj h
    omega
  · have hle : c.toNat ≤ 70 := UInt8.le_iff_toNat_le.mp hupper.2
    obtain rfl := Option.some.inj h
    omega

/-- A digit that is read is appended to the value. -/
theorem toNat_shift_or {m : UInt32} {d : ℕ} (hm : m.toNat < 2 ^ 28) (hd : d < 16) :
    (m <<< 4 ||| .ofNat d).toNat = 16 * m.toNat + d := by
  have hd' : (UInt32.ofNat d).toNat = d := UInt32.toNat_ofNat_of_lt' (hd.trans (by decide))
  have hshift : (m <<< 4).toNat = m.toNat * 2 ^ 4 := by
    rw [UInt32.toNat_shiftLeft, Nat.shiftLeft_eq]
    simp only [UInt32.reduceToNat, Nat.reduceMod]
    omega
  rw [UInt32.toNat_or, hshift, hd', ← Nat.shiftLeft_eq, ← Nat.shiftLeft_add_eq_or_of_lt hd,
    Nat.shiftLeft_eq]
  omega

/-- **Reading**: the value of one to eight digits, behind `n` of value `m`. -/
theorem readMaskLoop_eq {s : Bytes} {ds : List ℕ} (hs : s.map maskDigit? = ds.map some)
    (rest : Bytes) {n : ℕ} {m : UInt32} (hn : n + s.length ≤ 8) (hm : m.toNat < 16 ^ n) :
    ∃ m', readMaskLoop (s ++ 0 :: rest) n m = (m', n + s.length) ∧
      m'.toNat = ds.foldl (fun v d => 16 * v + d) m.toNat := by
  induction s generalizing ds n m with
  | nil =>
      obtain rfl : ds = [] := List.map_eq_nil_iff.mp hs.symm
      exact ⟨m, rfl, rfl⟩
  | cons c s ih =>
      obtain ⟨d, ds, rfl⟩ : ∃ d ds', ds = d :: ds' := by
        cases ds with
        | nil => cases hs
        | cons d ds => exact ⟨d, ds, rfl⟩
      obtain ⟨hc, hs⟩ := List.cons.inj hs
      obtain ⟨hd, hc0⟩ := maskDigit?_lt hc
      rw [List.length_cons] at hn
      have hpow : 16 ^ n ≤ 2 ^ 28 := by
        rw [show (2 : ℕ) ^ 28 = 16 ^ 7 from rfl]
        exact Nat.pow_le_pow_right (by decide) (by omega)
      have hval := toNat_shift_or (hm.trans_le hpow) hd
      have hlt : (m <<< 4 ||| UInt32.ofNat d).toNat < 16 ^ (n + 1) := by
        rw [hval, Nat.pow_succ]
        omega
      obtain ⟨m', hrun, hm'⟩ := ih hs (n := n + 1) (by omega) hlt
      refine ⟨m', ?_, ?_⟩
      · rw [List.cons_append, readMaskLoop, if_neg hc0, hc]
        dsimp only
        rw [if_neg (by omega), hrun, List.length_cons]
        exact congrArg (m', ·) (by omega)
      · rw [hm', hval, List.foldl_cons]

/-! ### Printing a mask -/

/-- The character of a digit. -/
def maskChar (d : ℕ) : UInt8 := maskDigits.getD d 0

theorem maskDigit?_maskChar : ∀ d < 16, maskDigit? (maskChar d) = some d := by decide

/-- The digit of a value at a place. -/
theorem toNat_nibble (m : UInt32) {j : ℕ} (hj : j < 8) :
    ((m >>> UInt32.ofNat (4 * j)) &&& 0xF).toNat = m.toNat / 16 ^ j % 16 := by
  have hsh : (UInt32.ofNat (4 * j)).toNat = 4 * j :=
    UInt32.toNat_ofNat_of_lt' (by simp only [UInt32.size]; omega)
  have hpow : 2 ^ (4 * j) = 16 ^ j := by rw [Nat.pow_mul]
  rw [UInt32.toNat_and, UInt32.toNat_shiftRight, hsh, Nat.mod_eq_of_lt (by omega),
    Nat.shiftRight_eq_div_pow, hpow]
  exact Nat.and_two_pow_sub_one_eq_mod _ 4

/-- What is printed of `m` with `j` digits to go. -/
structure Printed (m j : ℕ) (ds : List ℕ) : Prop where
  lt : ∀ d ∈ ds, d < 16
  value : maskValue ds = m / 16 ^ j
  nil_iff : ds = [] ↔ m / 16 ^ j = 0
  length : ds.length + j ≤ 8

/-- **Printing**: the digits of the value, the first of which is not zero. -/
theorem printMaskLoop_spec (m : UInt32) {j : ℕ} {ds : List ℕ} (h : Printed m.toNat j ds) :
    ∃ ds', printMaskLoop m j (ds.map maskChar) = ds'.map maskChar ∧ Printed m.toNat 0 ds' := by
  induction j generalizing ds with
  | zero => exact ⟨ds, rfl, h⟩
  | succ j ih =>
      have hlen := h.length
      have hd := toNat_nibble m (j := j) (by omega)
      generalize hdig : (m >>> UInt32.ofNat (4 * j)) &&& 0xF = d at hd
      have hlt : d.toNat < 16 := hd ▸ Nat.mod_lt _ (by decide)
      have hstep : m.toNat / 16 ^ j = 16 * (m.toNat / 16 ^ (j + 1)) + d.toNat := by
        rw [hd, Nat.pow_succ, ← Nat.div_div_eq_div_mul]
        omega
      have hzero : d ≠ 0 ↔ d.toNat ≠ 0 :=
        not_congr ⟨fun h0 => h0 ▸ rfl, fun h0 => UInt32.toNat_inj.mp h0⟩
      rw [printMaskLoop, hdig]
      split
      · next hprint =>
          have happ : ds.map maskChar ++ [maskDigits.getD d.toNat 0] =
              (ds ++ [d.toNat]).map maskChar := by
            rw [List.map_append]
            rfl
          have hpos : m.toNat / 16 ^ j ≠ 0 := by
            rcases hprint with hne | hne
            · have hhigh := mt h.nil_iff.mpr (fun hnil => hne (List.map_eq_nil_iff.mpr hnil))
              omega
            · have := hzero.mp hne
              omega
          rw [happ]
          refine ih ⟨fun x hx => ?_, ?_, ?_, ?_⟩
          · rcases List.mem_append.mp hx with hx | hx
            · exact h.lt x hx
            · exact List.mem_singleton.mp hx ▸ hlt
          · rw [maskValue, List.foldl_append, ← maskValue, h.value, hstep]
            rfl
          · exact iff_of_false (List.append_ne_nil_of_right_ne_nil ds nofun) hpos
          · rw [List.length_append, List.length_singleton]
            omega
      · next hprint =>
          obtain ⟨hnil, hd0⟩ := not_or.mp hprint
          have hnil' : ds = [] := List.map_eq_nil_iff.mp (not_not.mp hnil)
          have hhigh := h.nil_iff.mp hnil'
          have hlow : d.toNat = 0 := not_not.mp (mt hzero.mpr hd0)
          have hall : m.toNat / 16 ^ j = 0 := by omega
          refine ih ⟨h.lt, ?_, iff_of_true hnil' hall, by omega⟩
          rw [h.value, hhigh, hall]

/-- The mask printed of a value that is not zero. -/
theorem exists_printMask {m : UInt32} (hm : m ≠ 0) :
    ∃ ds, printMaskLoop m 8 [] = ds.map maskChar ∧ (∀ d ∈ ds, d < 16) ∧
      maskValue ds = m.toNat ∧ ds ≠ [] ∧ ds.length ≤ 8 := by
  have hlt := m.toNat_lt
  have hstart : Printed m.toNat 8 [] := by
    have hzero : m.toNat / 16 ^ 8 = 0 := Nat.div_eq_of_lt hlt
    exact ⟨nofun, hzero.symm, iff_of_true rfl hzero, le_rfl⟩
  obtain ⟨ds, hprint, hprinted⟩ := printMaskLoop_spec m hstart
  have hvalue := hprinted.value
  have hnil := hprinted.nil_iff
  rw [Nat.pow_zero, Nat.div_one] at hvalue hnil
  exact ⟨ds, hprint, hprinted.lt, hvalue,
    fun h => hm (UInt32.toNat_inj.mp (hnil.mp h)), hprinted.length⟩

/-- Printed digits are a mask. -/
theorem isMask_map_maskChar {ds : List ℕ} (hlt : ∀ d ∈ ds, d < 16) (hne : ds ≠ [])
    (hlen : ds.length ≤ 8) : IsMask (ds.map maskChar) (maskValue ds) := by
  refine ⟨fun h => hne (List.map_eq_nil_iff.mp h), by rwa [List.length_map], ds, ?_, rfl⟩
  rw [List.map_map]
  exact List.map_congr_left fun d hd => maskDigit?_maskChar d (hlt d hd)

/-! ### The cores -/

/-- A core that is not refused is none, or one of the allowed. -/
theorem cpuRefused_eq_false_iff {cpu : ℤ} {allowed : UInt32} :
    cpuRefused cpu allowed = false ↔
      (0 ≤ cpu → cpu < 32 ∧ allowed.toNat.testBit cpu.toNat = true) := by
  have hbit : 0 ≤ cpu → cpu < 32 →
      (((allowed >>> UInt32.ofInt cpu) &&& 1 == 0) = false ↔
        allowed.toNat.testBit cpu.toNat = true) := by
    intro h0 h32
    have hcpu : (UInt32.ofInt cpu).toNat = cpu.toNat := by
      rw [UInt32.ofInt, UInt32.toNat_ofNat']
      omega
    have hval : ((allowed >>> UInt32.ofInt cpu) &&& 1).toNat =
        allowed.toNat / 2 ^ cpu.toNat % 2 := by
      rw [UInt32.toNat_and, UInt32.toNat_shiftRight, hcpu, Nat.mod_eq_of_lt (by omega),
        Nat.shiftRight_eq_div_pow]
      exact Nat.and_one_is_mod _
    rw [Nat.testBit_eq_decide_div_mod_eq, decide_eq_true_iff, beq_eq_false_iff_ne, ne_eq,
      ← UInt32.toNat_inj, hval, UInt32.toNat_zero]
    omega
  simp only [cpuRefused, Bool.or_eq_false_iff, Bool.and_eq_false_iff, decide_eq_false_iff_not]
  constructor
  · rintro ⟨h32, hneg | hand⟩ h0
    · exact absurd h0 hneg
    · exact ⟨by omega, (hbit h0 (by omega)).mp hand⟩
  · intro h
    by_cases h0 : 0 ≤ cpu
    · obtain ⟨h32, hand⟩ := h h0
      exact ⟨by omega, Or.inr ((hbit h0 h32).mpr hand)⟩
    · exact ⟨by omega, Or.inl h0⟩

/-- The bit of a core that can be used. -/
theorem testBit_cpuBit {cpu : ℤ} (h : 0 ≤ cpu → cpu < 32) (i : ℕ) :
    (cpuBit cpu).toNat.testBit i = decide (cpu = i) := by
  rw [cpuBit]
  by_cases h0 : 0 ≤ cpu
  · have hcpu : (UInt32.ofInt cpu).toNat = cpu.toNat := by
      rw [UInt32.ofInt, UInt32.toNat_ofNat']
      omega
    have hlt : cpu.toNat < 32 := by have := h h0; omega
    have hpow : 2 ^ cpu.toNat < 2 ^ 32 := Nat.pow_lt_pow_right (by decide) hlt
    have hval : ((1 : UInt32) <<< UInt32.ofInt cpu).toNat = 2 ^ cpu.toNat := by
      rw [UInt32.toNat_shiftLeft, hcpu, Nat.mod_eq_of_lt hlt, Nat.shiftLeft_eq, UInt32.toNat_one,
        Nat.one_mul, Nat.mod_eq_of_lt hpow]
    rw [if_pos h0, hval, Nat.testBit_two_pow]
    exact decide_eq_decide.mpr (by omega)
  · rw [if_neg h0, UInt32.toNat_zero, Nat.zero_testBit]
    exact (decide_eq_false (by omega)).symm

/-- Taking the bits of `b` out of `m`. -/
theorem testBit_and_not (m b : UInt32) (i : ℕ) :
    (m &&& ~~~b).toNat.testBit i = (m.toNat.testBit i && !b.toNat.testBit i) := by
  have hbits : (m &&& ~~~b).toBitVec.getLsbD i =
      (m.toBitVec.getLsbD i && !b.toBitVec.getLsbD i) := by
    rw [UInt32.toBitVec_and, UInt32.toBitVec_not, BitVec.getLsbD_and, BitVec.getLsbD_not]
    by_cases hi : i < 32
    · rw [decide_eq_true hi, Bool.true_and]
    · rw [BitVec.getLsbD_of_ge m.toBitVec i (Nat.le_of_not_lt hi), Bool.false_and, Bool.false_and]
  exact hbits

/-! ### The buffer -/

/-- A text that is shorter than its buffer ends in a zero. -/
theorem exists_eq_maskText {buf : Bytes} (h : (maskText buf).length < buf.length) :
    ∃ rest, buf = maskText buf ++ 0 :: rest := by
  rw [maskText] at h ⊢
  induction buf with
  | nil => cases h
  | cons c buf ih =>
      by_cases hc : c = 0
      · subst hc
        exact ⟨buf, rfl⟩
      · rw [List.takeWhile_cons_of_pos (by simpa using hc)] at h ⊢
        obtain ⟨rest, hrest⟩ := ih (Nat.lt_of_succ_lt_succ h)
        exact ⟨rest, congrArg (c :: ·) hrest⟩

/-- A text copied to the start of the buffer, with its zero, is the text in it. -/
theorem maskText_patch {s : Bytes} (hs : ∀ c ∈ s, c ≠ 0) (buf : Bytes) :
    maskText (buf.patch 0 (s ++ [0])) = s := by
  rw [maskText, Bytes.patch, List.take_zero, List.nil_append, List.append_assoc,
    List.takeWhile_append_of_pos (by simpa using hs)]
  exact List.append_nil s

/-- The value read from a buffer that holds a mask. -/
theorem readMask_of_isMask {buf : Bytes} {v : ℕ} (hlen : buf.length = 16)
    (h : IsMask (maskText buf) v) :
    ∃ m, readMaskLoop buf 0 0 = (m, (maskText buf).length) ∧ m.toNat = v := by
  obtain ⟨-, hle, ds, hds, rfl⟩ := h
  obtain ⟨rest, hbuf⟩ := exists_eq_maskText (Nat.lt_of_le_of_lt hle (by omega))
  obtain ⟨m, hrun, hm⟩ := readMaskLoop_eq hds rest (n := 0) (m := 0) (by omega) (by decide)
  rw [← hbuf, Nat.zero_add] at hrun
  exact ⟨m, hrun, hm⟩

/-- Nothing is read from a buffer that holds no text. -/
theorem readMask_of_nil {buf : Bytes} (h : maskText buf = []) : (readMaskLoop buf 0 0).2 = 0 := by
  cases buf with
  | nil => rfl
  | cons c buf =>
      by_cases hc : c = 0
      · rw [readMaskLoop, if_pos hc]
      · rw [maskText, List.takeWhile_cons_of_pos (by simpa using hc)] at h
        cases h

/-- There is no text exactly when the buffer starts with a zero. -/
theorem maskText_eq_nil_iff {buf : Bytes} : maskText buf = [] ↔ buf.getD 0 0 = 0 := by
  cases buf with
  | nil => exact iff_of_true rfl rfl
  | cons c buf =>
      rw [List.getD_cons_zero]
      by_cases hc : c = 0
      · exact iff_of_true (by rw [hc]; rfl) hc
      · rw [maskText, List.takeWhile_cons_of_pos (by simpa using hc)]
        exact iff_of_false nofun hc

/-! ### The mask -/

/-- The cores are none, or those a mask has a bit for. -/
structure PerfKnobs.CoresFit (cfg : PerfKnobs) : Prop where
  c2s : 0 ≤ cfg.cpuC2s → cfg.cpuC2s < 32
  s2c : 0 ≤ cfg.cpuS2c → cfg.cpuS2c < 32

/-- The bits of the pinned cores. -/
def PerfKnobs.busy (cfg : PerfKnobs) : UInt32 := cpuBit cfg.cpuC2s ||| cpuBit cfg.cpuS2c

theorem PerfKnobs.CoresFit.testBit_busy {cfg : PerfKnobs} (h : cfg.CoresFit) (i : ℕ) :
    cfg.busy.toNat.testBit i = decide (cfg.Pinned i) := by
  rw [PerfKnobs.busy, UInt32.toNat_or, Nat.testBit_or, testBit_cpuBit h.c2s, testBit_cpuBit h.s2c,
    ← Bool.decide_or]
  rfl

/-- What becomes of the mask. -/
structure RpsFits (cfg : PerfKnobs) (r : ℕ × PerfKnobs) (changed : ℕ) : Prop where
  same : r.2 = { cfg with rpsMask := r.2.rpsMask }
  length : r.2.rpsMask.length = 16
  mask : ∀ v, IsMask (maskText cfg.rpsMask) v →
    ∃ v', (maskText r.2.rpsMask = [] ∧ v' = 0 ∨ IsMask (maskText r.2.rpsMask) v') ∧
      ∀ i, v'.testBit i = (v.testBit i && !decide (cfg.Pinned i))
  flags : r.1 = changed ||| if maskText r.2.rpsMask = maskText cfg.rpsMask then 0
    else if maskText r.2.rpsMask = [] then perfRpsDropped else perfRpsTrimmed
  eq_of_text : maskText r.2.rpsMask = maskText cfg.rpsMask → r.2 = cfg
  again : perfFitRps r.2 0 = (0, r.2)

/-- A mask without pinned cores is left alone. -/
theorem perfFitRps_of_and {cfg : PerfKnobs} {m : UInt32} {n : ℕ}
    (hread : readMaskLoop cfg.rpsMask 0 0 = (m, n)) (h : n = 0 ∨ m &&& cfg.busy = 0)
    (changed : ℕ) : perfFitRps cfg changed = (changed, cfg) := by
  rw [perfFitRps, hread]
  dsimp only
  split
  · next hn =>
      refine if_neg (not_not.mpr (h.resolve_left ?_))
      omega
  · rfl

/-- What was read from a mask: its value, where it is one. -/
structure MaskRead (cfg : PerfKnobs) (m : UInt32) (n : ℕ) : Prop where
  read : readMaskLoop cfg.rpsMask 0 0 = (m, n)
  value : ∀ v, IsMask (maskText cfg.rpsMask) v → m.toNat = v ∧ n ≠ 0

theorem exists_maskRead {cfg : PerfKnobs} (hlen : cfg.rpsMask.length = 16) :
    ∃ m n, MaskRead cfg m n := by
  obtain ⟨m, n, hread⟩ : ∃ m n, readMaskLoop cfg.rpsMask 0 0 = (m, n) := ⟨_, _, rfl⟩
  refine ⟨m, n, hread, fun v hv => ?_⟩
  obtain ⟨m', hread', hm⟩ := readMask_of_isMask hlen hv
  obtain ⟨rfl, rfl⟩ := Prod.mk.inj (hread.symm.trans hread')
  exact ⟨hm, fun hnil => hv.1 (List.eq_nil_of_length_eq_zero hnil)⟩

theorem and_not_and (m busy : UInt32) : m &&& ~~~busy &&& busy = 0 := by
  rw [UInt32.and_assoc, UInt32.not_and_self, UInt32.and_zero]

/-- The bits that are left. -/
theorem PerfKnobs.CoresFit.testBit_and_not {cfg : PerfKnobs} (h : cfg.CoresFit) (m : UInt32)
    (i : ℕ) : (m &&& ~~~cfg.busy).toNat.testBit i =
      (m.toNat.testBit i && !decide (cfg.Pinned i)) := by
  rw [AwgProxy.testBit_and_not m cfg.busy, h.testBit_busy]

/-- The bits of a mask without pinned cores. -/
theorem PerfKnobs.CoresFit.testBit_of_and {cfg : PerfKnobs} (h : cfg.CoresFit) {m : UInt32}
    (hand : m &&& cfg.busy = 0) (i : ℕ) :
    m.toNat.testBit i = (m.toNat.testBit i && !decide (cfg.Pinned i)) := by
  have hzero := congrArg (fun x : UInt32 => x.toNat.testBit i) hand
  simp only [UInt32.toNat_and, Nat.testBit_and, h.testBit_busy, UInt32.toNat_zero,
    Nat.zero_testBit] at hzero
  cases hm : m.toNat.testBit i with
  | false => rfl
  | true =>
      rw [hm, Bool.true_and] at hzero
      rw [hzero]
      rfl

namespace MaskRead

variable {cfg : PerfKnobs} {m : UInt32} {n : ℕ}

/-- A mask without pinned cores. -/
theorem kept (hr : MaskRead cfg m n) (hlen : cfg.rpsMask.length = 16) (h : cfg.CoresFit)
    (hkeep : n = 0 ∨ m &&& cfg.busy = 0) (changed : ℕ) :
    RpsFits cfg (perfFitRps cfg changed) changed := by
  rw [perfFitRps_of_and hr.read hkeep]
  refine ⟨rfl, hlen, fun v hv => ⟨v, Or.inr hv, fun i => ?_⟩, ?_, fun _ => rfl,
    perfFitRps_of_and hr.read hkeep 0⟩
  · obtain ⟨rfl, hn⟩ := hr.value v hv
    exact h.testBit_of_and (hkeep.resolve_left hn) i
  · rw [if_pos rfl]
    exact (Nat.or_zero changed).symm

/-- A mask of pinned cores. -/
theorem dropped (hr : MaskRead cfg m n) (hlen : cfg.rpsMask.length = 16) (h : cfg.CoresFit)
    (hn : n ≠ 0) (hand : m &&& cfg.busy ≠ 0) (hall : m &&& ~~~cfg.busy = 0) (changed : ℕ) :
    RpsFits cfg (perfFitRps cfg changed) changed := by
  have hrun : perfFitRps cfg changed =
      (changed ||| perfRpsDropped, { cfg with rpsMask := cfg.rpsMask.patch 0 [0] }) := by
    rw [perfFitRps, hr.read]
    exact (if_pos (Nat.pos_of_ne_zero hn)).trans ((if_pos hand).trans (if_pos hall))
  have htext : maskText cfg.rpsMask ≠ [] := fun hnil => by
    have := readMask_of_nil hnil
    rw [hr.read] at this
    exact hn this
  have hlen' : (cfg.rpsMask.patch 0 [0]).length = 16 :=
    (Bytes.length_patch (by rw [List.length_singleton]; omega)).trans hlen
  have hnil : maskText (cfg.rpsMask.patch 0 [0]) = [] := maskText_patch (s := []) nofun _
  rw [hrun]
  refine ⟨rfl, hlen', fun v hv => ⟨0, Or.inl ⟨hnil, rfl⟩, fun i => ?_⟩, ?_,
    fun heq => absurd (heq.symm.trans hnil) htext, perfFitRps_of_and rfl (Or.inl ?_) 0⟩
  · obtain ⟨rfl, -⟩ := hr.value v hv
    rw [← h.testBit_and_not m i, hall]
    rfl
  · rw [if_neg fun heq => htext (heq.symm.trans hnil), if_pos hnil]
  · exact readMask_of_nil hnil

/-- A mask of which some cores are left, printed anew. -/
theorem trimmed (hr : MaskRead cfg m n) (hlen : cfg.rpsMask.length = 16) (h : cfg.CoresFit)
    (hn : n ≠ 0) (hand : m &&& cfg.busy ≠ 0) (hall : m &&& ~~~cfg.busy ≠ 0) (changed : ℕ) :
    RpsFits cfg (perfFitRps cfg changed) changed := by
  obtain ⟨ds, hprint, hlt, hval, hne, hds⟩ := exists_printMask hall
  have hrun : perfFitRps cfg changed = (changed ||| perfRpsTrimmed,
      { cfg with rpsMask := cfg.rpsMask.patch 0 (ds.map maskChar ++ [0]) }) := by
    rw [perfFitRps, hr.read, ← hprint]
    exact (if_pos (Nat.pos_of_ne_zero hn)).trans ((if_pos hand).trans (if_neg hall))
  have hmask := isMask_map_maskChar hlt hne hds
  rw [hval] at hmask
  have hchars : ∀ c ∈ ds.map maskChar, c ≠ 0 := by
    intro c hc
    obtain ⟨d, hd, rfl⟩ := List.mem_map.mp hc
    exact (maskDigit?_lt (maskDigit?_maskChar d (hlt d hd))).2
  have htext : maskText (cfg.rpsMask.patch 0 (ds.map maskChar ++ [0])) = ds.map maskChar :=
    maskText_patch hchars _
  have hlen' : (cfg.rpsMask.patch 0 (ds.map maskChar ++ [0])).length = 16 := by
    refine (Bytes.length_patch ?_).trans hlen
    rw [List.length_append, List.length_map, List.length_singleton]
    omega
  generalize cfg.rpsMask.patch 0 (ds.map maskChar ++ [0]) = buf at hrun htext hlen'
  rw [← htext] at hmask
  -- the text is another one, as its value is
  have hother : maskText buf ≠ maskText cfg.rpsMask := by
    intro heq
    rw [heq] at hmask
    have hsame := UInt32.toNat_inj.mp (hr.value _ hmask).1
    refine hand ?_
    rw [hsame, and_not_and]
  obtain ⟨m', hread', hm'⟩ := readMask_of_isMask hlen' hmask
  rw [hrun]
  refine ⟨rfl, hlen', fun v hv => ⟨_, Or.inr hmask, fun i => ?_⟩, ?_,
    fun heq => absurd heq hother, perfFitRps_of_and hread' (Or.inr ?_) 0⟩
  · obtain ⟨rfl, -⟩ := hr.value v hv
    exact h.testBit_and_not m i
  · rw [if_neg hother, if_neg hmask.1]
  · rw [UInt32.toNat_inj.mp hm']
    exact and_not_and m cfg.busy

end MaskRead

/-- **The mask** loses the pinned cores. -/
theorem perfFitRps_fits {cfg : PerfKnobs} (hlen : cfg.rpsMask.length = 16) (h : cfg.CoresFit)
    (changed : ℕ) : RpsFits cfg (perfFitRps cfg changed) changed := by
  obtain ⟨m, n, hr⟩ := exists_maskRead hlen
  by_cases hkeep : n = 0 ∨ m &&& cfg.busy = 0
  · exact hr.kept hlen h hkeep changed
  obtain ⟨hn, hand⟩ := not_or.mp hkeep
  by_cases hall : m &&& ~~~cfg.busy = 0
  · exact hr.dropped hlen h hn hand hall changed
  · exact hr.trimmed hlen h hn hand hall changed

/-! ### The pins -/

/-- What becomes of a pin. -/
def fitCpu (cpu : ℤ) (allowed : UInt32) : ℤ := if cpuRefused cpu allowed then -1 else cpu

theorem cpuRefused_none (allowed : UInt32) : cpuRefused (-1) allowed = false :=
  cpuRefused_eq_false_iff.mpr fun h => absurd h (by decide)

theorem cpuRefused_fitCpu (cpu : ℤ) (allowed : UInt32) :
    cpuRefused (fitCpu cpu allowed) allowed = false := by
  rw [fitCpu]
  split
  · exact cpuRefused_none allowed
  · next h => exact Bool.eq_false_iff.mpr h

/-- A core that is refused is not none already. -/
theorem fitCpu_ne_iff {cpu : ℤ} {allowed : UInt32} :
    fitCpu cpu allowed ≠ cpu ↔ cpuRefused cpu allowed = true := by
  rw [fitCpu]
  split
  · next h =>
      refine iff_of_true (fun heq => ?_) h
      rw [← heq, cpuRefused_none] at h
      cases h
  · next h => exact iff_of_false (fun hne => hne rfl) h

/-- The settings with the pins that are left. -/
def PerfKnobs.fitPins (cfg : PerfKnobs) (allowed : UInt32) : PerfKnobs :=
  { cfg with cpuC2s := fitCpu cfg.cpuC2s allowed, cpuS2c := fitCpu cfg.cpuS2c allowed }

/-- The flags of the pins. -/
def pinFlags (cfg cfg' : PerfKnobs) : ℕ :=
  (if cfg'.cpuC2s ≠ cfg.cpuC2s then perfNoC2sCpu else 0) |||
    if cfg'.cpuS2c ≠ cfg.cpuS2c then perfNoS2cCpu else 0

/-- A strong router, pins first and then the mask. -/
theorem perfFitHw_of_strong {cfg : PerfKnobs} {ncpu : ℤ} {wide : Bool} (hset : cfg.unset = false)
    (hstrong : hwStrong ncpu wide = true) (allowed : UInt32) :
    perfFitHw cfg ncpu allowed wide =
      perfFitRps (cfg.fitPins allowed) (pinFlags cfg (cfg.fitPins allowed)) := by
  rw [perfFitHw, if_neg (by rw [hset]; nofun), if_neg (by rw [hstrong]; nofun), pinFlags,
    PerfKnobs.fitPins]
  simp only [fitCpu_ne_iff]
  by_cases hc : cpuRefused cfg.cpuC2s allowed = true <;>
    by_cases hs : cpuRefused cfg.cpuS2c allowed = true <;>
      simp only [fitCpu, hc, hs, if_true, Bool.false_eq_true, if_false, Nat.zero_or, Nat.or_zero]

/-- Pins that were not refused stay. -/
theorem PerfKnobs.fitPins_eq {cfg : PerfKnobs} {allowed : UInt32}
    (hc : cpuRefused cfg.cpuC2s allowed = false) (hs : cpuRefused cfg.cpuS2c allowed = false) :
    cfg.fitPins allowed = cfg := by
  rw [PerfKnobs.fitPins, fitCpu, fitCpu, hc, hs]
  rfl

/-! ### The settings -/

/-- Nothing is set exactly when everything is off. -/
theorem PerfKnobs.unset_iff {cfg : PerfKnobs} : cfg.unset = true ↔ cfg.Cleared := by
  simp only [PerfKnobs.unset, Bool.and_eq_true, decide_eq_true_iff, beq_iff_eq,
    ← maskText_eq_nil_iff]
  exact ⟨fun ⟨⟨⟨hc, hs⟩, hr⟩, hm⟩ => ⟨hc, hs, hr, hm⟩,
    fun ⟨hc, hs, hr, hm⟩ => ⟨⟨⟨hc, hs⟩, hr⟩, hm⟩⟩

theorem perfFitHw_of_cleared {cfg : PerfKnobs} (h : cfg.Cleared) (ncpu : ℤ) (allowed : UInt32)
    (wide : Bool) : perfFitHw cfg ncpu allowed wide = (0, cfg) :=
  if_pos (PerfKnobs.unset_iff.mpr h)

/-- Nothing is done where nothing is set. -/
theorem perfFits_of_cleared {cfg : PerfKnobs} (h : cfg.Cleared) (ncpu : ℤ) (allowed : UInt32)
    (wide : Bool) : PerfFits cfg ncpu allowed wide (0, cfg) where
  pinned cpu hcpu h0 := by
    have := h.cpuC2s
    have := h.cpuS2c
    exact absurd h0 (by rcases hcpu with rfl | rfl <;> exact Int.not_le.mpr ‹_›)
  mask _ v hv := absurd h.rpsMask hv.1
  weak _ := h
  flags _ := by
    refine ⟨?_, rfl, fun _ => rfl⟩
    simp only [changedFlags, ne_eq, not_true_eq_false, if_false, if_true]
    rfl
  weakFlags _ := ⟨iff_of_true rfl rfl, fun hne => absurd rfl hne⟩
  again := perfFitHw_of_cleared h ncpu allowed wide

/-- Everything is dropped on a weak router. -/
theorem perfFits_of_weak {cfg : PerfKnobs} {ncpu : ℤ} {wide : Bool} (hset : cfg.unset = false)
    (hweak : hwStrong ncpu wide = false) (allowed : UInt32) :
    PerfFits cfg ncpu allowed wide (perfFitHw cfg ncpu allowed wide) := by
  have hrun : perfFitHw cfg ncpu allowed wide =
      (if ncpu < perfMinCpus then perfFewCpus else perf32bit,
        { cpuC2s := -1, cpuS2c := -1, rtPrio := 0, rpsMask := cfg.rpsMask.patch 0 [0] }) := by
    rw [perfFitHw, if_neg (by rw [hset]; nofun), if_pos (by rw [hweak]; rfl)]
  have hcleared : (perfFitHw cfg ncpu allowed wide).2.Cleared := by
    rw [hrun]
    exact ⟨Int.negSucc_lt_zero 0, Int.negSucc_lt_zero 0, le_rfl, maskText_patch (s := []) nofun _⟩
  have hflag : (perfFitHw cfg ncpu allowed wide).1 =
      if ncpu < perfMinCpus then perfFewCpus else perf32bit := by rw [hrun]
  have hne : (perfFitHw cfg ncpu allowed wide).1 ≠ 0 := by
    rw [hflag]
    split <;> exact Nat.succ_ne_zero _
  have hchanged : (perfFitHw cfg ncpu allowed wide).2 ≠ cfg := by
    intro heq
    rw [heq] at hcleared
    rw [PerfKnobs.unset_iff.mpr hcleared] at hset
    cases hset
  have hstrong : hwStrong ncpu wide ≠ true := Bool.eq_false_iff.mp hweak
  exact
    { pinned := fun cpu hcpu h0 => by
        have := hcleared.cpuC2s
        have := hcleared.cpuS2c
        exact absurd h0 (by rcases hcpu with rfl | rfl <;> exact Int.not_le.mpr ‹_›)
      mask := fun h => absurd h hstrong
      weak := fun _ => hcleared
      flags := fun h => absurd h hstrong
      weakFlags := fun _ => ⟨iff_of_false hne hchanged, fun _ => hflag⟩
      again := perfFitHw_of_cleared hcleared ncpu allowed wide }

/-- Without a flag neither the pins nor the mask are different. -/
theorem eq_of_changedFlags_eq_zero {cfg cfg' : PerfKnobs} (h : changedFlags cfg cfg' = 0) :
    cfg'.cpuC2s = cfg.cpuC2s ∧ cfg'.cpuS2c = cfg.cpuS2c ∧
      maskText cfg'.rpsMask = maskText cfg.rpsMask := by
  rw [changedFlags] at h
  obtain ⟨hpins, hmask⟩ := Nat.or_eq_zero_iff.mp h
  obtain ⟨hc2s, hs2c⟩ := Nat.or_eq_zero_iff.mp hpins
  refine ⟨?_, ?_, ?_⟩
  · by_contra hne
    rw [if_pos hne] at hc2s
    cases hc2s
  · by_contra hne
    rw [if_pos hne] at hs2c
    cases hs2c
  · by_contra hne
    rw [if_neg hne] at hmask
    split at hmask <;> cases hmask

/-- A strong router keeps what is allowed. -/
theorem perfFits_of_strong {cfg : PerfKnobs} (hlen : cfg.rpsMask.length = 16) {ncpu : ℤ}
    {wide : Bool} (hset : cfg.unset = false) (hstrong : hwStrong ncpu wide = true)
    (allowed : UInt32) : PerfFits cfg ncpu allowed wide (perfFitHw cfg ncpu allowed wide) := by
  have hc := cpuRefused_fitCpu cfg.cpuC2s allowed
  have hs := cpuRefused_fitCpu cfg.cpuS2c allowed
  have hcores : (cfg.fitPins allowed).CoresFit :=
    ⟨fun h0 => (cpuRefused_eq_false_iff.mp hc h0).1, fun h0 => (cpuRefused_eq_false_iff.mp hs h0).1⟩
  have hbuf : (cfg.fitPins allowed).rpsMask.length = 16 := hlen
  have hfits := perfFitRps_fits hbuf hcores (pinFlags cfg (cfg.fitPins allowed))
  rw [← perfFitHw_of_strong hset hstrong] at hfits
  generalize perfFitHw cfg ncpu allowed wide = r at hfits ⊢
  obtain ⟨n, cfg'⟩ := r
  have hsame : cfg' = { cfg.fitPins allowed with rpsMask := cfg'.rpsMask } := hfits.same
  have hcpu : cfg'.cpuC2s = fitCpu cfg.cpuC2s allowed := congrArg PerfKnobs.cpuC2s hsame
  have hcpu' : cfg'.cpuS2c = fitCpu cfg.cpuS2c allowed := congrArg PerfKnobs.cpuS2c hsame
  have hprio : cfg'.rtPrio = cfg.rtPrio := (congrArg PerfKnobs.rtPrio hsame :)
  rw [← hcpu] at hc
  rw [← hcpu'] at hs
  have hpinned : ∀ i, cfg'.Pinned i ↔ (cfg.fitPins allowed).Pinned i := by
    intro i
    rw [PerfKnobs.Pinned, hcpu, hcpu']
    rfl
  have hflags : n = changedFlags cfg cfg' := by
    rw [changedFlags, hcpu, hcpu']
    exact hfits.flags
  refine ⟨?_, ?_, fun h => absurd hstrong (Bool.eq_false_iff.mp h), fun _ => ⟨hflags, hprio, ?_⟩,
    fun h => absurd hstrong (Bool.eq_false_iff.mp h), ?_⟩
  · rintro cpu (rfl | rfl) h0
    · exact cpuRefused_eq_false_iff.mp hc h0
    · exact cpuRefused_eq_false_iff.mp hs h0
  · intro _ v hv
    obtain ⟨v', hv', hbits⟩ := hfits.mask v hv
    refine ⟨v', hv', fun i => ?_⟩
    rw [hbits i, decide_eq_decide.mpr (hpinned i)]
  · intro hzero
    obtain ⟨hkeepc, hkeeps, htext⟩ := eq_of_changedFlags_eq_zero (hflags.symm.trans hzero)
    rw [hkeepc] at hc
    rw [hkeeps] at hs
    exact (hfits.eq_of_text htext).trans (PerfKnobs.fitPins_eq hc hs)
  · by_cases hunset : cfg'.unset = true
    · exact if_pos hunset
    · rw [perfFitHw_of_strong (Bool.eq_false_iff.mpr hunset) hstrong, PerfKnobs.fitPins_eq hc hs]
      have hnone : pinFlags cfg' cfg' = 0 := by
        rw [pinFlags, if_neg (not_not.mpr rfl), if_neg (not_not.mpr rfl)]
        rfl
      rw [hnone]
      exact hfits.again

/-- **The settings fit**, whatever was asked for: the pinned cores are allowed and not in the
mask, the flags say what is different, and there is nothing left to do. -/
theorem perfFitHw_fits {cfg : PerfKnobs} (hlen : cfg.rpsMask.length = 16) (ncpu : ℤ)
    (allowed : UInt32) (wide : Bool) :
    PerfFits cfg ncpu allowed wide (perfFitHw cfg ncpu allowed wide) := by
  by_cases hunset : cfg.unset = true
  · have hcleared := PerfKnobs.unset_iff.mp hunset
    rw [perfFitHw_of_cleared hcleared]
    exact perfFits_of_cleared hcleared ncpu allowed wide
  · have hset : cfg.unset = false := Bool.eq_false_iff.mpr hunset
    by_cases hstrong : hwStrong ncpu wide = true
    · exact perfFits_of_strong hlen hset hstrong allowed
    · exact perfFits_of_weak hset (Bool.eq_false_iff.mpr hstrong) allowed

/-- Mask `0f`, cores 1 and 9 of four: core 9 is dropped, and core 1 leaves the mask `d`. -/
def knobsExample : PerfKnobs :=
  { cpuC2s := 1, cpuS2c := 9, rtPrio := 10, rpsMask := 48 :: 102 :: List.replicate 14 0 }

theorem perfFitHw_fits_example :
    PerfFits knobsExample 4 15 true (perfFitHw knobsExample 4 15 true) ∧
      maskText (perfFitHw knobsExample 4 15 true).2.rpsMask = [100] :=
  ⟨perfFitHw_fits rfl 4 15 true, rfl⟩

end AwgProxy
