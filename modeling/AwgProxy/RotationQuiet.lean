import AwgProxy.Lib.Bytes
import AwgProxy.Lib.Machine
import AwgProxy.RotationSpan
import AwgProxy.S2cLoop
import Mathlib.Algebra.Order.BigOperators.Group.List

/-!
# A Quiet Move

A port that is due moves when the tunnel is quiet. Both directions count their bytes tick by
tick and remember the last tick that carried more than `ROT_QUIET_BYTES`; the c2s thread, at
the head of a batch, compares the two stamps with the clock and looks for a packet the server
answers.

* `SeenInv.note` — the stamp stands for the whole history of a direction.
* `rotTry_eq_some_false_iff` — when the port moves without the soft flag.
* `quietMoves_iff` — every such move is justified, as long as no init moves the port before
  the client has sent anything: the stamp of its last transport starts as tick zero.
-/

namespace AwgProxy

/-! ### The code -/

/-- `ROT_QUIET_BYTES`. -/
abbrev rotQuietBytes : ℕ := 65536

/-- `ROT_WARM_TICKS`. -/
abbrev rotWarmTicks : ℕ := 6

/-- `rot_seen_t`: what one direction has seen. -/
structure RotSeen where
  /-- The last tick that carried more than `ROT_QUIET_BYTES`. -/
  busy : UInt32
  /-- c2s: the last tick the client sent any transport. -/
  client : UInt32
  /-- The tick `bytes` belongs to. -/
  cntTick : UInt32
  /-- Carried so far in that tick. -/
  bytes : UInt32

/-- `rot_seen_note`: a batch is counted against the current tick; whether the tick has just
turned busy. -/
def rotSeenNote (v : RotSeen) (t bytes : UInt32) : RotSeen × Bool :=
  let v := if t ≠ v.cntTick then { v with cntTick := t, bytes := 0 } else v
  if v.busy = t then (v, false)
  else
    let v := { v with bytes := v.bytes + bytes }
    if .ofNat rotQuietBytes < v.bytes then ({ v with busy := t }, true) else (v, false)

/-- The bits `ROT_PKT_USER` and `ROT_PKT_INIT`. -/
structure RotWhat where
  user : Bool
  init : Bool

/-- `rot_window`. -/
def rotWindow (c : FullRotCfg) (now busy client : UInt32) (what : RotWhat) : Bool :=
  if now - busy ≤ c.idle then false
  else if what.user then true
  else what.init && decide (now - client ≤ .ofNat rotWarmTicks)

/-- The first word of a packet. -/
def pktHdr (d : Bytes) : UInt32 := .ofNat (d.slice 0 4).leNat

/-- Somebody's packet: transport data that is no keepalive. -/
def UserPkt (d : Bytes) : Prop := pktHdr d = wgTransportData ∧ wgTransportMin < d.length

/-- A handshake init. -/
def InitPkt (d : Bytes) : Prop := 4 ≤ d.length ∧ pktHdr d = wgHandshakeInit

instance : DecidablePred UserPkt := fun d =>
  inferInstanceAs (Decidable (pktHdr d = wgTransportData ∧ wgTransportMin < d.length))

/-- The loop of `rot_try` over the batch. -/
def rotWhat (what : RotWhat) : List Bytes → RotWhat
  | [] => what
  | d :: ds =>
      if what.user ∧ what.init then what
      else if d.length < 4 then rotWhat what ds
      else if UserPkt d then rotWhat { what with user := true } ds
      else if pktHdr d = wgHandshakeInit then rotWhat { what with init := true } ds
      else rotWhat what ds

/-- `rot_try` at tick `now`, with the stamp the s2c thread published. `force` is a move under
load that is wanted, `moves` what `rot_move` returns. The soft flag of the move, or `none`
where the port stays. -/
def rotTry (c : FullRotCfg) (now : UInt32) (v : RotSeen) (s2cBusy : UInt32) (force : Bool)
    (pkts : List Bytes) (moves : Bool) : Option Bool :=
  let busy := if 0 < (s2cBusy - v.busy).toInt32 then s2cBusy else v.busy
  let soft := decide (now - busy ≤ c.idle)
  if soft ∧ !force then none
  else
    let busy := if soft then now - c.idle - 1 else busy
    if !rotWindow c now busy v.client (rotWhat ⟨false, false⟩ pkts) || !moves then none
    else some soft

/-- The bytes of a batch, as both threads add them up. -/
def batchBytes (lens : List ℕ) : UInt32 := lens.foldl (fun b n => b + .ofNat n) 0

/-- What the c2s thread counts of a batch: its transport packets, with their paddings. -/
def transportLens (s4 : ℕ) (pkts : List Bytes) : List ℕ :=
  (pkts.filter fun d => wgTransportMin ≤ d.length ∧ pktHdr d = wgTransportData).map
    fun d => s4 + d.length

/-! ### The runs -/

/-- A move of the port, with the record of the run as it stood then. -/
structure QuietMove where
  /-- The soft flag. -/
  soft : Bool
  /-- The tick. -/
  now : ℕ
  /-- The batch that triggers it. -/
  pkts : List Bytes
  /-- The bytes counted in each tick, from the client. -/
  sent : ℕ → ℕ
  /-- The bytes counted in each tick, from the server. -/
  got : ℕ → ℕ
  /-- The tick of the client's last transport. -/
  spoke : Option ℕ

/-- The stamps of the two threads, and the record of the run. -/
structure QuietRun where
  /-- `tick`. -/
  tick : UInt32
  /-- `rot_seen` of the c2s thread. -/
  c2s : RotSeen
  /-- `rot_seen` of the s2c thread. -/
  s2c : RotSeen
  /-- `s2c_busy_tick`. -/
  s2cBusyTick : UInt32
  /-- The ticks that have passed. -/
  ticks : ℕ
  /-- The bytes counted in each tick, from the client. -/
  sent : ℕ → ℕ
  /-- The bytes counted in each tick, from the server. -/
  got : ℕ → ℕ
  /-- The tick of the client's last transport. -/
  spoke : Option ℕ
  /-- The moves, oldest first. -/
  moves : List QuietMove

/-- Every stamp is zero at start. -/
def QuietRun.start : QuietRun :=
  ⟨0, ⟨0, 0, 0, 0⟩, ⟨0, 0, 0, 0⟩, 0, 0, fun _ => 0, fun _ => 0, none, []⟩

/-- What happens to the stamps. -/
inductive QuietEvent
  /-- The main loop counts a tick. -/
  | tick
  /-- A batch of the client; `due`: the port is due and no move is under way. -/
  | c2s (pkts : List Bytes) (due force moves : Bool)
  /-- A batch of the server, by the lengths that are queued for the client. -/
  | s2c (lens : List ℕ)

/-- The head of a c2s batch, where a due port moves. -/
def QuietRun.try (c : FullRotCfg) (s : QuietRun) (pkts : List Bytes) (due force moves : Bool) :
    QuietRun :=
  if due then
    match rotTry c s.tick s.c2s s.s2cBusyTick force pkts moves with
    | none => s
    | some soft =>
        { s with moves := s.moves ++ [⟨soft, s.ticks, pkts, s.sent, s.got, s.spoke⟩] }
  else s

/-- The end of a c2s batch, where it is counted. -/
def QuietRun.noteC2s (s : QuietRun) (lens : List ℕ) : QuietRun :=
  if lens = [] then s
  else
    { s with
      c2s := (rotSeenNote { s.c2s with client := s.tick } s.tick (batchBytes lens)).1
      sent := Function.update s.sent s.ticks (s.sent s.ticks + lens.sum)
      spoke := some s.ticks }

/-- A batch of the s2c thread is counted; the stamp is published when it moves. -/
def QuietRun.noteS2c (s : QuietRun) (lens : List ℕ) : QuietRun :=
  if lens = [] then s
  else
    let (v, turned) := rotSeenNote s.s2c s.tick (batchBytes lens)
    { s with
      s2c := v
      s2cBusyTick := if turned then v.busy else s.s2cBusyTick
      got := Function.update s.got s.ticks (s.got s.ticks + lens.sum) }

/-- A step of a run of less than half a turn of the clock. The packets lie in the buffers of
the threads. -/
def quietStep (c : FullRotCfg) (s4 : ℕ) (s : QuietRun) : QuietEvent → Option QuietRun
  | .tick =>
      if s.ticks + 1 < 2 ^ 31 then some { s with tick := s.tick + 1, ticks := s.ticks + 1 }
      else none
  | .c2s pkts due force moves =>
      if pkts.length ≤ batchSize ∧
          ∀ d ∈ pkts, s4 + d.length ≤ awgPacketBufSize + awgPacketHeadroom then
        some ((s.try c pkts due force moves).noteC2s (transportLens s4 pkts))
      else none
  | .s2c lens =>
      if lens.length ≤ batchSize ∧ ∀ n ∈ lens, n ≤ groBufSize then some (s.noteS2c lens)
      else none

/-- The stamps, under a configuration and its padding of transport packets. -/
def quietMachine (c : FullRotCfg) (s4 : ℕ) : Machine QuietRun QuietEvent where
  step := quietStep c s4

/-- A move after real quiet. -/
structure QuietMove.Justified (m : QuietMove) (idle : ℕ) : Prop where
  /-- None of the ticks was busy, in either direction. -/
  quiet : ∀ k, m.now ≤ k + idle → k ≤ m.now →
    m.sent k ≤ rotQuietBytes ∧ m.got k ≤ rotQuietBytes
  /-- The batch carries somebody's packet, or an init of a session that is alive. -/
  reason : (∃ d ∈ m.pkts, UserPkt d) ∨
    (∃ d ∈ m.pkts, InitPkt d) ∧ ∃ k, m.spoke = some k ∧ m.now ≤ k + rotWarmTicks

/-- Every move without the soft flag is justified. -/
def QuietRun.Justified (s : QuietRun) (idle : ℕ) : Prop :=
  ∀ m ∈ s.moves, m.soft = false → m.Justified idle

/-- More than `idle` ticks have passed, and none of the last ones was busy. -/
def QuietRun.Quiet (s : QuietRun) (idle : ℕ) : Prop :=
  idle < s.ticks ∧ ∀ k, s.ticks ≤ k + idle → k ≤ s.ticks →
    s.sent k ≤ rotQuietBytes ∧ s.got k ≤ rotQuietBytes

/-- A cold start that moves a due port: an init, with nobody's packet, in the first ticks of a
quiet tunnel whose client has not sent anything yet. -/
def ColdMove (c : FullRotCfg) (s : QuietRun) : QuietEvent → Prop
  | .c2s pkts due _ moves =>
      due = true ∧ moves = true ∧ (∃ d ∈ pkts, InitPkt d) ∧ (∀ d ∈ pkts, ¬ UserPkt d) ∧
        s.spoke = none ∧ s.ticks ≤ rotWarmTicks ∧ s.Quiet c.idle.toNat
  | _ => False

/-! ### One direction -/

/-- What the stamps of a direction say of its history: `count k` bytes were counted in tick
`k`, and `ticks` is the current one. -/
structure SeenInv (v : RotSeen) (count : ℕ → ℕ) (ticks : ℕ) : Prop where
  cntTick_le : v.cntTick.toNat ≤ ticks
  busy_le : v.busy.toNat ≤ v.cntTick.toNat
  /-- Nothing was counted since. -/
  later : ∀ k, v.cntTick.toNat < k → count k = 0
  /-- No tick behind the busy one was busy. -/
  quiet : ∀ k, v.busy.toNat < k → count k ≤ rotQuietBytes
  /-- The busy tick was busy, or it is the first one. -/
  busy : v.busy.toNat = 0 ∨ rotQuietBytes < count v.busy.toNat
  /-- The bytes of a tick that is not busy. -/
  bytes : v.busy ≠ v.cntTick → v.bytes.toNat = count v.cntTick.toNat

theorem SeenInv.tick {v : RotSeen} {count : ℕ → ℕ} {ticks : ℕ} (h : SeenInv v count ticks) :
    SeenInv v count (ticks + 1) :=
  { h with cntTick_le := h.cntTick_le.trans (Nat.le_succ ticks) }

/-- The count starts anew in a new tick. -/
theorem SeenInv.turn {v : RotSeen} {count : ℕ → ℕ} {ticks : ℕ} (h : SeenInv v count ticks)
    {t : UInt32} (ht : t.toNat = ticks) (hne : t ≠ v.cntTick) :
    SeenInv { v with cntTick := t, bytes := 0 } count ticks := by
  have hlt : v.cntTick.toNat < t.toNat :=
    Nat.lt_of_le_of_ne (ht ▸ h.cntTick_le) fun heq => hne (UInt32.toNat_inj.mp heq).symm
  have hbusy := h.busy_le
  refine ⟨ht.le, hbusy.trans hlt.le, fun k hk => h.later k (hlt.trans hk), h.quiet, h.busy, ?_⟩
  exact fun _ => (h.later _ hlt).symm

/-- More bytes in the current tick. -/
theorem SeenInv.add {v : RotSeen} {count : ℕ → ℕ} {ticks n : ℕ} (h : SeenInv v count ticks)
    (ht : v.cntTick.toNat = ticks) {b : UInt32} (hb : b.toNat = n) (hn : n < 2 ^ 31) :
    SeenInv
      (if v.busy = v.cntTick then v
        else if .ofNat rotQuietBytes < v.bytes + b then
          { v with bytes := v.bytes + b, busy := v.cntTick }
        else { v with bytes := v.bytes + b })
      (Function.update count ticks (count ticks + n)) ticks := by
  have hlater : ∀ k, v.cntTick.toNat < k →
      Function.update count ticks (count ticks + n) k = 0 := by
    intro k hk
    rw [Function.update_of_ne (by omega)]
    exact h.later k hk
  by_cases hbusy : v.busy = v.cntTick
  · rw [if_pos hbusy]
    have htick : v.busy.toNat = ticks := hbusy ▸ ht
    refine ⟨h.cntTick_le, h.busy_le, hlater, fun k hk => ?_, ?_, fun hne => absurd hbusy hne⟩
    · rw [Function.update_of_ne (by omega)]
      exact h.quiet k hk
    · refine h.busy.imp_right fun hlt => ?_
      rw [htick] at hlt ⊢
      rw [Function.update_self]
      omega
  · have hlt : v.busy.toNat < v.cntTick.toNat :=
      Nat.lt_of_le_of_ne h.busy_le fun heq => hbusy (UInt32.toNat_inj.mp heq)
    have hcount := h.bytes hbusy
    have hquiet := h.quiet _ hlt
    have hsum : (v.bytes + b).toNat = count ticks + n := by
      rw [UInt32.toNat_add, hcount, hb, ht]
      rw [ht] at hquiet
      have hq : rotQuietBytes = 65536 := rfl
      omega
    have hmax : (UInt32.ofNat rotQuietBytes).toNat = rotQuietBytes := rfl
    rw [if_neg hbusy]
    split
    · next hover =>
        rw [UInt32.lt_iff_toNat_lt, hsum, hmax] at hover
        refine ⟨h.cntTick_le, le_rfl, hlater, fun k hk => (hlater k hk).trans_le (Nat.zero_le _),
          Or.inr ?_, fun hne => absurd rfl hne⟩
        rw [ht, Function.update_self]
        exact hover
    · next hover =>
        rw [UInt32.lt_iff_toNat_lt, hsum, hmax, Nat.not_lt] at hover
        refine ⟨h.cntTick_le, h.busy_le, hlater, fun k hk => ?_, ?_, fun _ => ?_⟩
        · by_cases hk' : k = ticks
          · rw [hk', Function.update_self]
            exact hover
          · rw [Function.update_of_ne hk']
            exact h.quiet k hk
        · rw [Function.update_of_ne (ht ▸ hlt.ne)]
          exact h.busy
        · rw [ht, Function.update_self]
          exact hsum

/-- A batch that is counted: the tick it turns, then its bytes. -/
theorem rotSeenNote_eq (v : RotSeen) (t b : UInt32) :
    (rotSeenNote v t b).1 =
      let v := if t ≠ v.cntTick then { v with cntTick := t, bytes := 0 } else v
      if v.busy = v.cntTick then v
        else if .ofNat rotQuietBytes < v.bytes + b then
          { v with bytes := v.bytes + b, busy := v.cntTick }
        else { v with bytes := v.bytes + b } := by
  have hcnt : (if t ≠ v.cntTick then { v with cntTick := t, bytes := 0 } else v).cntTick = t := by
    split
    · rfl
    · next h => exact (not_not.mp h).symm
  rw [rotSeenNote]
  generalize (if t ≠ v.cntTick then { v with cntTick := t, bytes := 0 } else v) = w at hcnt
  obtain rfl := hcnt
  dsimp only
  split_ifs <;> rfl

/-- **The stamps stand for the whole history of their direction.** -/
theorem SeenInv.note {v : RotSeen} {count : ℕ → ℕ} {ticks n : ℕ} (h : SeenInv v count ticks)
    {t b : UInt32} (ht : t.toNat = ticks) (hb : b.toNat = n) (hn : n < 2 ^ 31) :
    SeenInv (rotSeenNote v t b).1 (Function.update count ticks (count ticks + n)) ticks := by
  rw [rotSeenNote_eq]
  dsimp only
  by_cases hne : t ≠ v.cntTick
  · rw [if_pos hne]
    exact (h.turn ht hne).add ht hb hn
  · rw [if_neg hne]
    exact h.add (not_not.mp hne ▸ ht) hb hn

/-- The busy tick changes only when the batch turns it. -/
theorem busy_rotSeenNote {v : RotSeen} {t b : UInt32} (h : (rotSeenNote v t b).2 = false) :
    (rotSeenNote v t b).1.busy = v.busy := by
  rw [rotSeenNote] at h ⊢
  dsimp only at h ⊢
  generalize hw : (if t ≠ v.cntTick then { v with cntTick := t, bytes := 0 } else v) = w at h ⊢
  have hbusy : w.busy = v.busy := by
    rw [← hw]
    split <;> rfl
  by_cases ht : w.busy = t
  · rw [if_pos ht]
    exact hbusy
  · rw [if_neg ht] at h ⊢
    by_cases hover : .ofNat rotQuietBytes < w.bytes + b
    · rw [if_pos hover] at h
      cases h
    · rw [if_neg hover]
      exact hbusy

/-- The bytes of a batch of the buffers' size do not wrap. -/
theorem toNat_foldl_bytes {lens : List ℕ} {b : UInt32} (h : b.toNat + lens.sum < 2 ^ 32) :
    (lens.foldl (fun b n => b + .ofNat n) b).toNat = b.toNat + lens.sum := by
  induction lens generalizing b with
  | nil => rfl
  | cons n lens ih =>
      rw [List.sum_cons] at h ⊢
      have hadd : (b + .ofNat n).toNat = b.toNat + n := by
        rw [UInt32.toNat_add, UInt32.toNat_ofNat', Nat.mod_eq_of_lt (by omega : n < 2 ^ 32),
          Nat.mod_eq_of_lt (by omega)]
      rw [List.foldl_cons, ih (by omega), hadd, Nat.add_assoc]

theorem toNat_batchBytes {lens : List ℕ} {m : ℕ} (hlen : lens.length ≤ batchSize)
    (hle : ∀ n ∈ lens, n ≤ m) (hm : m ≤ 65536) :
    (batchBytes lens).toNat = lens.sum ∧ lens.sum < 2 ^ 31 := by
  have hsum : lens.sum ≤ lens.length * m := List.sum_le_card_nsmul lens m hle
  have hmul : lens.length * m ≤ 32 * 65536 := Nat.mul_le_mul hlen hm
  have hzero : (0 : UInt32).toNat = 0 := rfl
  refine ⟨?_, by omega⟩
  rw [batchBytes, toNat_foldl_bytes (by omega), hzero, Nat.zero_add]

/-! ### The decision -/

/-- What the loop over the batch finds. -/
theorem rotWhat_iff (ds : List Bytes) (w : RotWhat) :
    ((rotWhat w ds).user = true ↔ w.user = true ∨ ∃ d ∈ ds, UserPkt d) ∧
      ((rotWhat w ds).init = true ↔ w.init = true ∨ ∃ d ∈ ds, InitPkt d) := by
  induction ds generalizing w with
  | nil => simp [rotWhat]
  | cons d ds ih =>
      rw [rotWhat]
      simp only [List.exists_mem_cons_iff]
      by_cases hboth : w.user ∧ w.init
      · rw [if_pos hboth]
        simp [hboth.1, hboth.2]
      rw [if_neg hboth]
      by_cases hshort : d.length < 4
      · have huser : ¬ UserPkt d := fun h => by
          have hmin : wgTransportMin = 32 := rfl
          have hlen := h.2
          omega
        have hinit : ¬ InitPkt d := fun h => absurd h.1 (Nat.not_le.mpr hshort)
        rw [if_pos hshort]
        simpa only [huser, hinit, false_or] using ih w
      rw [if_neg hshort]
      by_cases huser : UserPkt d
      · have hinit : ¬ InitPkt d := fun h => by
          have hne : wgTransportData ≠ wgHandshakeInit := by decide
          exact hne (huser.1.symm.trans h.2)
        obtain ⟨hu, hi⟩ := ih { w with user := true }
        rw [if_pos huser, hu, hi]
        simp [huser, hinit]
      rw [if_neg huser]
      by_cases hinit : pktHdr d = wgHandshakeInit
      · have hpkt : InitPkt d := ⟨Nat.not_lt.mp hshort, hinit⟩
        obtain ⟨hu, hi⟩ := ih { w with init := true }
        rw [if_pos hinit, hu, hi]
        simp [huser, hpkt]
      · have hpkt : ¬ InitPkt d := fun h => hinit h.2
        rw [if_neg hinit]
        simpa only [huser, hpkt, false_or] using ih w

/-- The later one of two stamps. -/
theorem toNat_later {x y : UInt32} (hx : x.toNat < 2 ^ 31) (hy : y.toNat < 2 ^ 31) :
    (if 0 < (x - y).toInt32 then x else y).toNat = max y.toNat x.toNat := by
  have hiff := Wrap.pos_sub_iff hx hy
  split
  · next h => exact (max_eq_right (hiff.mp h).le).symm
  · next h => exact (max_eq_left (Nat.not_lt.mp (hiff.not.mp h))).symm

/-- **When the port moves without the soft flag.** -/
theorem rotTry_eq_some_false_iff {c : FullRotCfg} {now sb : UInt32} {v : RotSeen}
    (hnow : now.toNat < 2 ^ 31) (hbusy : v.busy.toNat ≤ now.toNat) (hsb : sb.toNat ≤ now.toNat)
    (hclient : v.client.toNat ≤ now.toNat) (force : Bool) (pkts : List Bytes) (moves : Bool) :
    rotTry c now v sb force pkts moves = some false ↔
      moves = true ∧ c.idle.toNat + max v.busy.toNat sb.toNat < now.toNat ∧
        ((∃ d ∈ pkts, UserPkt d) ∨
          (∃ d ∈ pkts, InitPkt d) ∧ now.toNat ≤ v.client.toNat + rotWarmTicks) := by
  have hlater := toNat_later (hsb.trans_lt hnow) (hbusy.trans_lt hnow)
  obtain ⟨huser, hinit⟩ := rotWhat_iff pkts ⟨false, false⟩
  simp only [Bool.false_eq_true, false_or] at huser hinit
  rw [rotTry, ← huser, ← hinit, ← hlater]
  dsimp only
  generalize (if 0 < (sb - v.busy).toInt32 then sb else v.busy) = busy at hlater ⊢
  have hle : busy.toNat ≤ now.toNat := hlater ▸ max_le hbusy hsb
  have hidle : now - busy ≤ c.idle ↔ ¬ c.idle.toNat + busy.toNat < now.toNat := by
    rw [UInt32.le_iff_toNat_le, UInt32.toNat_sub_of_le _ _ (UInt32.le_iff_toNat_le.mpr hle)]
    omega
  have hwarm : now - v.client ≤ .ofNat rotWarmTicks ↔
      now.toNat ≤ v.client.toNat + rotWarmTicks := by
    have hsix : (UInt32.ofNat rotWarmTicks).toNat = rotWarmTicks := rfl
    rw [UInt32.le_iff_toNat_le, UInt32.toNat_sub_of_le _ _ (UInt32.le_iff_toNat_le.mpr hclient),
      hsix]
    omega
  by_cases hquiet : c.idle.toNat + busy.toNat < now.toNat
  · have hsoft : ¬ now - busy ≤ c.idle := fun h => hidle.mp h hquiet
    have hnotforce : ¬ (decide (now - busy ≤ c.idle) = true ∧ (!force) = true) := by
      simp [hsoft]
    rw [if_neg hnotforce, rotWindow]
    simp only [hsoft, hquiet, decide_false, if_false, Bool.false_eq_true, true_and, ← hwarm]
    cases moves
    · simp
    · cases (rotWhat ⟨false, false⟩ pkts).user
      · simp
      · simp
  · have hsoft : now - busy ≤ c.idle := hidle.mpr hquiet
    simp only [hsoft, hquiet, decide_true, false_and, and_false, iff_false]
    split_ifs <;> simp

/-! ### The runs -/

/-- The stamps of both threads stand for their histories. -/
structure QuietInv (s : QuietRun) : Prop where
  tick : s.tick.toNat = s.ticks
  lt : s.ticks < 2 ^ 31
  c2s : SeenInv s.c2s s.sent s.ticks
  s2c : SeenInv s.s2c s.got s.ticks
  /-- The stamp of the s2c thread is published. -/
  published : s.s2cBusyTick = s.s2c.busy
  /-- The stamp of the client's last transport starts as tick zero. -/
  client : s.c2s.client.toNat = s.spoke.getD 0
  spoke_le : ∀ k, s.spoke = some k → k ≤ s.ticks

theorem QuietInv.start : QuietInv .start where
  tick := rfl
  lt := Nat.two_pow_pos 31
  c2s := ⟨le_rfl, le_rfl, fun _ _ => rfl, fun _ _ => Nat.zero_le _, Or.inl rfl, fun _ => rfl⟩
  s2c := ⟨le_rfl, le_rfl, fun _ _ => rfl, fun _ _ => Nat.zero_le _, Or.inl rfl, fun _ => rfl⟩
  published := rfl
  client := rfl
  spoke_le := nofun

theorem QuietInv.client_le {s : QuietRun} (h : QuietInv s) : s.c2s.client.toNat ≤ s.ticks := by
  rw [h.client]
  cases hspoke : s.spoke with
  | none => exact Nat.zero_le _
  | some k => exact h.spoke_le k hspoke

/-- No tick of the window was busy when the later busy tick is before it. -/
theorem QuietInv.quiet_iff {s : QuietRun} (h : QuietInv s) (idle : ℕ) :
    s.Quiet idle ↔ idle + max s.c2s.busy.toNat s.s2c.busy.toNat < s.ticks := by
  have hc2s := h.c2s.busy_le.trans h.c2s.cntTick_le
  have hs2c := h.s2c.busy_le.trans h.s2c.cntTick_le
  constructor
  · rintro ⟨hlt, hquiet⟩
    by_contra hle
    rcases le_total s.c2s.busy.toNat s.s2c.busy.toNat with hmax | hmax
    · rw [max_eq_right hmax] at hle
      have hgot := (hquiet s.s2c.busy.toNat (by omega) hs2c).2
      rcases h.s2c.busy with hz | hover <;> omega
    · rw [max_eq_left hmax] at hle
      have hsent := (hquiet s.c2s.busy.toNat (by omega) hc2s).1
      rcases h.c2s.busy with hz | hover <;> omega
  · intro hlt
    have hleft := Nat.le_max_left s.c2s.busy.toNat s.s2c.busy.toNat
    have hright := Nat.le_max_right s.c2s.busy.toNat s.s2c.busy.toNat
    refine ⟨by omega, fun k hk _ => ⟨h.c2s.quiet k (by omega), h.s2c.quiet k (by omega)⟩⟩

/-- When the head of a batch moves the port without the soft flag. -/
theorem QuietInv.rotTry_iff {s : QuietRun} (h : QuietInv s) (c : FullRotCfg) (force : Bool)
    (pkts : List Bytes) (moves : Bool) :
    rotTry c s.tick s.c2s s.s2cBusyTick force pkts moves = some false ↔
      moves = true ∧ s.Quiet c.idle.toNat ∧
        ((∃ d ∈ pkts, UserPkt d) ∨
          (∃ d ∈ pkts, InitPkt d) ∧ s.ticks ≤ s.spoke.getD 0 + rotWarmTicks) := by
  have htick := h.tick
  rw [h.published, rotTry_eq_some_false_iff (htick ▸ h.lt)
    (htick ▸ h.c2s.busy_le.trans h.c2s.cntTick_le)
    (htick ▸ h.s2c.busy_le.trans h.s2c.cntTick_le) (htick ▸ h.client_le), h.quiet_iff, htick,
    h.client]

/-- A move without the soft flag is justified unless it is a cold start. -/
theorem QuietInv.justified_iff {s : QuietRun} (h : QuietInv s) {c : FullRotCfg} {force : Bool}
    {pkts : List Bytes} {moves : Bool}
    (hmove : rotTry c s.tick s.c2s s.s2cBusyTick force pkts moves = some false) :
    QuietMove.Justified ⟨false, s.ticks, pkts, s.sent, s.got, s.spoke⟩ c.idle.toNat ↔
      ¬ ColdMove c s (.c2s pkts true force moves) := by
  obtain ⟨hmoves, hquiet, hreason⟩ := (h.rotTry_iff c force pkts moves).mp hmove
  constructor
  · rintro ⟨-, hreason⟩ ⟨-, -, -, hnone, hspoke, -⟩
    rcases hreason with ⟨d, hd, huser⟩ | ⟨-, k, hk, -⟩
    · exact hnone d hd huser
    · exact Option.some_ne_none k (hk.symm.trans hspoke)
  · intro hcold
    refine ⟨hquiet.2, ?_⟩
    by_cases huser : ∃ d ∈ pkts, UserPkt d
    · exact Or.inl huser
    obtain ⟨hinit, hwarm⟩ := hreason.resolve_left huser
    refine Or.inr ⟨hinit, ?_⟩
    cases hspoke : s.spoke with
    | some k =>
        rw [hspoke] at hwarm
        exact ⟨k, rfl, hwarm⟩
    | none =>
        rw [hspoke, Option.getD_none, Nat.zero_add] at hwarm
        have hnone : ∀ d ∈ pkts, ¬ UserPkt d := fun d hd hu => huser ⟨d, hd, hu⟩
        exact absurd ⟨rfl, hmoves, hinit, hnone, hspoke, hwarm, hquiet⟩ hcold

/-- The head of a batch leaves the stamps alone. -/
theorem QuietInv.try {s : QuietRun} (h : QuietInv s) (c : FullRotCfg) (pkts : List Bytes)
    (due force moves : Bool) : QuietInv (s.try c pkts due force moves) := by
  rw [QuietRun.try]
  split
  · split
    · exact h
    · exact ⟨h.tick, h.lt, h.c2s, h.s2c, h.published, h.client, h.spoke_le⟩
  · exact h

/-- What the head of a batch adds to the moves. -/
theorem QuietInv.justified_try {s : QuietRun} (h : QuietInv s) (c : FullRotCfg)
    (pkts : List Bytes) (due force moves : Bool) :
    (s.try c pkts due force moves).Justified c.idle.toNat ↔
      s.Justified c.idle.toNat ∧ ¬ ColdMove c s (.c2s pkts due force moves) := by
  have hcold : ColdMove c s (.c2s pkts due force moves) →
      due = true ∧ rotTry c s.tick s.c2s s.s2cBusyTick force pkts moves = some false := by
    rintro ⟨hdue, hmoves, hinit, -, hspoke, hwarm, hquiet⟩
    refine ⟨hdue, (h.rotTry_iff c force pkts moves).mpr ⟨hmoves, hquiet, Or.inr ⟨hinit, ?_⟩⟩⟩
    rw [hspoke, Option.getD_none, Nat.zero_add]
    exact hwarm
  rw [QuietRun.try]
  cases due with
  | false =>
      have hnot : ¬ ColdMove c s (.c2s pkts false force moves) := fun hc => nomatch (hcold hc).1
      simp [hnot]
  | true =>
      rw [if_pos rfl]
      split
      · next hnone =>
          have hnot : ¬ ColdMove c s (.c2s pkts true force moves) := fun hc =>
            nomatch hnone.symm.trans (hcold hc).2
          simp [hnot]
      · next soft hsome =>
          cases soft with
          | false =>
              rw [← h.justified_iff hsome]
              simp [QuietRun.Justified, or_imp, forall_and]
          | true =>
              have hnot : ¬ ColdMove c s (.c2s pkts true force moves) := fun hc =>
                nomatch hsome.symm.trans (hcold hc).2
              simp [QuietRun.Justified, or_imp, forall_and, hnot]

/-- A batch of the client that is counted. -/
theorem QuietInv.noteC2s {s : QuietRun} (h : QuietInv s) {lens : List ℕ}
    (hbytes : (batchBytes lens).toNat = lens.sum ∧ lens.sum < 2 ^ 31) :
    QuietInv (s.noteC2s lens) := by
  have hseen : SeenInv { s.c2s with client := s.tick } s.sent s.ticks :=
    ⟨h.c2s.cntTick_le, h.c2s.busy_le, h.c2s.later, h.c2s.quiet, h.c2s.busy, h.c2s.bytes⟩
  have hclient : (rotSeenNote { s.c2s with client := s.tick } s.tick (batchBytes lens)).1.client =
      s.tick := by
    rw [rotSeenNote_eq]
    dsimp only
    split_ifs <;> rfl
  rw [QuietRun.noteC2s]
  split
  · exact h
  · refine { h with
      c2s := hseen.note h.tick hbytes.1 hbytes.2
      client := ?_
      spoke_le := ?_ }
    · rw [hclient]
      exact h.tick
    · intro k hk
      exact (Option.some.inj hk).symm.le

/-- A batch of the server that is counted. -/
theorem QuietInv.noteS2c {s : QuietRun} (h : QuietInv s) {lens : List ℕ}
    (hbytes : (batchBytes lens).toNat = lens.sum ∧ lens.sum < 2 ^ 31) :
    QuietInv (s.noteS2c lens) := by
  rw [QuietRun.noteS2c]
  split
  · exact h
  · refine { h with
      s2c := h.s2c.note h.tick hbytes.1 hbytes.2
      published := ?_ }
    dsimp only
    cases hturn : (rotSeenNote s.s2c s.tick (batchBytes lens)).2 with
    | false =>
        rw [if_neg Bool.false_ne_true, busy_rotSeenNote hturn]
        exact h.published
    | true => rw [if_pos rfl]

/-- The transport packets of a batch fit a counter. -/
theorem toNat_transportLens {s4 : ℕ} {pkts : List Bytes} (hlen : pkts.length ≤ batchSize)
    (hfit : ∀ d ∈ pkts, s4 + d.length ≤ awgPacketBufSize + awgPacketHeadroom) :
    (batchBytes (transportLens s4 pkts)).toNat = (transportLens s4 pkts).sum ∧
      (transportLens s4 pkts).sum < 2 ^ 31 := by
  refine toNat_batchBytes (m := awgPacketBufSize + awgPacketHeadroom) ?_ ?_ (by decide)
  · rw [transportLens, List.length_map]
    exact (List.length_filter_le _ _).trans hlen
  · intro n hn
    obtain ⟨d, hd, rfl⟩ := List.mem_map.mp hn
    exact hfit d (List.mem_of_mem_filter hd)

/-- A step keeps the stamps, and its moves are justified unless it is a cold start. -/
theorem QuietInv.step {c : FullRotCfg} {s4 : ℕ} {s s' : QuietRun} {e : QuietEvent}
    (h : QuietInv s) (hs : (quietMachine c s4).step s e = some s') :
    QuietInv s' ∧
      (s'.Justified c.idle.toNat ↔ s.Justified c.idle.toNat ∧ ¬ ColdMove c s e) := by
  cases e with
  | tick =>
      simp only [quietMachine, quietStep, Option.ite_none_right_eq_some] at hs
      obtain ⟨hlt, hs⟩ := hs
      obtain rfl := Option.some.inj hs
      have htick : (s.tick + 1).toNat = s.ticks + 1 := by
        have hone : (1 : UInt32).toNat = 1 := rfl
        rw [UInt32.toNat_add, h.tick, hone, Nat.mod_eq_of_lt (by omega)]
      refine ⟨{ h with tick := htick, lt := hlt, c2s := h.c2s.tick, s2c := h.s2c.tick
                       spoke_le := fun k hk => (h.spoke_le k hk).trans (Nat.le_succ _) }, ?_⟩
      simp [ColdMove, QuietRun.Justified]
  | c2s pkts due force moves =>
      simp only [quietMachine, quietStep, Option.ite_none_right_eq_some] at hs
      obtain ⟨⟨hlen, hfit⟩, hs⟩ := hs
      obtain rfl := Option.some.inj hs
      have hmoves : ((s.try c pkts due force moves).noteC2s (transportLens s4 pkts)).moves =
          (s.try c pkts due force moves).moves := by
        rw [QuietRun.noteC2s]
        split <;> rfl
      refine ⟨(h.try c pkts due force moves).noteC2s (toNat_transportLens hlen hfit), ?_⟩
      rw [← h.justified_try, QuietRun.Justified, hmoves]
      rfl
  | s2c lens =>
      simp only [quietMachine, quietStep, Option.ite_none_right_eq_some] at hs
      obtain ⟨⟨hlen, hfit⟩, hs⟩ := hs
      obtain rfl := Option.some.inj hs
      have hmoves : (s.noteS2c lens).moves = s.moves := by
        rw [QuietRun.noteS2c]
        split <;> rfl
      refine ⟨h.noteS2c (toNat_batchBytes hlen hfit le_rfl), ?_⟩
      simp only [QuietRun.Justified, hmoves, ColdMove, not_false_iff, and_true]

/-- **Every move without the soft flag is justified, exactly in the runs without a cold start
that moves the port.** -/
theorem quietMoves_iff (t mb : UInt32 × UInt32) (s4 : ℕ) (es : List QuietEvent) (s : QuietRun)
    (hrun : (quietMachine (rotCfgMake t.1 t.2 mb.1 mb.2) s4).run .start es = some s) :
    s.Justified (rotCfgMake t.1 t.2 mb.1 mb.2).idle.toNat ↔
      (quietMachine (rotCfgMake t.1 t.2 mb.1 mb.2) s4).Meets
        (fun s e => ¬ ColdMove (rotCfgMake t.1 t.2 mb.1 mb.2) s e) .start es :=
  Machine.iff_meets (fun _ _ _ => QuietInv.step) .start nofun hrun

/-- Two ticks of quiet, then somebody's packet: with a timer of five seconds it moves the
port. -/
def userAfterTwo : List QuietEvent :=
  [.tick, .tick, .c2s [4 :: List.replicate 47 0] true false true]

/-- The packet justifies the move. -/
theorem quietMoves_iff_userAfterTwo : ∃ s,
    (quietMachine (rotCfgMake 5 5 0 0) 0).run .start userAfterTwo = some s ∧
      s.moves.map QuietMove.soft = [false] ∧
        (s.Justified (rotCfgMake 5 5 0 0).idle.toNat ↔
          (quietMachine (rotCfgMake 5 5 0 0) 0).Meets
            (fun s e => ¬ ColdMove (rotCfgMake 5 5 0 0) s e) .start userAfterTwo) := by
  obtain ⟨s, hs⟩ : ∃ s, (quietMachine (rotCfgMake 5 5 0 0) 0).run .start userAfterTwo = some s :=
    ⟨_, rfl⟩
  refine ⟨s, hs, ?_, quietMoves_iff (5, 5) (0, 0) 0 userAfterTwo s hs⟩
  obtain rfl := Option.some.inj hs
  rfl

/-- The first init of a client that has not sent anything, at the second tick. -/
def coldStart : List QuietEvent :=
  [.tick, .tick, .c2s [1 :: List.replicate 147 0] true false true]

set_option maxRecDepth 2000 in
/-- It moves the port. -/
theorem not_quietMoves_coldStart : ¬ ∀ (t mb : UInt32 × UInt32) (s4 : ℕ) (es : List QuietEvent)
    (s : QuietRun), (quietMachine (rotCfgMake t.1 t.2 mb.1 mb.2) s4).run .start es = some s →
      s.Justified (rotCfgMake t.1 t.2 mb.1 mb.2).idle.toNat := by
  intro hall
  obtain ⟨s, hs⟩ : ∃ s, (quietMachine (rotCfgMake 5 5 0 0) 0).run .start coldStart = some s :=
    ⟨_, rfl⟩
  obtain ⟨m, hmoves, hsoft, hpkts, hspoke⟩ : ∃ m, s.moves = [m] ∧ m.soft = false ∧
      m.pkts = [1 :: List.replicate 147 0] ∧ m.spoke = none := by
    obtain rfl := Option.some.inj hs
    exact ⟨⟨false, 2, [1 :: List.replicate 147 0], fun _ => 0, fun _ => 0, none⟩, rfl, rfl, rfl,
      rfl⟩
  have hjust := hall (5, 5) (0, 0) 0 coldStart s hs m (hmoves ▸ List.mem_singleton_self m) hsoft
  rcases hjust.reason with ⟨d, hd, huser⟩ | ⟨-, k, hk, -⟩
  · rw [hpkts] at hd
    obtain rfl := List.mem_singleton.mp hd
    exact absurd huser (by decide)
  · exact Option.some_ne_none k (hk.symm.trans hspoke)

end AwgProxy
