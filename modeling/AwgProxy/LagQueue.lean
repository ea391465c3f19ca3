import AwgProxy.Lib.Bytes
import AwgProxy.Lib.Machine
import AwgProxy.Lib.RingBuf
import AwgProxy.RotationDual
import Mathlib.Data.List.Forall2
import Mathlib.Data.List.TakeWhile

/-!
# The Lagging Copies

While a move is under way every packet goes out on both ports, and the copy for the old port
waits `ROT_LAG_MS` so that the new one gets there first. The copies wait in a ring buffer of
the c2s thread. How long they have to is up to others: the main loop ends the move, the s2c
thread finds it won, and a new move forgets what waits.

* `lagMachine` — the puts, the services and the resets, under any schedule of the flags.
* `rotLagService_eq` — a service, on the list of what waits.
* `LagInv.step` — what waits is the end of what was queued, in order of its due times.
* `lagFaithful` — over every run, and for the next service after it.
-/

namespace AwgProxy

/-! ### The code -/

/-- `struct rot_lag`: when the copy is due, in microseconds, and its bytes. -/
structure LagEntry where
  dueUs : ℕ
  b : Bytes
  deriving DecidableEq

/-- `proxy_t` as far as the copies go. -/
structure LagQueue where
  /-- `rot_lag` is there. -/
  allocated : Bool
  /-- `rot_lag`, `rot_lag_head` and `rot_lag_n`. -/
  ring : RingBuf LagEntry
  /-- `rot_twice`. -/
  twice : UInt32

/-- Before the first move. -/
def LagQueue.init : LagQueue := ⟨false, ⟨fun _ => ⟨0, []⟩, 0, 0⟩, 0⟩

/-- `rot_lag_send` on the `n` oldest copies, and what it hands to the socket. `res` are the
results of `sendmmsg`, whose failures are the old port's business. -/
def rotLagSend (q : LagQueue) (n : ℕ) (res : List ℤ) : LagQueue × List Bytes :=
  if n = 0 then (q, [])
  else
    let k := min n batchSize
    let out := (List.range k).map fun i => (q.ring.get rotLagN i).b
    let s := res.headD (-1)
    let r := rotLagSend
      { q with
        twice := if 0 < s then q.twice + UInt32.ofInt s else q.twice
        ring := q.ring.drop rotLagN k } (n - k) res.tail
    (r.1, out ++ r.2)
  termination_by n
  decreasing_by
    have hbatch : batchSize = 32 := rfl
    omega

/-- The allocation of `rot_lag_put`, at the first copy that fits. -/
def LagQueue.calloc (q : LagQueue) (len : ℕ) (callocOk : Bool) : LagQueue :=
  if !q.allocated ∧ len ≤ rotLagPkt ∧ callocOk then
    { q with allocated := true, ring := { q.ring with buf := fun _ => ⟨0, []⟩ } }
  else q

/-- `rot_lag_put`, and whether the copy waits; one that does not is sent at once. -/
def rotLagPut (q : LagQueue) (b : Bytes) (now : ℕ) (callocOk sendOk : Bool) :
    LagQueue × Bool :=
  let q := q.calloc b.length callocOk
  if !q.allocated ∨ rotLagPkt < b.length ∨ q.ring.n = rotLagN then
    ({ q with twice := if sendOk then q.twice + 1 else q.twice }, false)
  else
    ({ q with ring := q.ring.push rotLagN ⟨now + rotLagMs * 1000, b⟩ }, true)

/-- The loop of `rot_lag_service` over the copies that are due. -/
def rotLagDue (q : LagQueue) (now : ℕ) : ℕ :=
  ((List.range q.ring.n).takeWhile fun i => (q.ring.get rotLagN i).dueUs ≤ now).length

/-- What a call of `rot_lag_service` comes to. -/
structure LagService where
  /-- The queue it leaves. -/
  queue : LagQueue
  /-- The milliseconds until the next copy is due, or `-1`. -/
  wait : ℤ
  /-- What it hands to the socket. -/
  out : List Bytes

/-- `rot_lag_service`, with `rot_old_fd`, `rot_dual` and `rot_won` as it finds them. -/
def rotLagService (q : LagQueue) (old : ℤ) (dual won : Bool) (now : ℕ) (res : List ℤ) :
    LagService :=
  if q.ring.n = 0 then ⟨q, -1, []⟩
  else if old < 0 ∨ (!dual ∧ won) then ⟨{ q with ring := q.ring.clear }, -1, []⟩
  else
    let due := if dual then rotLagDue q now else q.ring.n
    let (q, out) := if due ≠ 0 then rotLagSend q due res else (q, [])
    if q.ring.n = 0 then ⟨q, -1, out⟩
    else
      let atUs := (q.ring.get rotLagN 0).dueUs
      ⟨q, if now < atUs then ((atUs - now + 999) / 1000 : ℕ) else 0, out⟩

/-- The copies that wait, oldest first. -/
def LagQueue.items (q : LagQueue) : List LagEntry := q.ring.items rotLagN

/-! ### The runs -/

/-- What the c2s thread does to the queue. -/
inductive LagEvent
  /-- `rot_lag_put`. -/
  | put (b : Bytes) (now : ℕ) (callocOk sendOk : Bool)
  /-- `rot_lag_service`. -/
  | service (old : ℤ) (dual won : Bool) (now : ℕ) (res : List ℤ)
  /-- `rot_move`, where it forgets what waits. -/
  | reset

/-- A copy that was queued. -/
structure LagPut where
  b : Bytes
  now : ℕ

/-- A copy that was handed to the socket, by a service that found `rot_dual` or not. -/
structure LagHanded where
  b : Bytes
  now : ℕ
  dual : Bool

/-- The queue, the clock, and the record of the run. -/
structure LagRun where
  queue : LagQueue
  /-- The clock at the last call. -/
  clock : ℕ
  /-- What was queued, in order. -/
  queued : List LagPut
  /-- What was handed to the socket, in order. -/
  handed : List LagHanded

/-- A run starts with nothing queued. -/
def LagRun.start (now : ℕ) : LagRun := ⟨.init, now, [], []⟩

/-- A step of the c2s thread; the clock does not run backwards. -/
def lagStep (s : LagRun) : LagEvent → Option LagRun
  | .put b now callocOk sendOk =>
      if s.clock ≤ now then
        let (q, waits) := rotLagPut s.queue b now callocOk sendOk
        some ⟨q, now, if waits then s.queued ++ [⟨b, now⟩] else s.queued, s.handed⟩
      else none
  | .service old dual won now res =>
      if s.clock ≤ now then
        let r := rotLagService s.queue old dual won now res
        some ⟨r.queue, now, s.queued, s.handed ++ r.out.map (⟨·, now, dual⟩)⟩
      else none
  | .reset => some { s with queue := { s.queue with ring := s.queue.ring.clear, twice := 0 } }

/-- The c2s thread. -/
def lagMachine : Machine LagRun LagEvent where
  step := lagStep

/-- A copy that was queued, handed to the socket: its own bytes, and while the move lasts not
before it is due. -/
def HandedOver (h : LagHanded) (p : LagPut) : Prop :=
  h.b = p.b ∧ p.now ≤ h.now ∧ (h.dual = true → p.now + rotLagMs * 1000 ≤ h.now)

/-- What the next service does. -/
structure ServiceFaithful (q : LagQueue) (old : ℤ) (dual won : Bool) (now : ℕ)
    (r : LagService) : Prop where
  /-- While the move lasts, no copy that is due remains. -/
  none_due : 0 ≤ old → dual = true → ∀ e ∈ r.queue.items, now < e.dueUs
  /-- A move that is lost hands over everything. -/
  lost : 0 ≤ old → dual = false → won = false →
    r.queue.items = [] ∧ r.out = q.items.map LagEntry.b
  /-- A move that is won, or one without a socket, drops everything. -/
  dropped : old < 0 ∨ dual = false ∧ won = true → r.queue.items = [] ∧ r.out = []
  /-- The wait is over exactly when nothing waits. -/
  wait_iff : r.wait = -1 ↔ r.queue.items = []
  /-- The next copy is due in time. -/
  wait_le : r.queue.items ≠ [] → 1 ≤ r.wait ∧ r.wait ≤ rotLagMs

/-- What a run keeps to. -/
structure LagFaithful (s : LagRun) : Prop where
  /-- `rot_lag_head` is a slot. -/
  head_lt : s.queue.ring.head < rotLagN
  /-- `rot_lag_n` is in bounds. -/
  n_le : s.queue.ring.n ≤ rotLagN
  /-- The copies handed over are some of those queued, in their order. -/
  fifo : List.SublistForall₂ HandedOver s.handed s.queued
  /-- The next service, whatever it finds. -/
  next : ∀ old dual won now res, s.clock ≤ now →
    ServiceFaithful s.queue old dual won now (rotLagService s.queue old dual won now res)

/-! ### A service -/

/-- A service, on the list of what waits. -/
def lagService (l : List LagEntry) (old : ℤ) (dual won : Bool) (now : ℕ) :
    List LagEntry × List Bytes :=
  if old < 0 ∨ (!dual ∧ won) then ([], [])
  else if dual then
    (l.dropWhile (·.dueUs ≤ now), (l.takeWhile (·.dueUs ≤ now)).map LagEntry.b)
  else ([], l.map LagEntry.b)

/-- The milliseconds until the first one of what waits is due. -/
def lagWait (now : ℕ) : List LagEntry → ℤ
  | [] => -1
  | e :: _ => if now < e.dueUs then ((e.dueUs - now + 999) / 1000 : ℕ) else 0

theorem take_length_takeWhile {α : Type*} (p : α → Bool) (l : List α) :
    l.take (l.takeWhile p).length = l.takeWhile p :=
  (List.prefix_iff_eq_take.mp (List.takeWhile_prefix p)).symm

theorem drop_length_takeWhile {α : Type*} (p : α → Bool) (l : List α) :
    l.drop (l.takeWhile p).length = l.dropWhile p := by
  have hsplit := (List.take_append_drop (l.takeWhile p).length l).trans
    (List.takeWhile_append_dropWhile (p := p)).symm
  rw [take_length_takeWhile] at hsplit
  exact List.append_cancel_left hsplit

/-- The oldest copies are handed over, batch by batch. -/
theorem rotLagSend_eq (n : ℕ) (q : LagQueue) (res : List ℤ) (hq : q.ring.Ok rotLagN)
    (hn : n ≤ q.ring.n) :
    (rotLagSend q n res).1.items = q.items.drop n ∧
      (rotLagSend q n res).2 = (q.items.take n).map LagEntry.b ∧
        (rotLagSend q n res).1.allocated = q.allocated ∧
          (rotLagSend q n res).1.ring.Ok rotLagN := by
  induction n using Nat.strong_induction_on generalizing q res with
  | _ n ih =>
      rw [rotLagSend]
      by_cases hz : n = 0
      · simp [hz, hq]
      · have hk : min n batchSize ≤ n := Nat.min_le_left _ _
        have hpos : 0 < min n batchSize := Nat.lt_min.mpr ⟨Nat.pos_of_ne_zero hz, by decide⟩
        simp only [if_neg hz]
        generalize min n batchSize = k at hk hpos
        have hout : (List.range k).map (fun i => (q.ring.get rotLagN i).b) =
            (q.items.take k).map LagEntry.b := by
          rw [LagQueue.items, ← RingBuf.take_items (hk.trans hn), List.map_map]
          rfl
        obtain ⟨hitems, hbytes, halloc, hok⟩ := ih (n - k) (by omega)
          { q with
            twice := if 0 < res.headD (-1) then q.twice + UInt32.ofInt (res.headD (-1))
              else q.twice
            ring := q.ring.drop rotLagN k } res.tail (hq.drop k) (by
              rw [RingBuf.n_drop]
              omega)
        have hdrop : (q.ring.drop rotLagN k).items rotLagN = q.items.drop k :=
          RingBuf.items_drop k
        refine ⟨?_, ?_, halloc, hok⟩
        · rw [hitems, LagQueue.items, hdrop, List.drop_drop, Nat.add_sub_cancel' hk]
        · rw [hbytes, LagQueue.items, hdrop, hout, ← List.map_append, ← List.take_add,
            Nat.add_sub_cancel' hk]

/-- The copies that are due are the first ones. -/
theorem rotLagDue_eq (q : LagQueue) (now : ℕ) :
    rotLagDue q now = (q.items.takeWhile (·.dueUs ≤ now)).length := by
  rw [LagQueue.items, RingBuf.items, List.takeWhile_map, List.length_map]
  rfl

/-- The wait a service finds on the queue it leaves. -/
theorem lagWait_items (q : LagQueue) (now : ℕ) :
    lagWait now q.items = if q.ring.n = 0 then (-1 : ℤ)
      else if now < (q.ring.get rotLagN 0).dueUs then
        (((q.ring.get rotLagN 0).dueUs - now + 999) / 1000 : ℕ)
      else 0 := by
  split
  · next hz =>
      have hitems : q.items = [] := RingBuf.items_eq_nil_iff.mpr hz
      rw [hitems, lagWait]
  · next hz =>
      obtain ⟨l, hl⟩ := RingBuf.items_eq_cons (N := rotLagN) hz
      rw [LagQueue.items, hl, lagWait]

/-- A service that sends. -/
theorem rotLagService_of_send {q : LagQueue} {old : ℤ} {dual won : Bool} {now : ℕ}
    (hz : q.ring.n ≠ 0) (hsend : ¬ (old < 0 ∨ (!dual ∧ won))) (res : List ℤ) :
    rotLagService q old dual won now res =
      let r := rotLagSend q (if dual then rotLagDue q now else q.ring.n) res
      ⟨r.1, lagWait now r.1.items, r.2⟩ := by
  have hnone : ∀ due, (if due ≠ 0 then rotLagSend q due res else (q, [])) =
      rotLagSend q due res := by
    intro due
    split
    · rfl
    · next h => rw [not_not.mp h, rotLagSend, if_pos rfl]
  rw [rotLagService, if_neg hz, if_neg hsend]
  simp only [hnone, lagWait_items]
  generalize rotLagSend q _ res = r
  split <;> rfl

/-- **A service does to the ring what it says on the list.** -/
theorem rotLagService_eq (q : LagQueue) (hq : q.ring.Ok rotLagN) (old : ℤ) (dual won : Bool)
    (now : ℕ) (res : List ℤ) :
    (rotLagService q old dual won now res).queue.items =
        (lagService q.items old dual won now).1 ∧
      (rotLagService q old dual won now res).out = (lagService q.items old dual won now).2 ∧
        (rotLagService q old dual won now res).wait =
            lagWait now (lagService q.items old dual won now).1 ∧
          (rotLagService q old dual won now res).queue.allocated = q.allocated ∧
            (rotLagService q old dual won now res).queue.ring.Ok rotLagN := by
  by_cases hz : q.ring.n = 0
  · have hitems : q.items = [] := RingBuf.items_eq_nil_iff.mpr hz
    have hlist : lagService [] old dual won now = ([], []) := by
      rw [lagService]
      split_ifs <;> rfl
    rw [rotLagService, if_pos hz, hitems, hlist]
    exact ⟨rfl, rfl, by rw [lagWait], rfl, hq⟩
  by_cases hdrop : old < 0 ∨ (!dual ∧ won)
  · rw [rotLagService, if_neg hz, if_pos hdrop, lagService, if_pos hdrop]
    exact ⟨rfl, rfl, rfl, rfl, hq.clear⟩
  · have hlen : q.items.length = q.ring.n := RingBuf.length_items
    rw [rotLagService_of_send hz hdrop, lagService, if_neg hdrop]
    cases dual
    · obtain ⟨hitems, hout, halloc, hok⟩ := rotLagSend_eq _ q res hq le_rfl
      rw [← hlen, List.drop_length] at hitems
      rw [← hlen, List.take_length] at hout
      simp only [Bool.false_eq_true, if_false]
      rw [← hlen, hitems, hout]
      exact ⟨rfl, rfl, rfl, hlen ▸ halloc, hlen ▸ hok⟩
    · have htake : q.items.take (rotLagDue q now) = q.items.takeWhile (·.dueUs ≤ now) := by
        rw [rotLagDue_eq, take_length_takeWhile]
      have hrest : q.items.drop (rotLagDue q now) = q.items.dropWhile (·.dueUs ≤ now) := by
        rw [rotLagDue_eq, drop_length_takeWhile]
      have hle : rotLagDue q now ≤ q.ring.n := by
        rw [rotLagDue_eq, ← hlen]
        exact (List.takeWhile_prefix _).length_le
      obtain ⟨hitems, hout, halloc, hok⟩ := rotLagSend_eq _ q res hq hle
      rw [hrest] at hitems
      rw [htake] at hout
      simp only [if_true]
      rw [hitems, hout]
      exact ⟨rfl, rfl, rfl, halloc, hok⟩

/-! ### What waits -/

/-- The copies that wait are in the order of their due times, and the last one was queued by
now. -/
structure LagOrder (l : List LagEntry) (now : ℕ) : Prop where
  /-- The due times do not fall. -/
  sorted : l.Pairwise fun e e' => e.dueUs ≤ e'.dueUs
  /-- None is due later than a copy queued now. -/
  le : ∀ e ∈ l, e.dueUs ≤ now + rotLagMs * 1000

theorem LagOrder.sublist {l l' : List LagEntry} {now : ℕ} (h : LagOrder l now)
    (hsub : l'.Sublist l) : LagOrder l' now :=
  ⟨h.sorted.sublist hsub, fun e he => h.le e (hsub.subset he)⟩

theorem LagOrder.mono {l : List LagEntry} {now now' : ℕ} (h : LagOrder l now)
    (hle : now ≤ now') : LagOrder l now' :=
  ⟨h.sorted, fun e he => (h.le e he).trans (by omega)⟩

/-- A copy queued now is due last. -/
theorem LagOrder.push {l : List LagEntry} {now : ℕ} (h : LagOrder l now) (b : Bytes) :
    LagOrder (l ++ [⟨now + rotLagMs * 1000, b⟩]) now := by
  refine ⟨List.pairwise_append.mpr ⟨h.sorted, List.pairwise_singleton _ _, ?_⟩, ?_⟩
  · intro e he e' he'
    obtain rfl := List.mem_singleton.mp he'
    exact h.le e he
  · intro e he
    rcases List.mem_append.mp he with he | he
    · exact h.le e he
    · obtain rfl := List.mem_singleton.mp he
      exact le_rfl

/-- Behind the copies that are due none is. -/
theorem LagOrder.not_due {l : List LagEntry} {clock : ℕ} (h : LagOrder l clock) (now : ℕ) :
    ∀ e ∈ l.dropWhile (·.dueUs ≤ now), now < e.dueUs := by
  intro e he
  cases hrest : l.dropWhile (·.dueUs ≤ now) with
  | nil => simp [hrest] at he
  | cons a r =>
      have ha : ¬ (a.dueUs ≤ now) := by
        have hhead := List.head_dropWhile_not (p := fun e : LagEntry => e.dueUs ≤ now) (l := l)
        simpa [hrest] using hhead
      have hsorted := h.sorted.sublist (List.dropWhile_sublist fun e : LagEntry => e.dueUs ≤ now)
      rw [hrest] at hsorted he
      rcases List.mem_cons.mp he with rfl | he
      · exact Nat.lt_of_not_le ha
      · exact (Nat.lt_of_not_le ha).trans_le ((List.pairwise_cons.mp hsorted).1 e he)

/-- What a service leaves is the end of what waited. -/
theorem lagService_suffix (l : List LagEntry) (old : ℤ) (dual won : Bool) (now : ℕ) :
    (lagService l old dual won now).1 <:+ l := by
  rw [lagService]
  split_ifs
  · exact List.nil_suffix
  · exact List.dropWhile_suffix _
  · exact List.nil_suffix

/-- The wait for the first copy that is not due. -/
theorem lagWait_bounds {l : List LagEntry} {now : ℕ} (h : LagOrder l now)
    (hdue : ∀ e ∈ l, now < e.dueUs) :
    (lagWait now l = -1 ↔ l = []) ∧ (l ≠ [] → 1 ≤ lagWait now l ∧ lagWait now l ≤ rotLagMs) := by
  cases l with
  | nil => simp [lagWait]
  | cons e l =>
      have hlt := hdue e List.mem_cons_self
      have hle := h.le e List.mem_cons_self
      have hwait : 1 ≤ (e.dueUs - now + 999) / 1000 ∧ (e.dueUs - now + 999) / 1000 ≤ rotLagMs := by
        have hms : rotLagMs = 50 := rfl
        omega
      rw [lagWait, if_pos hlt]
      refine ⟨⟨fun h => ?_, nofun⟩, fun _ => ⟨?_, ?_⟩⟩
      · omega
      · exact_mod_cast hwait.1
      · exact_mod_cast hwait.2

/-- **The next service does what it should.** -/
theorem serviceFaithful {q : LagQueue} (hq : q.ring.Ok rotLagN) {clock now : ℕ}
    (horder : LagOrder q.items clock) (hnow : clock ≤ now) (old : ℤ) (dual won : Bool)
    (res : List ℤ) :
    ServiceFaithful q old dual won now (rotLagService q old dual won now res) := by
  obtain ⟨hitems, hout, hwait, -, -⟩ := rotLagService_eq q hq old dual won now res
  have horder := horder.mono hnow
  have hdue : ∀ e ∈ (lagService q.items old dual won now).1, now < e.dueUs := by
    rw [lagService]
    split_ifs
    · simp
    · exact horder.not_due now
    · simp
  have hbounds := lagWait_bounds
    (horder.sublist (lagService_suffix q.items old dual won now).sublist) hdue
  rw [← hwait, ← hitems] at hbounds
  rw [← hitems] at hdue
  refine ⟨fun _ _ => hdue, ?_, ?_, hbounds.1, hbounds.2⟩
  · rintro hold rfl rfl
    rw [hitems, hout, lagService, if_neg (by simpa using hold), if_neg Bool.false_ne_true]
    exact ⟨rfl, rfl⟩
  · intro hdrop
    rw [hitems, hout, lagService, if_pos (by simpa using hdrop)]
    exact ⟨rfl, rfl⟩

/-! ### The runs -/

/-- The entry of a copy that waits. -/
def Waits (e : LagEntry) (p : LagPut) : Prop :=
  e.b = p.b ∧ e.dueUs = p.now + rotLagMs * 1000

/-- The ring is in order, and nothing waits where there is no room. -/
structure LagQueue.Ok (q : LagQueue) : Prop where
  ring : q.ring.Ok rotLagN
  room : q.allocated = false → q.ring.n = 0

/-- What a run keeps to, on the way. -/
structure LagInv (s : LagRun) : Prop where
  ok : s.queue.Ok
  /-- What waits is in the order of its due times. -/
  order : LagOrder s.queue.items s.clock
  /-- What waits is the end of what was queued; what was handed over was queued before. -/
  split : ∃ done waiting, s.queued = done ++ waiting ∧
    List.SublistForall₂ HandedOver s.handed done ∧ List.Forall₂ Waits s.queue.items waiting

/-- Copies and copies behind them. -/
theorem sublistForall₂_append {α β : Type*} {R : α → β → Prop} {l l' : List α} {m m' : List β}
    (h : List.SublistForall₂ R l m) (h' : List.SublistForall₂ R l' m') :
    List.SublistForall₂ R (l ++ l') (m ++ m') := by
  obtain ⟨k, hk, hsub⟩ := List.sublistForall₂_iff.mp h
  obtain ⟨k', hk', hsub'⟩ := List.sublistForall₂_iff.mp h'
  exact List.sublistForall₂_iff.mpr ⟨k ++ k', List.rel_append hk hk', hsub.append hsub'⟩

theorem LagInv.start (now : ℕ) : LagInv (LagRun.start now) where
  ok := ⟨⟨Nat.two_pow_pos 8, Nat.zero_le _⟩, fun _ => rfl⟩
  order := ⟨List.Pairwise.nil, nofun⟩
  split := ⟨[], [], rfl, .nil, .nil⟩

/-- The allocation changes nothing that waits. -/
theorem LagQueue.Ok.calloc {q : LagQueue} (h : q.Ok) (len : ℕ) (callocOk : Bool) :
    (q.calloc len callocOk).Ok ∧ (q.calloc len callocOk).items = q.items := by
  rw [LagQueue.calloc]
  split
  · next hnew =>
      have hnone : q.ring.n = 0 := h.room (by simpa using hnew.1)
      refine ⟨⟨⟨h.ring.head_lt, h.ring.n_le⟩, nofun⟩, ?_⟩
      have hitems : q.items = [] := RingBuf.items_eq_nil_iff.mpr hnone
      rw [hitems]
      exact RingBuf.items_eq_nil_iff.mpr hnone
  · exact ⟨h, rfl⟩

/-- A copy is queued behind the others, or sent at once. -/
theorem LagQueue.Ok.put {q : LagQueue} (h : q.Ok) (b : Bytes) (now : ℕ)
    (callocOk sendOk : Bool) :
    (rotLagPut q b now callocOk sendOk).1.Ok ∧
      (rotLagPut q b now callocOk sendOk).1.items =
        if (rotLagPut q b now callocOk sendOk).2 then
          q.items ++ [⟨now + rotLagMs * 1000, b⟩]
        else q.items := by
  obtain ⟨hok, hitems⟩ := h.calloc b.length callocOk
  rw [rotLagPut]
  split
  · exact ⟨⟨hok.ring, hok.room⟩, hitems⟩
  · next hroom =>
      simp only [not_or] at hroom
      have hn : (q.calloc b.length callocOk).ring.n < rotLagN :=
        Nat.lt_of_le_of_ne hok.ring.n_le hroom.2.2
      refine ⟨⟨hok.ring.push hn _, fun hnone => ?_⟩, ?_⟩
      · exact absurd hnone (by simpa using hroom.1)
      · rw [← hitems]
        exact RingBuf.items_push hn _

/-- What a service leaves is in order. -/
theorem LagQueue.Ok.service {q : LagQueue} (h : q.Ok) (old : ℤ) (dual won : Bool) (now : ℕ)
    (res : List ℤ) : (rotLagService q old dual won now res).queue.Ok := by
  obtain ⟨hitems, -, -, halloc, hok⟩ := rotLagService_eq q h.ring old dual won now res
  refine ⟨hok, fun hnone => ?_⟩
  have hempty : q.items = [] := RingBuf.items_eq_nil_iff.mpr (h.room (halloc ▸ hnone))
  have hsuffix := lagService_suffix q.items old dual won now
  rw [← hitems, hempty, List.suffix_nil] at hsuffix
  exact RingBuf.items_eq_nil_iff.mp hsuffix

/-- Copies that wait, handed over. -/
theorem sublistForall₂_handedOver {l : List LagEntry} {w : List LagPut}
    (h : List.Forall₂ Waits l w) {now : ℕ} {dual : Bool}
    (hle : ∀ e ∈ l, e.dueUs ≤ now + rotLagMs * 1000)
    (hdue : dual = true → ∀ e ∈ l, e.dueUs ≤ now) :
    List.SublistForall₂ HandedOver ((l.map LagEntry.b).map (⟨·, now, dual⟩)) w := by
  induction h with
  | nil => exact .nil
  | @cons e p l w hwaits _ ih =>
      obtain ⟨hb, htime⟩ := hwaits
      refine .cons ⟨hb, ?_, fun hdual => ?_⟩ (ih ?_ ?_)
      · have he := hle e List.mem_cons_self
        exact Nat.le_of_add_le_add_right (htime ▸ he)
      · exact htime ▸ hdue hdual e List.mem_cons_self
      · exact fun e he => hle e (List.mem_cons_of_mem _ he)
      · exact fun hdual e he => hdue hdual e (List.mem_cons_of_mem _ he)

/-- What a service hands over was queued in front of what it leaves. -/
theorem handed_lagService {l : List LagEntry} {w : List LagPut} (h : List.Forall₂ Waits l w)
    {now : ℕ} (horder : LagOrder l now) (old : ℤ) (dual won : Bool) :
    ∃ done waiting, w = done ++ waiting ∧
      List.SublistForall₂ HandedOver
        ((lagService l old dual won now).2.map (⟨·, now, dual⟩)) done ∧
      List.Forall₂ Waits (lagService l old dual won now).1 waiting := by
  rw [lagService]
  split
  · exact ⟨w, [], (List.append_nil w).symm, .nil, .nil⟩
  cases dual
  · exact ⟨w, [], (List.append_nil w).symm, sublistForall₂_handedOver h horder.le nofun, .nil⟩
  · have htake := take_length_takeWhile (fun e : LagEntry => e.dueUs ≤ now) l
    have hrest := drop_length_takeWhile (fun e : LagEntry => e.dueUs ≤ now) l
    generalize (l.takeWhile (·.dueUs ≤ now)).length = n at htake hrest
    refine ⟨w.take n, w.drop n, (List.take_append_drop n w).symm, ?_, ?_⟩
    · rw [if_pos rfl, ← htake]
      refine sublistForall₂_handedOver (List.forall₂_take n h) ?_ fun _ => ?_
      · exact fun e he => horder.le e (List.mem_of_mem_take he)
      · intro e he
        rw [htake] at he
        simpa using List.mem_takeWhile_imp he
    · rw [if_pos rfl, ← hrest]
      exact List.forall₂_drop n h

/-- A step keeps what waits in order, and hands over in order. -/
theorem LagInv.step {s s' : LagRun} {e : LagEvent} (h : LagInv s)
    (hs : lagMachine.step s e = some s') : LagInv s' := by
  obtain ⟨done, waiting, hqueued, hhanded, hwaiting⟩ := h.split
  cases e with
  | put b now callocOk sendOk =>
      simp only [lagMachine, lagStep] at hs
      split at hs
      · next hclock =>
          obtain rfl := Option.some.inj hs
          obtain ⟨hok, hitems⟩ := h.ok.put b now callocOk sendOk
          have horder := h.order.mono hclock
          refine ⟨hok, ?_, ?_⟩
          · simp only [hitems]
            split
            · exact horder.push b
            · exact horder
          · simp only [hitems]
            split
            · refine ⟨done, waiting ++ [⟨b, now⟩], by rw [hqueued, List.append_assoc], hhanded, ?_⟩
              exact List.rel_append hwaiting (.cons ⟨rfl, rfl⟩ .nil)
            · exact ⟨done, waiting, hqueued, hhanded, hwaiting⟩
      · cases hs
  | service old dual won now res =>
      simp only [lagMachine, lagStep] at hs
      split at hs
      · next hclock =>
          obtain rfl := Option.some.inj hs
          obtain ⟨hitems, hout, -, -, -⟩ := rotLagService_eq s.queue h.ok.ring old dual won now res
          have horder := h.order.mono hclock
          refine ⟨h.ok.service old dual won now res, ?_, ?_⟩
          · simp only [hitems]
            exact horder.sublist (lagService_suffix _ old dual won now).sublist
          · obtain ⟨done', waiting', rfl, hdone', hwaiting'⟩ :=
              handed_lagService hwaiting horder old dual won
            simp only [hitems, hout]
            refine ⟨done ++ done', waiting', by rw [hqueued, List.append_assoc], ?_, hwaiting'⟩
            exact sublistForall₂_append hhanded hdone'
      · cases hs
  | reset =>
      obtain rfl := Option.some.inj hs
      refine ⟨⟨h.ok.ring.clear, fun _ => rfl⟩, ⟨List.Pairwise.nil, nofun⟩, ?_⟩
      have hsub : List.SublistForall₂ HandedOver s.handed (done ++ waiting) := by
        have happ := sublistForall₂_append hhanded (List.SublistForall₂.nil (l := waiting))
        rwa [List.append_nil] at happ
      exact ⟨done ++ waiting, [], by rw [hqueued, List.append_nil], hsub, .nil⟩

/-- **The copies leave in order, each once and with its own bytes, and none too early.** -/
theorem lagFaithful (now : ℕ) (es : List LagEvent) (t : LagRun)
    (hrun : lagMachine.run (.start now) es = some t) : LagFaithful t := by
  have h := Machine.run_induction (fun _ _ _ => LagInv.step) (LagInv.start now) hrun
  obtain ⟨done, waiting, hqueued, hhanded, -⟩ := h.split
  refine ⟨h.ok.ring.head_lt, h.ok.ring.n_le, ?_, fun old dual won now res hclock => ?_⟩
  · have happ := sublistForall₂_append hhanded (List.SublistForall₂.nil (l := waiting))
    rwa [List.append_nil, ← hqueued] at happ
  · exact serviceFaithful h.ok.ring h.order hclock old dual won res

/-- A service on a queue as it runs. -/
theorem LagInv.exists_service {s : LagRun} (h : LagInv s) (old : ℤ) (dual won : Bool) (now : ℕ)
    (res : List ℤ) (hclock : s.clock ≤ now) :
    ∃ t, lagMachine.step s (.service old dual won now res) = some t ∧ LagInv t ∧ t.clock = now ∧
      t.queue.items = (lagService s.queue.items old dual won now).1 ∧
      t.handed = s.handed ++
        (lagService s.queue.items old dual won now).2.map (⟨·, now, dual⟩) := by
  obtain ⟨hitems, hout, -⟩ := rotLagService_eq s.queue h.ok.ring old dual won now res
  have hstep : lagMachine.step s (.service old dual won now res) = some _ := if_pos hclock
  exact ⟨_, hstep, h.step hstep, rfl, hitems, by rw [← hout]⟩

/-- Two copies, of which the second waits behind the first. -/
def twoPuts : List LagEvent :=
  [.put [7] 0 true true, .put [8] 20000 true true]

/-- Each is handed over when it is due. -/
theorem lagFaithful_due : ∃ t,
    lagMachine.run (.start 0) (twoPuts ++
      [.service 5 true false 50000 [1], .service 5 true false 80000 [1]]) = some t ∧
      t.handed = [⟨[7], 50000, true⟩, ⟨[8], 80000, true⟩] ∧ LagFaithful t := by
  obtain ⟨s, hputs, hhanded, hqueued, hclock⟩ : ∃ s, lagMachine.run (.start 0) twoPuts = some s ∧
      s.handed = [] ∧ s.queue.items = [⟨50000, [7]⟩, ⟨70000, [8]⟩] ∧ s.clock = 20000 :=
    ⟨_, rfl, rfl, rfl, rfl⟩
  have hs := Machine.run_induction (fun _ _ _ => LagInv.step) (LagInv.start 0) hputs
  obtain ⟨u, hu, hinv, hclock', hitems, hfirst⟩ :=
    hs.exists_service 5 true false 50000 [1] (by omega)
  obtain ⟨t, ht, -, -, -, hsecond⟩ :=
    hinv.exists_service 5 true false 80000 [1] (by omega)
  have hrun : lagMachine.run (.start 0) (twoPuts ++
      [.service 5 true false 50000 [1], .service 5 true false 80000 [1]]) = some t := by
    rw [Machine.run_append, hputs, Option.bind_some, Machine.run_cons, hu, Option.bind_some,
      Machine.run_cons, ht]
    rfl
  refine ⟨t, hrun, ?_, lagFaithful 0 _ _ hrun⟩
  rw [hsecond, hitems, hfirst, hhanded, hqueued]
  rfl

end AwgProxy
