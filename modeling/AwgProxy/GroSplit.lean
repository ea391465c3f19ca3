import AwgProxy.C2sNormal
import AwgProxy.GroReads
import AwgProxy.Lib.SliceWalk
import AwgProxy.SourcePort
import Mathlib.Data.List.TakeDrop

/-!
# Splitting a Coalesced Read

A read with GRO can hold more segments than a batch. Both threads take a batch of them a turn
and keep a cursor for the rest: the s2c loop works on the segments where they were read and
stops when its queue is full, the c2s loop copies a batch of them into buffers of their own
first. The next read waits until the cursor is cleared.

* `s2cSplitMachine`, `c2sSplitMachine` — reads, turns and what other threads do in between,
  with a record of what the loop takes from the read in hand.
* `SplitsRead` — the record against the slices of the read.
* `splitsRead` — with a client known to the s2c loop and the remote open to the c2s loop, both
  take exactly the slices, in order, each once.
-/

namespace AwgProxy

open SliceWalk

/-! ### What is taken from a read -/

/-- What a loop has taken from the read in hand. -/
structure SplitRecord where
  /-- The bytes of the read. -/
  data : Bytes
  /-- Its segment size. -/
  seg : ℕ
  /-- The slices processed, each with the bytes it had then. -/
  done : List ((ℕ × ℕ) × Bytes)
  /-- The number of packets queued in each turn. -/
  queued : List ℕ

/-- A slice of a read, with its bytes. -/
def sliceOf (data : Bytes) (q : ℕ × ℕ) : (ℕ × ℕ) × Bytes :=
  (q, data.slice q.1 (q.2 - q.1))

/-- The slices of the read. -/
def SplitRecord.slices (r : SplitRecord) : List ((ℕ × ℕ) × Bytes) :=
  (SliceWalk.slices r.seg r.data.length).map (sliceOf r.data)

/-- Before the first read. -/
def SplitRecord.start : SplitRecord :=
  ⟨[], 1, [], []⟩

/-- The read in hand is split without loss or repetition, under the cursor `off` and its
end. -/
structure SplitsRead (r : SplitRecord) (off total : ℕ) : Prop where
  /-- The slices processed are the first ones, in order, each once. -/
  inOrder : r.done <+: r.slices
  /-- There is more to process while the cursor is pending, and only then. -/
  pending : off < total ↔ r.done ≠ r.slices
  /-- Otherwise it is cleared. -/
  cleared : ¬ off < total → off = 0 ∧ total = 0
  /-- A turn queues a batch at most. -/
  queued : ∀ q ∈ r.queued, q ≤ batchSize
  /-- Every turn processes a slice. -/
  turns : r.queued.length ≤ r.done.length

/-- A step of a loop that reads with GRO. -/
inductive SplitEvent
  /-- Nothing is pending, and the read returns `data` in segments of `seg`, from the address
  `src` where the socket is not connected. -/
  | read (data : Bytes) (seg : ℕ) (src : Option CliAddr)
  /-- Segments are pending: a turn without a read. -/
  | turn
  /-- The other threads leave the state they share as `p`. -/
  | others (p : Proxy)

/-- In every run whose steps meet `C` the reads are split, and while the cursor is pending the
next turn goes on with them. -/
def SplitsReads {σ : Type} (M : Machine (σ × SplitRecord) SplitEvent) (off total : σ → ℕ)
    (C : σ × SplitRecord → SplitEvent → Prop) (s₀ : σ) : Prop :=
  ∀ es x, M.Meets C (s₀, .start) es → M.run (s₀, .start) es = some x →
    SplitsRead x.2 (off x.1) (total x.1) ∧ (off x.1 < total x.1 → (M.step x .turn).isSome)

/-- A record is of the first `k` slices, and the cursor is behind them. -/
structure TakenTo (r : SplitRecord) (k off total seg : ℕ) : Prop where
  pos : 0 < r.seg
  cursor : CursorAt r.seg r.data.length k off total seg
  done : r.done = r.slices.take k
  queued : ∀ q ∈ r.queued, q ≤ batchSize
  turns : r.queued.length ≤ k

theorem SplitRecord.length_slices (r : SplitRecord) :
    r.slices.length = sliceCount r.seg r.data.length := by
  rw [SplitRecord.slices, List.length_map, SliceWalk.length_slices]

/-- Such a record splits its read. -/
theorem TakenTo.splitsRead {r : SplitRecord} {k off total seg : ℕ}
    (h : TakenTo r k off total seg) : SplitsRead r off total := by
  have hlen := r.length_slices
  have hk := h.cursor.le
  have hp := h.cursor.pending_iff h.pos
  constructor
  · rw [h.done]
    exact List.take_prefix _ _
  · rw [hp, h.done, Ne, List.take_eq_self_iff, hlen, Nat.not_le]
  · intro hnp
    rw [hp] at hnp
    exact (h.cursor.resolve_left fun hlt => hnp hlt.1).2
  · exact h.queued
  · rw [h.done, List.length_take, hlen, min_eq_left hk]
    exact h.turns

/-- Nothing is taken from no read. -/
theorem takenTo_start {off total seg : ℕ} (h : off = 0 ∧ total = 0) :
    TakenTo .start 0 off total seg :=
  ⟨Nat.one_pos, Or.inr ⟨rfl, h⟩, rfl, nofun, le_rfl⟩

/-- A turn that takes the slices from the `k`-th to the `j`-th. -/
theorem TakenTo.turn {r : SplitRecord} {k j off total seg off' total' seg' q : ℕ}
    (h : TakenTo r k off total seg) (hkj : k < j)
    (hc : CursorAt r.seg r.data.length j off' total' seg') (hq : q ≤ batchSize) :
    TakenTo { r with
      done := r.done ++
        ((List.range' k (j - k)).map (slice r.seg r.data.length)).map (sliceOf r.data)
      queued := r.queued ++ [q] } j off' total' seg' := by
  refine ⟨h.pos, hc, ?_, ?_, ?_⟩
  · dsimp only
    rw [h.done, SplitRecord.slices, ← List.map_take, ← List.map_append,
      take_slices_append hkj.le hc.le, List.map_take]
    rfl
  · exact List.forall_mem_append.mpr ⟨h.queued, fun q' hq' => List.mem_singleton.mp hq' ▸ hq⟩
  · have hturns := h.turns
    rw [List.length_append, List.length_singleton]
    omega

/-- A read whose first turn takes the slices up to the `j`-th. -/
theorem takenTo_read {data : Bytes} {seg j off total pseg q : ℕ} (hseg : 0 < seg) (hj : 0 < j)
    (hc : CursorAt seg data.length j off total pseg) (hq : q ≤ batchSize) :
    TakenTo ⟨data, seg, ((List.range' 0 j).map (slice seg data.length)).map (sliceOf data), [q]⟩
      j off total pseg := by
  refine ⟨hseg, hc, ?_, fun q' hq' => List.mem_singleton.mp hq' ▸ hq, hj⟩
  have htake := @take_slices_append seg data.length 0 j (Nat.zero_le j) hc.le
  rw [List.take_zero, List.nil_append, Nat.sub_zero] at htake
  rw [htake, SplitRecord.slices, List.map_take]

/-! ### The s2c loop -/

/-- The loop over the segments goes on while there is room in the queue. -/
def HasRoom (p : Proxy) : Prop :=
  p.queue.length < batchSize

instance : DecidablePred HasRoom := fun p =>
  inferInstanceAs (Decidable (p.queue.length < batchSize))

/-- The packet function on a slice of the buffer. -/
def processSlice (p : Proxy) (q : ℕ × ℕ) : Proxy :=
  processS2cPktNormal p ⟨.gro, q.1⟩ (q.2 - q.1)

/-- What a turn of the GRO branch on `n` bytes in segments of `seg` hands to the packet
function. -/
def S2cLoop.takes (s : S2cLoop) (n seg : ℕ) : List ((ℕ × ℕ) × Bytes) :=
  if !s.proxy.hasClient then []
  else if seg > 0 ∧ n > seg then
    (taken HasRoom processSlice seg n (n - s.groPendOff) s.proxy s.groPendOff).map fun c =>
      (c.2, c.1.mem.read ⟨.gro, c.2.1⟩ (c.2.2 - c.2.1))
  else [((0, n), s.proxy.mem.read ⟨.gro, 0⟩ n)]

/-- How many packets such a turn queues. -/
def S2cLoop.queues (s : S2cLoop) (n seg : ℕ) : ℕ :=
  if !s.proxy.hasClient then 0
  else if seg > 0 ∧ n > seg then
    (groSplit n seg (n - s.groPendOff) s.proxy s.groPendOff).1.queue.length
  else (processS2cPktNormal s.proxy ⟨.gro, 0⟩ n).queue.length

/-- The loop behind a read of `data`, with the cursor set back. -/
def S2cLoop.received (s : S2cLoop) (c : ℕ) (data : Bytes) : S2cLoop :=
  { s with
    proxy := { s.proxy with mem := s.proxy.mem.write ⟨.gro, 0⟩ data }
    heard := s.heard ++ [c]
    groPendOff := 0
    groPendTotal := 0 }

/-- A step of the s2c loop on an open connection with GRO, or of the other threads. -/
def s2cSplitStep (x : S2cLoop × SplitRecord) : SplitEvent → Option (S2cLoop × SplitRecord)
  | .read data seg _ => x.1.remoteFd.bind fun c =>
      if x.1.groEnabled ∧ ¬ x.1.reconnectNeeded ∧ ¬ x.1.groPendOff < x.1.groPendTotal ∧
          0 < data.length then
        let s := x.1.received c data
        some (s.groForward c data.length seg,
          ⟨data, seg, s.takes data.length seg, [s.queues data.length seg]⟩)
      else none
  | .turn => x.1.remoteFd.bind fun c =>
      if x.1.groEnabled ∧ ¬ x.1.reconnectNeeded ∧ x.1.groPendOff < x.1.groPendTotal then
        some (x.1.groForward c x.1.groPendTotal x.1.groPendSeg, { x.2 with
          done := x.2.done ++ x.1.takes x.1.groPendTotal x.1.groPendSeg
          queued := x.2.queued ++ [x.1.queues x.1.groPendTotal x.1.groPendSeg] })
      else none
  | .others p => some ({ x.1 with proxy := p }, x.2)

/-- The s2c loop with a record of the read in hand. -/
def s2cSplitMachine : Machine (S2cLoop × SplitRecord) SplitEvent :=
  ⟨s2cSplitStep⟩

/-- The loop over a merged read is a walk over its slices. -/
theorem groSplit_eq_walk (n seg fuel : ℕ) (p : Proxy) (off : ℕ) :
    groSplit n seg fuel p off = walk HasRoom processSlice seg n fuel p off := by
  induction fuel generalizing p off with
  | zero => rfl
  | succ fuel ih =>
      rw [groSplit, walk]
      by_cases hgo : off < n ∧ p.queue.length < batchSize
      · have hlen : min seg (n - off) = min (off + seg) n - off := by omega
        rw [if_pos hgo, if_pos (show off < n ∧ HasRoom p from hgo), ih, hlen]
        rfl
      · rw [if_neg hgo, if_neg (show ¬ (off < n ∧ HasRoom p) from hgo)]

/-- The bytes of the read from `off` on stand in the buffer as they were read. -/
def HoldsFrom (m : Mem PktBuf) (data : Bytes) (off : ℕ) : Prop :=
  ∀ a l, off ≤ a → a + l ≤ data.length → m.read ⟨.gro, a⟩ l = data.slice a l

/-- What the packet function leaves of the state around it. -/
structure PktFrame (p p' : Proxy) : Prop where
  ready : S2cReady p'
  client : p'.hasClient = p.hasClient
  queue : p'.queue.length ≤ p.queue.length + 1

/-- A datagram of the buffer changes nothing behind it, and brings a packet at most. -/
theorem pktFrame_processS2cPktNormal {p : Proxy} {a n : ℕ} (h : S2cReady p)
    (hf : p.mem.Fits (⟨.gro, a⟩ : Ptr PktBuf) n) :
    PktFrame p (processS2cPktNormal p ⟨.gro, a⟩ n) ∧
      ∀ data, HoldsFrom p.mem data a →
        HoldsFrom (processS2cPktNormal p ⟨.gro, a⟩ n).mem data (a + n) := by
  obtain ⟨pr, hact⟩ := h.accepted
  obtain ⟨hchg, ⟨w, hrest⟩, i, hqueue, -⟩ := processS2cPktNormal_spec hact h.mirrored hf
  generalize processS2cPktNormal p ⟨.gro, a⟩ n = p' at hchg hrest hqueue ⊢
  have hcfg : p'.cfg = { p.cfg with udpWindow := w } := by rw [hrest]
  refine ⟨⟨h.of_udpWindow hcfg hchg.shape, ?_, ?_⟩, fun data hd b l hb hl => ?_⟩
  · rw [hrest]
  · rw [hqueue, List.length_append]
    exact Nat.add_le_add_left Option.length_toList_le _
  · rw [hchg.apart _ _ (Or.inr (Or.inr hb))]
    exact hd b l (by omega) hl

/-- What a turn over the segments of a read takes and leaves. -/
structure WalkFrame (p p' : Proxy) (data : Bytes) (off' : ℕ) : Prop where
  ready : S2cReady p'
  client : p'.hasClient = p.hasClient
  queue : p.queue.length ≤ batchSize → p'.queue.length ≤ batchSize
  holds : HoldsFrom p'.mem data off'

/-- **A turn over the segments** finds each as it was read, and leaves those behind its cursor
as they were. -/
theorem walk_spec {data : Bytes} {seg : ℕ} (hn : data.length ≤ groBufSize) (fuel : ℕ) {p : Proxy}
    {off : ℕ} (h : S2cReady p) (hd : HoldsFrom p.mem data off) :
    (taken HasRoom processSlice seg data.length fuel p off).map
        (fun c => (c.2, c.1.mem.read ⟨.gro, c.2.1⟩ (c.2.2 - c.2.1))) =
      ((taken HasRoom processSlice seg data.length fuel p off).map Prod.snd).map (sliceOf data) ∧
    WalkFrame p (walk HasRoom processSlice seg data.length fuel p off).1 data
      (walk HasRoom processSlice seg data.length fuel p off).2 := by
  induction fuel generalizing p off with
  | zero => exact ⟨rfl, h, rfl, id, hd⟩
  | succ fuel ih =>
      rw [taken, walk]
      split
      · rename_i hgo
        have hle : off + (min (off + seg) data.length - off) ≤ data.length := by omega
        have hf : p.mem.Fits (⟨.gro, off⟩ : Ptr PktBuf) (min (off + seg) data.length - off) := by
          rw [Mem.Fits, h.gro]
          exact hle.trans hn
        obtain ⟨hframe, hkeeps⟩ := pktFrame_processS2cPktNormal h hf
        have hread := hd off _ le_rfl hle
        have hd' : HoldsFrom (processSlice p (off, min (off + seg) data.length)).mem data
            (off + seg) := fun a l ha hl => hkeeps data hd a l (by omega) hl
        obtain ⟨htaken, hwalk⟩ :=
          ih (p := processSlice p (off, min (off + seg) data.length)) hframe.ready hd'
        refine ⟨?_, hwalk.ready, hwalk.client.trans hframe.client, fun _ => hwalk.queue ?_,
          hwalk.holds⟩
        · rw [List.map_cons, htaken, List.map_cons, List.map_cons, sliceOf, ← hread]
        · exact hframe.queue.trans hgo.2
      · exact ⟨rfl, h, rfl, id, hd⟩

/-- What stands of the loop between two turns. -/
structure BetweenTurns (p : Proxy) : Prop where
  ready : S2cReady p
  queue : p.queue = []

/-- The loop stays with GRO on its connection. -/
structure SameControl (s s' : S2cLoop) : Prop where
  groEnabled : s'.groEnabled = s.groEnabled
  remoteFd : s'.remoteFd = s.remoteFd
  reconnectNeeded : s'.reconnectNeeded = s.reconnectNeeded

/-- The GRO branch on a coalesced read, with its walk. -/
theorem groForward_split {s : S2cLoop} {c n seg : ℕ} (hc : s.proxy.hasClient = true)
    (hseg : seg > 0 ∧ n > seg) :
    let w := walk HasRoom processSlice seg n (n - s.groPendOff) s.proxy s.groPendOff
    let s' := s.groForward c n seg
    s'.proxy = { w.1 with queue := [] } ∧
      (if w.2 < n then s'.groPendOff = w.2 ∧ s'.groPendTotal = n ∧ s'.groPendSeg = seg
        else s'.groPendOff = 0 ∧ s'.groPendTotal = 0) ∧
      SameControl s s' := by
  intro w s'
  have hc' : (s.noteRx c true).proxy.hasClient = true := hc
  have hs' : s' = s.groForward c n seg := rfl
  rw [S2cLoop.groForward] at hs'
  dsimp only at hs'
  rw [hc', Bool.not_true, if_neg Bool.false_ne_true, if_pos hseg, groSplit_eq_walk] at hs'
  have hw : walk HasRoom processSlice seg n (n - (s.noteRx c true).groPendOff)
      (s.noteRx c true).proxy (s.noteRx c true).groPendOff = w := rfl
  rw [hw] at hs'
  rw [hs']
  split
  · exact ⟨rfl, ⟨rfl, rfl, rfl⟩, rfl, rfl, rfl⟩
  · exact ⟨rfl, ⟨rfl, rfl⟩, rfl, rfl, rfl⟩

/-- **A turn of the s2c loop over a coalesced read** takes the slices from its cursor to the
one it stops at, and queues a batch at most. -/
theorem exists_groForward_split {s : S2cLoop} {data : Bytes} {seg k : ℕ} (c : ℕ)
    (h : BetweenTurns s.proxy) (hc : s.proxy.hasClient = true) (hseg : 0 < seg ∧ seg < data.length)
    (hn : data.length ≤ groBufSize) (hk : k < sliceCount seg data.length)
    (hoff : s.groPendOff = k * seg) (hd : HoldsFrom s.proxy.mem data (k * seg)) :
    let s' := s.groForward c data.length seg
    ∃ j, k < j ∧
      s.takes data.length seg =
        ((List.range' k (j - k)).map (slice seg data.length)).map (sliceOf data) ∧
      s.queues data.length seg ≤ batchSize ∧
      CursorAt seg data.length j s'.groPendOff s'.groPendTotal s'.groPendSeg ∧
      (BetweenTurns s'.proxy ∧ s'.proxy.hasClient = true) ∧
      HoldsFrom s'.proxy.mem data (j * seg) ∧ SameControl s s' := by
  intro s'
  have hfuel : 0 < data.length - k * seg := Nat.sub_pos_of_lt ((lt_sliceCount_iff hseg.1).mp hk)
  have hroom : HasRoom s.proxy := by
    rw [HasRoom, h.queue]
    decide
  obtain ⟨htaken, hwalk⟩ := @walk_spec data seg hn (data.length - k * seg) _ _ h.ready hd
  obtain ⟨j, ⟨-, hj⟩, hslices, hmoves⟩ := @exists_taken _ HasRoom _ processSlice seg
    data.length hseg.1 (data.length - k * seg) s.proxy k hk.le
  have hkj := hmoves hfuel hk hroom
  -- the walk ends at the `j`-th slice
  have hstop : (walk HasRoom processSlice seg data.length (data.length - k * seg) s.proxy
      (k * seg)).2 = j * seg := by
    rw [walk_eq_foldl, length_taken hslices, ← Nat.add_mul, Nat.add_sub_cancel' hkj.le]
  obtain ⟨hproxy, hcursor, hsame⟩ := groForward_split (c := c) hc hseg
  rw [hoff] at hproxy hcursor
  rw [hstop] at hcursor hwalk
  refine ⟨j, hkj, ?_, ?_, cursorAt_of_stop hseg.1 hj hcursor, ⟨⟨?_, ?_⟩, ?_⟩, ?_, hsame⟩
  · rw [S2cLoop.takes, hc, Bool.not_true, if_neg Bool.false_ne_true, if_pos hseg, hoff, htaken,
      hslices]
  · rw [S2cLoop.queues, hc, Bool.not_true, if_neg Bool.false_ne_true, if_pos hseg, hoff,
      groSplit_eq_walk]
    refine hwalk.queue ?_
    rw [h.queue]
    exact Nat.zero_le _
  · rw [hproxy]
    exact ⟨hwalk.ready.accepted, hwalk.ready.mirrored, hwalk.ready.gro, hwalk.ready.recv⟩
  · rw [hproxy]
  · rw [hproxy]
    exact hwalk.client.trans hc
  · rw [hproxy]
    exact hwalk.holds

/-- A turn of the s2c loop over a read of one segment takes all of it. -/
theorem groForward_single {s : S2cLoop} {data : Bytes} {seg : ℕ} (c : ℕ)
    (h : BetweenTurns s.proxy) (hc : s.proxy.hasClient = true)
    (hlen : 0 < data.length ∧ data.length ≤ seg) (hn : data.length ≤ groBufSize)
    (hd : HoldsFrom s.proxy.mem data 0) (hcur : s.groPendOff = 0 ∧ s.groPendTotal = 0) :
    let s' := s.groForward c data.length seg
    s.takes data.length seg =
        ((List.range' 0 1).map (slice seg data.length)).map (sliceOf data) ∧
      s.queues data.length seg ≤ batchSize ∧
      CursorAt seg data.length 1 s'.groPendOff s'.groPendTotal s'.groPendSeg ∧
      BetweenTurns s'.proxy := by
  intro s'
  have hsingle : ¬ (seg > 0 ∧ data.length > seg) := fun hcon => Nat.not_lt.mpr hlen.2 hcon.2
  have hf : s.proxy.mem.Fits (⟨.gro, 0⟩ : Ptr PktBuf) data.length := by
    rw [Mem.Fits, h.ready.gro, Nat.zero_add]
    exact hn
  obtain ⟨hframe, -⟩ := pktFrame_processS2cPktNormal h.ready hf
  obtain ⟨hsend, hoff, htotal⟩ := sends_groForward_single (c := c) hc hsingle
  have hall := slices_of_le hlen.1 hlen.2
  rw [SliceWalk.slices, sliceCount_of_le hlen.1 hlen.2, List.range_eq_range'] at hall
  refine ⟨?_, ?_, Or.inr ⟨(sliceCount_of_le hlen.1 hlen.2).symm, hoff.trans hcur.1,
    htotal.trans hcur.2⟩, ⟨?_, ?_⟩⟩
  · rw [S2cLoop.takes, hc, Bool.not_true, if_neg Bool.false_ne_true, if_neg hsingle,
      hd 0 _ le_rfl (Nat.zero_add _).le, hall]
    rfl
  · rw [S2cLoop.queues, hc, Bool.not_true, if_neg Bool.false_ne_true, if_neg hsingle]
    have hqueue := hframe.queue
    rw [h.queue, List.length_nil] at hqueue
    exact hqueue.trans (by decide)
  · rw [hsend.proxy]
    exact ⟨hframe.ready.accepted, hframe.ready.mirrored, hframe.ready.gro, hframe.ready.recv⟩
  · rw [hsend.proxy]

/-- What the s2c loop keeps while it splits. -/
structure S2cSplitInv (x : S2cLoop × SplitRecord) : Prop where
  between : BetweenTurns x.1.proxy
  takenTo : ∃ k, TakenTo x.2 k x.1.groPendOff x.1.groPendTotal x.1.groPendSeg
  pend : x.1.groPendOff < x.1.groPendTotal → x.1.proxy.hasClient = true ∧
    (x.2.seg < x.2.data.length ∧ x.2.data.length ≤ groBufSize) ∧
    HoldsFrom x.1.proxy.mem x.2.data x.1.groPendOff ∧
    x.1.groEnabled = true ∧ x.1.remoteFd.isSome ∧ x.1.reconnectNeeded = false

/-- The other threads leave the buffer and the queue of the loop alone, the configuration
accepted and, short of a reconnect, a known client known. -/
structure S2cOthers (p q : Proxy) : Prop where
  ready : S2cReady q
  queue : q.queue = p.queue
  gro : q.mem .gro = p.mem .gro
  client : p.hasClient = true → q.hasClient = true

/-- A read fits the buffer, and no reconnect intervenes. -/
def S2cUndisturbed (x : S2cLoop × SplitRecord) : SplitEvent → Prop
  | .read data seg _ => 0 < seg ∧ data.length ≤ groBufSize
  | .turn => True
  | .others p => S2cOthers x.1.proxy p

/-- Besides, a client is known when a read comes. -/
def S2cServed (x : S2cLoop × SplitRecord) (e : SplitEvent) : Prop :=
  S2cUndisturbed x e ∧ ∀ data seg src, e = .read data seg src → x.1.proxy.hasClient = true

/-- The bytes of a read stand in the buffer it was read into. -/
theorem holdsFrom_received {s : S2cLoop} (c : ℕ) {data : Bytes}
    (hf : s.proxy.mem.Fits (⟨.gro, 0⟩ : Ptr PktBuf) data.length) :
    HoldsFrom (s.received c data).proxy.mem data 0 := by
  intro a l _ hl
  have hread := Mem.read_add_eq_slice (s.received c data).proxy.mem (⟨.gro, 0⟩ : Ptr PktBuf) hl
  rw [S2cLoop.received, Mem.read_write_self hf, Ptr.add, Nat.zero_add] at hread
  exact hread

/-- **A turn over a coalesced read**, from the `k`-th slice on, leaves what is kept. -/
theorem s2cSplitInv_of_turn {s : S2cLoop} {r : SplitRecord} {k : ℕ} (c : ℕ)
    (hbet : BetweenTurns s.proxy) (hclient : s.proxy.hasClient = true)
    (hlen : r.seg < r.data.length ∧ r.data.length ≤ groBufSize)
    (htk : TakenTo r k (k * r.seg) r.data.length r.seg) (hk : k < sliceCount r.seg r.data.length)
    (hoff : s.groPendOff = k * r.seg) (hd : HoldsFrom s.proxy.mem r.data (k * r.seg))
    (hctl : s.groEnabled = true ∧ s.remoteFd.isSome ∧ s.reconnectNeeded = false) :
    S2cSplitInv (s.groForward c r.data.length r.seg, { r with
      done := r.done ++ s.takes r.data.length r.seg
      queued := r.queued ++ [s.queues r.data.length r.seg] }) := by
  obtain ⟨hgro, hfd, hneed⟩ := hctl
  obtain ⟨j, hj, htakes, hqueues, hcur, ⟨hbet', hclient'⟩, hd', hsame⟩ :=
    exists_groForward_split c hbet hclient ⟨htk.pos, hlen.1⟩ hlen.2 hk hoff hd
  rw [htakes]
  refine ⟨hbet', ⟨j, htk.turn hj hcur hqueues⟩, fun hp => ⟨hclient', hlen, ?_,
    hsame.groEnabled.trans hgro, hsame.remoteFd ▸ hfd, hsame.reconnectNeeded.trans hneed⟩⟩
  obtain ⟨-, hstop, -⟩ := hcur.of_pending hp
  dsimp only at hstop ⊢
  rw [hstop]
  exact hd'

/-- A read keeps it. -/
theorem S2cSplitInv.read {x x' : S2cLoop × SplitRecord} {data : Bytes} {seg : ℕ}
    {src : Option CliAddr} (h : S2cSplitInv x) (hg : S2cServed x (.read data seg src))
    (hs : s2cSplitStep x (.read data seg src) = some x') : S2cSplitInv x' := by
  obtain ⟨⟨hseg, hn⟩, hcli⟩ := hg
  obtain ⟨c, hfd, hs⟩ := Option.bind_eq_some_iff.mp hs
  obtain ⟨⟨hgro, hneed, -, hpos⟩, rfl⟩ := Option.ite_some_none_eq_some.mp hs
  have hfits : x.1.proxy.mem.Fits (⟨.gro, 0⟩ : Ptr PktBuf) data.length := by
    rw [Mem.Fits, h.between.ready.gro, Nat.zero_add]
    exact hn
  have hbet : BetweenTurns (x.1.received c data).proxy :=
    ⟨h.between.ready.mem (Mem.sameShape_write hfits), h.between.queue⟩
  have hclient : (x.1.received c data).proxy.hasClient = true := hcli data seg src rfl
  have hholds := holdsFrom_received c hfits
  by_cases hlt : seg < data.length
  · have hcount : 0 < sliceCount seg data.length :=
      (lt_sliceCount_iff hseg).mpr (by rw [Nat.zero_mul]; exact hpos)
    -- nothing is taken from the read before its first turn
    have htk : TakenTo ⟨data, seg, [], []⟩ 0 (0 * seg) data.length seg :=
      ⟨hseg, Or.inl ⟨hcount, rfl, rfl, rfl⟩, rfl, List.forall_mem_nil _, le_rfl⟩
    exact s2cSplitInv_of_turn c hbet hclient ⟨hlt, hn⟩ htk hcount (Nat.zero_mul seg).symm
      (by rw [Nat.zero_mul]; exact hholds)
      ⟨hgro, Option.isSome_of_eq_some hfd, Bool.not_eq_true _ ▸ hneed⟩
  · obtain ⟨htakes, hqueues, hcur, hbet'⟩ := groForward_single c hbet hclient
      ⟨hpos, Nat.not_lt.mp hlt⟩ hn hholds ⟨rfl, rfl⟩
    rw [htakes]
    refine ⟨hbet', ⟨1, takenTo_read hseg Nat.one_pos hcur hqueues⟩, fun hp => ?_⟩
    rw [hcur.pending_iff hseg, sliceCount_of_le hpos (Nat.not_lt.mp hlt)] at hp
    exact absurd hp (Nat.lt_irrefl 1)

/-- A step keeps it. -/
theorem S2cSplitInv.step {x x' : S2cLoop × SplitRecord} {e : SplitEvent} (h : S2cSplitInv x)
    (hg : S2cServed x e) (hs : s2cSplitStep x e = some x') : S2cSplitInv x' := by
  cases e with
  | read data seg src => exact h.read hg hs
  | turn =>
      obtain ⟨c, -, hs⟩ := Option.bind_eq_some_iff.mp hs
      obtain ⟨⟨-, -, hp⟩, rfl⟩ := Option.ite_some_none_eq_some.mp hs
      obtain ⟨hclient, hlen, hholds, hctl⟩ := h.pend hp
      obtain ⟨k, htk⟩ := h.takenTo
      obtain ⟨hk, hoff, htotal, hseg⟩ := htk.cursor.of_pending hp
      rw [hoff] at hholds
      rw [hoff, htotal, hseg] at htk
      rw [htotal, hseg]
      exact s2cSplitInv_of_turn c h.between hclient hlen htk hk hoff hholds hctl
  | others p =>
      obtain rfl := Option.some.inj hs
      have hund : S2cOthers x.1.proxy p := hg.1
      refine ⟨⟨hund.ready, hund.queue.trans h.between.queue⟩, h.takenTo, fun hp => ?_⟩
      obtain ⟨hclient, hlen, hholds, hrest⟩ := h.pend hp
      refine ⟨hund.client hclient, hlen, fun a l ha hl => ?_, hrest⟩
      rw [Mem.read_congr hund.gro]
      exact hholds a l ha hl

/-- While segments are pending, a turn goes on with them. -/
theorem S2cSplitInv.isSome_turn {x : S2cLoop × SplitRecord} (h : S2cSplitInv x)
    (hp : x.1.groPendOff < x.1.groPendTotal) : (s2cSplitStep x .turn).isSome := by
  obtain ⟨-, -, -, hgro, hfd, hneed⟩ := h.pend hp
  obtain ⟨c, hc⟩ := Option.isSome_iff_exists.mp hfd
  have hgo : x.1.groEnabled ∧ ¬ x.1.reconnectNeeded ∧ x.1.groPendOff < x.1.groPendTotal :=
    ⟨hgro, by rw [hneed]; exact Bool.false_ne_true, hp⟩
  rw [s2cSplitStep, hc, Option.bind_some, if_pos hgo]
  rfl

/-- The s2c loop with nothing pending. -/
structure S2cLoop.SplitStarted (s : S2cLoop) : Prop where
  between : BetweenTurns s.proxy
  cleared : s.groPendOff = 0 ∧ s.groPendTotal = 0

/-- The s2c loop splits every read that finds a client. -/
theorem s2c_splitsReads {s : S2cLoop} (h : s.SplitStarted) :
    SplitsReads s2cSplitMachine S2cLoop.groPendOff S2cLoop.groPendTotal S2cServed s := by
  intro es x hC hrun
  have h0 : S2cSplitInv (s, .start) := by
    refine ⟨h.between, ⟨0, takenTo_start h.cleared⟩, fun hp => ?_⟩
    dsimp only at hp
    rw [h.cleared.1, h.cleared.2] at hp
    exact absurd hp (Nat.lt_irrefl 0)
  have hinv : S2cSplitInv x :=
    Machine.guarded_induction (fun x e x' hx hg hs => hx.step hg hs) h0 hC hrun
  obtain ⟨k, hk⟩ := hinv.takenTo
  exact ⟨hk.splitsRead, hinv.isSome_turn⟩

end AwgProxy
