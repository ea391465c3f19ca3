import AwgProxy.GroSplit

/-!
# Splitting a Coalesced Read in the c2s Thread

The c2s loop copies the segments of a coalesced read into the receive buffers, a batch a turn,
and runs the batch as one received without GRO. A segment larger than a buffer ends GRO; none
of at most `BUF_SIZE` bytes does.

* `c2sSplitMachine` — reads, turns and what other threads do in between.
* `exists_forward` — a turn copies the slices from its cursor on, and each reaches the loop of
  the batch with the bytes it was read with.
* `splitsReads` — both directions split every read they serve.
-/

namespace AwgProxy

open SliceWalk

/-! ### The thread -/

/-- `c2s_thread_normal` as far as its GRO branch goes. -/
structure C2sGro where
  /-- What a batch works on. -/
  thread : C2sNormal
  /-- `gro_buf_c2s`. -/
  groBuf : Bytes
  /-- `gro_addr_c2s`, `none` when the kernel has not filled it. -/
  groAddr : Option CliAddr
  /-- `listen_family` is `AF_INET6`. -/
  listenV6 : Bool
  /-- `auto_src_port`. -/
  autoSrcPort : Bool
  /-- `local_port`. -/
  localPort : UInt16
  /-- `reconnect_needed`. -/
  reconnectNeeded : Bool
  /-- `remote_fd`, `none` for `-1`. -/
  remoteFd : Option ℕ
  /-- `gro_enabled_c2s`. -/
  groEnabled : Bool
  /-- `gro_no_coalesce`: reads in a row that merged nothing. -/
  groNoCoalesce : ℕ
  /-- `gro_rearm_in`: batch reads to wait through. -/
  groRearmIn : ℕ
  /-- `gro_rearm_gap`. -/
  groRearmGap : ℕ
  /-- `gro_pend_off`. -/
  groPendOff : ℕ
  /-- `gro_pend_total`. -/
  groPendTotal : ℕ
  /-- `gro_pend_seg`. -/
  groPendSeg : ℕ

/-- What the copy loop leaves. -/
structure C2sCut where
  /-- The buffers. -/
  mem : Mem PktBuf
  /-- What was copied into the receive buffers, in order: the offset in the read and the
  length. -/
  pkts : List (ℕ × ℕ)
  /-- Where it stopped. -/
  off : ℕ
  /-- A segment is larger than a packet buffer. -/
  tooLarge : Bool

/-- The copy loop over the segments from `off` on, `headroom` bytes behind each buffer, while
there are buffers. -/
def c2sCut (buf : Bytes) (headroom total seg : ℕ) :
    ℕ → Mem PktBuf → List (ℕ × ℕ) → ℕ → C2sCut
  | 0, m, pkts, off => ⟨m, pkts, off, false⟩
  | fuel + 1, m, pkts, off =>
      if off < total ∧ pkts.length < batchSize then
        let plen := if off + seg ≤ total then seg else total - off
        -- `nrecv` is 0 again: what was copied is given up
        if plen > awgPacketBufSize then ⟨m, [], off, true⟩
        else
          c2sCut buf headroom total seg fuel
            (m.write ((⟨.recv pkts.length, 0⟩ : Ptr PktBuf).add headroom) (buf.slice off plen))
            (pkts ++ [(off, plen)]) (off + seg)
      else ⟨m, pkts, off, false⟩

/-- The receive of the GRO branch on `total` bytes in segments of `seg`, from `gro_pend_off`
on: the thread with its buffers filled, and what was copied. -/
def C2sGro.copied (s : C2sGro) (total seg : ℕ) : C2sGro × List (ℕ × ℕ) :=
  if seg > 0 ∧ total > seg then
    let cut := c2sCut s.groBuf s.thread.cfg.maxS4 total seg (total - s.groPendOff) s.thread.mem []
      s.groPendOff
    let s := { s with
      thread := { s.thread with mem := cut.mem }
      groEnabled := s.groEnabled && !cut.tooLarge
      groNoCoalesce := if cut.pkts.length > 0 then 0 else s.groNoCoalesce }
    (if cut.off < total then
        { s with groPendOff := cut.off, groPendTotal := total, groPendSeg := seg }
      else { s with groPendOff := 0, groPendTotal := 0 }, cut.pkts)
  else
    let s := { s with groNoCoalesce := s.groNoCoalesce + 1 }
    let s :=
      if s.groNoCoalesce ≥ 8 then { s with groEnabled := false, groRearmIn := s.groRearmGap }
      else s
    if total > awgPacketBufSize then (s, [])
    else
      ({ s with thread := { s.thread with
          mem := s.thread.mem.write ((⟨.recv 0, 0⟩ : Ptr PktBuf).add s.thread.cfg.maxS4)
            (s.groBuf.slice 0 total) } }, [(0, total)])

/-- `note_client_addr` on the address of the read, and the source port behind it. -/
def C2sGro.noteClient (s : C2sGro) : C2sGro :=
  match s.groAddr with
  | none => s
  | some a =>
      if a.isV6 ≠ s.listenV6 then s
      else if s.thread.hasClient && cliaddrEq s.thread.clientAddr a then s
      else
        let s := { s with thread := { s.thread with clientAddr := a, hasClient := true } }
        if s.autoSrcPort && s.localPort ≠ a.port then
          { s with localPort := a.port, reconnectNeeded := true }
        else s

/-- A turn from behind its receive: a batch of datagrams of the lengths `ns`. -/
def C2sGro.batch (s : C2sGro) (ns : List ℕ) : C2sGro :=
  let s := s.noteClient
  if s.remoteFd.isSome then { s with thread := c2sNormalBatch s.thread ns } else s

/-- A turn of the GRO branch on `total` bytes in segments of `seg`. -/
def C2sGro.forward (s : C2sGro) (total seg : ℕ) : C2sGro :=
  let r := s.copied total seg
  if r.2.length = 0 then r.1 else r.1.batch (r.2.map Prod.snd)

/-! ### What a turn takes -/

/-- The datagrams the loop of the batch takes from the buffers from `i` on, as they are when
it takes them. -/
def c2sTaken (p : C2sNormal) (i : ℕ) : List ℕ → List Bytes
  | [] => []
  | n :: ns =>
      let rest := c2sTaken (c2sNormalPkt p i n) (i + 1) ns
      if n = 0 then rest
      else p.mem.read ((⟨.recv i, 0⟩ : Ptr PktBuf).add p.cfg.maxS4) n :: rest

/-- The packets that loop queues: what every datagram leaves in an empty queue. -/
def c2sQueued (p : C2sNormal) (i : ℕ) : List ℕ → ℕ
  | [] => 0
  | n :: ns =>
      (c2sNormalPkt { p with sendC2s := [] } i n).sendC2s.length +
        c2sQueued (c2sNormalPkt p i n) (i + 1) ns

/-- What a turn hands to the loop of the batch. -/
def C2sGro.takes (s : C2sGro) (total seg : ℕ) : List ((ℕ × ℕ) × Bytes) :=
  let r := s.copied total seg
  if r.1.remoteFd.isSome then
    (r.2.map fun q => (q.1, q.1 + q.2)).zip (c2sTaken r.1.noteClient.thread 0 (r.2.map Prod.snd))
  else []

/-- How many packets it queues. -/
def C2sGro.queues (s : C2sGro) (total seg : ℕ) : ℕ :=
  let r := s.copied total seg
  if r.1.remoteFd.isSome then c2sQueued r.1.noteClient.thread 0 (r.2.map Prod.snd) else 0

/-- The thread behind a read of `data` from `src`, with the cursor set back. -/
def C2sGro.received (s : C2sGro) (data : Bytes) (src : Option CliAddr) : C2sGro :=
  { s with groBuf := s.groBuf.patch 0 data, groAddr := src, groPendOff := 0, groPendTotal := 0 }

/-- A step of the c2s loop with GRO, or of the other threads. -/
def c2sSplitStep (x : C2sGro × SplitRecord) : SplitEvent → Option (C2sGro × SplitRecord)
  | .read data seg src =>
      if x.1.groEnabled ∧ ¬ x.1.groPendOff < x.1.groPendTotal ∧ 0 < data.length then
        let s := x.1.received data src
        some (s.forward data.length seg,
          ⟨data, seg, s.takes data.length seg, [s.queues data.length seg]⟩)
      else none
  | .turn =>
      if x.1.groEnabled ∧ x.1.groPendOff < x.1.groPendTotal then
        some (x.1.forward x.1.groPendTotal x.1.groPendSeg, { x.2 with
          done := x.2.done ++ x.1.takes x.1.groPendTotal x.1.groPendSeg
          queued := x.2.queued ++ [x.1.queues x.1.groPendTotal x.1.groPendSeg] })
      else none
  | .others p => some ({ x.1 with thread := { x.1.thread with toProxy := p } }, x.2)

/-- The c2s loop with a record of the read in hand. -/
def c2sSplitMachine : Machine (C2sGro × SplitRecord) SplitEvent :=
  ⟨c2sSplitStep⟩

/-! ### The copy loop -/

/-- The copy loop goes on while there are buffers. -/
def CopyRoom (s : Mem PktBuf × List (ℕ × ℕ)) : Prop :=
  s.2.length < batchSize

instance : DecidablePred CopyRoom := fun s =>
  inferInstanceAs (Decidable (s.2.length < batchSize))

/-- A slice is copied into the next buffer. -/
def copySlice (buf : Bytes) (headroom : ℕ) (s : Mem PktBuf × List (ℕ × ℕ)) (q : ℕ × ℕ) :
    Mem PktBuf × List (ℕ × ℕ) :=
  (s.1.write ((⟨.recv s.2.length, 0⟩ : Ptr PktBuf).add headroom) (buf.slice q.1 (q.2 - q.1)),
    s.2 ++ [(q.1, q.2 - q.1)])

/-- Segments that fit a buffer are copied by a walk over the slices. -/
theorem c2sCut_eq_walk (buf : Bytes) (headroom total : ℕ) {seg : ℕ}
    (hseg : seg ≤ awgPacketBufSize) (fuel : ℕ) (m : Mem PktBuf) (pkts : List (ℕ × ℕ)) (off : ℕ) :
    let w := walk CopyRoom (copySlice buf headroom) seg total fuel (m, pkts) off
    c2sCut buf headroom total seg fuel m pkts off = ⟨w.1.1, w.1.2, w.2, false⟩ := by
  induction fuel generalizing m pkts off with
  | zero => rfl
  | succ fuel ih =>
      rw [c2sCut, walk]
      by_cases hgo : off < total ∧ pkts.length < batchSize
      · have hlen : (if off + seg ≤ total then seg else total - off) =
            min (off + seg) total - off := by
          split <;> omega
        have hfits : ¬ min (off + seg) total - off > awgPacketBufSize := by omega
        rw [if_pos hgo, if_pos (show off < total ∧ CopyRoom (m, pkts) from hgo), hlen]
        dsimp only
        rw [if_neg hfits, ih]
        rfl
      · rw [if_neg hgo, if_neg (show ¬ (off < total ∧ CopyRoom (m, pkts)) from hgo)]

/-- The copies of some slices, by offset and length. -/
theorem foldl_copySlice_snd (buf : Bytes) (headroom : ℕ) (qs : List (ℕ × ℕ))
    (s : Mem PktBuf × List (ℕ × ℕ)) :
    (qs.foldl (copySlice buf headroom) s).2 = s.2 ++ qs.map fun q => (q.1, q.2 - q.1) := by
  induction qs generalizing s with
  | nil => exact (List.append_nil _).symm
  | cons q qs ih =>
      rw [List.foldl_cons, ih, List.map_cons, copySlice, List.append_assoc]
      rfl

/-- What was received in the buffers before and in the next one. -/
theorem c2sReceived_concat (m : Mem PktBuf) (headroom i : ℕ) (ns : List ℕ) (n : ℕ) :
    c2sReceived m headroom i (ns ++ [n]) = c2sReceived m headroom i ns ++
      [m.read ((⟨.recv (i + ns.length), 0⟩ : Ptr PktBuf).add headroom) n] := by
  induction ns generalizing i with
  | nil => rfl
  | cons n' ns ih =>
      rw [List.cons_append, c2sReceived, c2sReceived, ih, List.length_cons,
        show i + 1 + ns.length = i + (ns.length + 1) by omega, List.cons_append]

/-- A write into a later buffer. -/
theorem c2sReceived_write {m : Mem PktBuf} {headroom i j off : ℕ} {ns : List ℕ} (d : Bytes)
    (h : i + ns.length ≤ j) :
    c2sReceived (m.write ⟨.recv j, off⟩ d) headroom i ns = c2sReceived m headroom i ns := by
  induction ns generalizing i with
  | nil => rfl
  | cons n ns ih =>
      rw [List.length_cons] at h
      have hne : PktBuf.recv i ≠ .recv j := fun heq => by
        have := PktBuf.recv.inj heq
        omega
      have hbuf : m.write ⟨.recv j, off⟩ d (.recv i) = m (.recv i) :=
        Mem.write_buf_of_ne m d hne
      rw [c2sReceived, c2sReceived, ih (by omega)]
      congr 1
      exact Mem.read_congr hbuf n

/-- The buffers hold what was copied, and their lengths are the ones before the loop. -/
structure Copied (buf : Bytes) (headroom : ℕ) (m : Mem PktBuf)
    (s : Mem PktBuf × List (ℕ × ℕ)) : Prop where
  room : s.2.length ≤ batchSize
  shape : m.SameShape s.1
  filled : c2sReceived s.1 headroom 0 (s.2.map Prod.snd) = s.2.map fun q => buf.slice q.1 q.2
  len : ∀ q ∈ s.2, 0 < q.2 ∧ q.2 ≤ awgPacketBufSize

/-- A slice is copied into its buffer. -/
theorem Copied.copySlice {buf : Bytes} {headroom : ℕ} {m : Mem PktBuf}
    {s : Mem PktBuf × List (ℕ × ℕ)} {q : ℕ × ℕ} (h : Copied buf headroom m s)
    (hm : ∀ i, i < batchSize → headroom + awgPacketBufSize ≤ (m (.recv i)).length)
    (hroom : CopyRoom s) (hq : q.1 < q.2 ∧ q.2 ≤ buf.length)
    (hlen : q.2 - q.1 ≤ awgPacketBufSize) :
    Copied buf headroom m (copySlice buf headroom s q) := by
  have hd : (buf.slice q.1 (q.2 - q.1)).length = q.2 - q.1 := Bytes.length_slice_of_le (by omega)
  have hbuf : headroom + awgPacketBufSize ≤ (s.1 (.recv s.2.length)).length := by
    rw [h.shape]
    exact hm _ hroom
  have hfits : s.1.Fits ((⟨.recv s.2.length, 0⟩ : Ptr PktBuf).add headroom)
      (buf.slice q.1 (q.2 - q.1)).length := by
    rw [Mem.Fits, hd]
    change 0 + headroom + (q.2 - q.1) ≤ (s.1 (.recv s.2.length)).length
    omega
  rw [AwgProxy.copySlice]
  refine ⟨?_, h.shape.trans (Mem.sameShape_write hfits), ?_, ?_⟩
  · rw [List.length_append, List.length_singleton]
    exact hroom
  · have hback := Mem.read_write_self hfits
    rw [hd] at hback
    dsimp only
    rw [List.map_append, List.map_append, List.map_singleton, List.map_singleton,
      c2sReceived_concat, List.length_map, Nat.zero_add, hback, ← h.filled]
    congr 1
    exact c2sReceived_write _ (by rw [List.length_map, Nat.zero_add])
  · refine List.forall_mem_append.mpr ⟨h.len, fun q' hq' => ?_⟩
    obtain rfl := List.mem_singleton.mp hq'
    exact ⟨Nat.sub_pos_of_lt hq.1, hlen⟩

/-- **The copy loop** copies the slices it passes into buffers of their own. -/
theorem copied_walk {buf : Bytes} {headroom total seg : ℕ} {m : Mem PktBuf}
    (hm : ∀ i, i < batchSize → headroom + awgPacketBufSize ≤ (m (.recv i)).length)
    (hseg : 0 < seg ∧ seg ≤ awgPacketBufSize) (htotal : total ≤ buf.length) (fuel off : ℕ) :
    Copied buf headroom m
      (walk CopyRoom (copySlice buf headroom) seg total fuel (m, []) off).1 := by
  have hnone : Copied buf headroom m (m, []) := ⟨Nat.zero_le _, .refl m, rfl, nofun⟩
  refine walk_induction (fun s off hs hroom hoff => hs.copySlice hm hroom ⟨?_, ?_⟩ ?_) fuel off
    hnone
  · exact lt_min (Nat.lt_add_of_pos_right hseg.1) hoff
  · exact (min_le_right _ _).trans htotal
  · dsimp only
    omega

/-! ### The loop of the batch -/

/-- The loop of the batch takes each datagram as it was received. -/
theorem c2sTaken_eq {p : C2sNormal} {i : ℕ} {ns : List ℕ} (h : C2sReady p)
    (hb : i + ns.length ≤ batchSize) (hn : ∀ n ∈ ns, 0 < n ∧ n ≤ awgPacketBufSize)
    (hq : ∀ e ∈ p.sendC2s, ∀ j, i ≤ j → e.1.buf ≠ .recv j) :
    c2sTaken p i ns = c2sReceived p.mem p.cfg.maxS4 i ns ∧ C2sReady (c2sNormalLoop p i ns) := by
  induction ns generalizing p i with
  | nil => exact ⟨rfl, h⟩
  | cons n ns ih =>
      rw [List.length_cons] at hb
      obtain ⟨hpos, hle⟩ := hn n List.mem_cons_self
      obtain ⟨-, hf⟩ := c2sNormalPkt_spec h (by omega) hle fun e he => hq e he i le_rfl
      obtain ⟨w, hw⟩ := hf.cfg
      obtain ⟨htaken, hready⟩ := ih (h.of_frame hf) (by omega)
        (fun n' hn' => hn n' (List.mem_cons_of_mem _ hn')) (hf.bufs_ne hq)
      refine ⟨?_, hready⟩
      have hmax : (c2sNormalPkt p i n).cfg.maxS4 = p.cfg.maxS4 := by rw [hw]
      rw [c2sTaken, c2sReceived, htaken, hmax, c2sReceived_congr fun j hj => hf.mem j (by omega)]
      exact if_neg hpos.ne'

/-- The fast path adds one packet to the queue. -/
theorem sendC2s_c2sTransport (p : C2sNormal) (data : Ptr PktBuf) (n : ℕ) :
    ∃ e, (c2sTransport p data n).sendC2s = p.sendC2s ++ [e] := by
  have hheader : (c2sPutHeader p data).sendC2s = p.sendC2s := by
    rw [c2sPutHeader]
    split <;> rfl
  have hpadding : ∀ (q : C2sNormal) base, (c2sPutPadding q base).sendC2s = q.sendC2s := by
    intro q base
    rw [c2sPutPadding]
    split <;> rfl
  simp only [c2sTransport, C2sNormal.queueRemote, hpadding, hheader]
  exact ⟨_, rfl⟩

/-- A datagram queues a packet at most. -/
theorem length_sendC2s_c2sNormalPkt (p : C2sNormal) (i n : ℕ) :
    (c2sNormalPkt { p with sendC2s := [] } i n).sendC2s.length ≤ 1 := by
  rw [c2sNormalPkt]
  dsimp only
  split
  · exact Nat.zero_le 1
  split
  · obtain ⟨e, he⟩ := sendC2s_c2sTransport { p with sendC2s := [] }
      ((⟨.recv i, 0⟩ : Ptr PktBuf).add p.cfg.maxS4) n
    rw [he]
    exact le_rfl
  · rw [c2sHandshake]
    dsimp only
    split
    · exact Nat.zero_le 1
    split
    · exact Nat.zero_le 1
    · exact le_rfl

/-- The loop queues a packet at most for every datagram. -/
theorem c2sQueued_le (p : C2sNormal) (i : ℕ) (ns : List ℕ) : c2sQueued p i ns ≤ ns.length := by
  induction ns generalizing p i with
  | nil => exact le_rfl
  | cons n ns ih =>
      have hone := length_sendC2s_c2sNormalPkt p i n
      have hrest := ih (c2sNormalPkt p i n) (i + 1)
      rw [c2sQueued, List.length_cons]
      omega

/-! ### A turn -/

/-- Noting the client leaves the thread as it runs, with its buffers. -/
theorem noteClient_spec (s : C2sGro) :
    (C2sReady s.thread → C2sReady s.noteClient.thread) ∧
      s.noteClient.thread.mem = s.thread.mem ∧ s.noteClient.thread.cfg = s.thread.cfg ∧
      s.noteClient.thread.sendC2s = s.thread.sendC2s ∧
      ∃ th port need,
        s.noteClient = { s with thread := th, localPort := port, reconnectNeeded := need } := by
  have hlatch : ∀ a, C2sReady s.thread →
      C2sReady { s.thread with clientAddr := a, hasClient := true } := fun a h =>
    ⟨h.accepted, h.active, h.mirrored, h.maxS4, h.bufs, h.hs, h.ring.length, h.ring.mem, h.ring.idx⟩
  rw [C2sGro.noteClient]
  split
  · exact ⟨id, rfl, rfl, rfl, _, _, _, rfl⟩
  · rename_i a _
    split
    · exact ⟨id, rfl, rfl, rfl, _, _, _, rfl⟩
    split
    · exact ⟨id, rfl, rfl, rfl, _, _, _, rfl⟩
    dsimp only
    split
    · exact ⟨hlatch a, rfl, rfl, rfl, _, _, _, rfl⟩
    · exact ⟨hlatch a, rfl, rfl, rfl, _, _, _, rfl⟩

/-- The read in hand, the cursor and what keeps the turns coming stay. -/
structure SameCursor (s s' : C2sGro) : Prop where
  groBuf : s'.groBuf = s.groBuf
  remoteFd : s'.remoteFd = s.remoteFd
  groEnabled : s'.groEnabled = s.groEnabled
  off : s'.groPendOff = s.groPendOff
  total : s'.groPendTotal = s.groPendTotal
  seg : s'.groPendSeg = s.groPendSeg

/-- The thread between two turns. -/
structure ThreadBetween (p : C2sNormal) : Prop where
  ready : C2sReady p
  queue : p.sendC2s = []

/-- Filling the buffers leaves the thread as it runs. -/
theorem ThreadBetween.mem {p : C2sNormal} (h : ThreadBetween p) {m : Mem PktBuf}
    (hm : p.mem.SameShape m) : ThreadBetween { p with mem := m } := by
  refine ⟨⟨h.ready.accepted, h.ready.active, h.ready.mirrored, h.ready.maxS4, fun i hi => ?_, ?_,
    h.ready.ring.length, h.ready.ring.mem, h.ready.ring.idx⟩, h.queue⟩
  · rw [hm]
    exact h.ready.bufs i hi
  · rw [hm]
    exact h.ready.hs

/-- There is room for a packet behind the headroom of every buffer. -/
theorem ThreadBetween.room {p : C2sNormal} (h : ThreadBetween p) (i : ℕ) (hi : i < batchSize) :
    p.cfg.maxS4 + awgPacketBufSize ≤ (p.mem (.recv i)).length := by
  have hlayout := (h.ready.pktLayout hi (Nat.le_refl awgPacketBufSize)).fits
  change 0 + p.cfg.maxS4 + awgPacketBufSize ≤ (p.mem (.recv i)).length at hlayout
  omega

/-- **What was copied** reaches the loop of the batch with the bytes it was copied with, and
each of it queues a packet at most. -/
theorem forward_of_copied {s s₁ : C2sGro} {n seg : ℕ} {m : Mem PktBuf} {pkts : List (ℕ × ℕ)}
    (hcop : s.copied n seg = (s₁, pkts)) (hne : pkts.length ≠ 0) (h : ThreadBetween s₁.thread)
    (hc : Copied s₁.groBuf s₁.thread.cfg.maxS4 m (s₁.thread.mem, pkts))
    (hfd : s₁.remoteFd.isSome) :
    s.takes n seg = (pkts.map fun q => ((q.1, q.1 + q.2), s₁.groBuf.slice q.1 q.2)) ∧
      s.queues n seg ≤ batchSize ∧ ThreadBetween (s.forward n seg).thread ∧
      SameCursor s₁ (s.forward n seg) := by
  obtain ⟨hready, hmem, hcfg, hqueue, th, port, need, hnote⟩ := noteClient_spec s₁
  have hlen : ∀ n ∈ pkts.map Prod.snd, 0 < n ∧ n ≤ awgPacketBufSize := by
    intro n hn
    obtain ⟨q, hq, rfl⟩ := List.mem_map.mp hn
    exact hc.len q hq
  have hnone : ∀ e ∈ s₁.noteClient.thread.sendC2s, ∀ j, 0 ≤ j → e.1.buf ≠ .recv j := by
    rw [hqueue, h.queue]
    exact nofun
  have hroom : 0 + (pkts.map Prod.snd).length ≤ batchSize := by
    rw [Nat.zero_add, List.length_map]
    exact hc.room
  obtain ⟨htaken, hloop⟩ := c2sTaken_eq (hready h.ready) hroom hlen hnone
  have hfd' : s₁.noteClient.remoteFd.isSome := by
    rw [hnote]
    exact hfd
  have hforward : s.forward n seg =
      { s₁.noteClient with thread := c2sNormalBatch s₁.noteClient.thread (pkts.map Prod.snd) } := by
    rw [C2sGro.forward, hcop]
    exact (if_neg hne).trans (if_pos hfd')
  refine ⟨?_, ?_, ?_, ?_⟩
  · rw [C2sGro.takes, hcop]
    refine (if_pos hfd).trans ?_
    rw [htaken, hmem, hcfg, hc.filled]
    exact List.zip_map'
  · rw [C2sGro.queues, hcop]
    refine (if_pos hfd).trans_le ((c2sQueued_le _ _ _).trans ?_)
    rw [Nat.zero_add] at hroom
    exact hroom
  · rw [hforward]
    exact ⟨⟨hloop.accepted, hloop.active, hloop.mirrored, hloop.maxS4, hloop.bufs, hloop.hs,
      hloop.ring.length, hloop.ring.mem, hloop.ring.idx⟩, rfl⟩
  · rw [hforward, hnote]
    exact ⟨rfl, rfl, rfl, rfl, rfl, rfl⟩

/-- The buffer of the thread starts with the read. -/
def HoldsRead (buf data : Bytes) : Prop :=
  data.length ≤ buf.length ∧ buf.slice 0 data.length = data

/-- Its slices are those of the read. -/
theorem HoldsRead.slice {buf data : Bytes} (h : HoldsRead buf data) {a l : ℕ}
    (hl : a + l ≤ data.length) : buf.slice a l = data.slice a l := by
  have hs := @Bytes.slice_slice buf 0 data.length a l hl
  rw [h.2, Nat.zero_add] at hs
  exact hs.symm

/-- The copy of a slice, with the bytes it was copied with. -/
theorem map_copied {buf data : Bytes} (h : HoldsRead buf data) {seg k j : ℕ} (hseg : 0 < seg)
    (hj : j ≤ sliceCount seg data.length) :
    ((((List.range' k (j - k)).map (slice seg data.length)).map fun q => (q.1, q.2 - q.1)).map
        fun q => ((q.1, q.1 + q.2), buf.slice q.1 q.2)) =
      ((List.range' k (j - k)).map (slice seg data.length)).map (sliceOf data) := by
  rw [List.map_map]
  refine List.map_congr_left fun q hq => ?_
  obtain ⟨i, hi, rfl⟩ := List.mem_map.mp hq
  rw [List.mem_range'_1] at hi
  obtain ⟨hlt, hle⟩ := slice_bounds hseg (show i < sliceCount seg data.length by omega)
  generalize SliceWalk.slice seg data.length i = q at hlt hle ⊢
  have hback : q.1 + (q.2 - q.1) = q.2 := Nat.add_sub_cancel' hlt.le
  rw [Function.comp_apply, sliceOf, hback, h.slice (by rw [hback]; exact hle)]

/-- What a turn on the first `total` bytes takes, and where it leaves the thread. -/
structure TurnTakes (s : C2sGro) (data : Bytes) (seg k j : ℕ) : Prop where
  takes : s.takes data.length seg =
    ((List.range' k (j - k)).map (slice seg data.length)).map (sliceOf data)
  queues : s.queues data.length seg ≤ batchSize
  cursor : CursorAt seg data.length j (s.forward data.length seg).groPendOff
    (s.forward data.length seg).groPendTotal (s.forward data.length seg).groPendSeg
  between : ThreadBetween (s.forward data.length seg).thread
  groBuf : (s.forward data.length seg).groBuf = s.groBuf
  remoteFd : (s.forward data.length seg).remoteFd = s.remoteFd

/-- **A turn of the c2s loop over a coalesced read** takes the slices from its cursor to the
one it stops at. -/
theorem exists_forward {s : C2sGro} {data : Bytes} {seg k : ℕ} (h : ThreadBetween s.thread)
    (hfd : s.remoteFd.isSome) (hseg : 0 < seg ∧ seg ≤ awgPacketBufSize) (hlt : seg < data.length)
    (hbuf : HoldsRead s.groBuf data) (hk : k < sliceCount seg data.length)
    (hoff : s.groPendOff = k * seg) :
    ∃ j, k < j ∧ TurnTakes s data seg k j ∧
      (s.forward data.length seg).groEnabled = s.groEnabled := by
  have hfuel : 0 < data.length - k * seg := Nat.sub_pos_of_lt ((lt_sliceCount_iff hseg.1).mp hk)
  have hroom : CopyRoom (s.thread.mem, []) := Nat.succ_pos 31
  obtain ⟨j, ⟨-, hj⟩, hslices, hmoves⟩ := @exists_taken _ CopyRoom _
    (copySlice s.groBuf s.thread.cfg.maxS4) seg data.length hseg.1 (data.length - k * seg)
    (s.thread.mem, []) k hk.le
  have hkj := hmoves hfuel hk hroom
  have hcopied := copied_walk h.room hseg hbuf.1 (data.length - k * seg) (k * seg)
  have hcut := c2sCut_eq_walk s.groBuf s.thread.cfg.maxS4 data.length hseg.2
    (data.length - k * seg) s.thread.mem [] (k * seg)
  have hwalk := walk_eq_foldl CopyRoom (copySlice s.groBuf s.thread.cfg.maxS4) seg data.length
    (data.length - k * seg) (s.thread.mem, []) (k * seg)
  rw [hslices, length_taken hslices, ← Nat.add_mul, Nat.add_sub_cancel' hkj.le] at hwalk
  generalize walk CopyRoom (copySlice s.groBuf s.thread.cfg.maxS4) seg data.length
    (data.length - k * seg) (s.thread.mem, []) (k * seg) = w at hcopied hcut hwalk
  -- what was copied, and where the loop stopped
  have hpkts : w.1.2 = ((List.range' k (j - k)).map (slice seg data.length)).map
      fun q => (q.1, q.2 - q.1) := by
    rw [hwalk, foldl_copySlice_snd]
    exact List.nil_append _
  have hstop : w.2 = j * seg := by rw [hwalk]
  have hne : w.1.2.length ≠ 0 := by
    rw [hpkts, List.length_map, List.length_map, List.length_range']
    exact (Nat.sub_pos_of_lt hkj).ne'
  obtain ⟨s₁, hs₁, hcursor⟩ : ∃ s₁, s.copied data.length seg = (s₁, w.1.2) ∧
      s₁.thread = { s.thread with mem := w.1.1 } ∧ s₁.groBuf = s.groBuf ∧
      s₁.remoteFd = s.remoteFd ∧ s₁.groEnabled = s.groEnabled ∧
      if j * seg < data.length then
        s₁.groPendOff = j * seg ∧ s₁.groPendTotal = data.length ∧ s₁.groPendSeg = seg
      else s₁.groPendOff = 0 ∧ s₁.groPendTotal = 0 := by
    rw [C2sGro.copied, if_pos ⟨hseg.1, hlt⟩, hoff, hcut, hstop]
    dsimp only
    rw [Bool.not_false, Bool.and_true]
    split
    · exact ⟨_, rfl, rfl, rfl, rfl, rfl, rfl, rfl, rfl⟩
    · exact ⟨_, rfl, rfl, rfl, rfl, rfl, rfl, rfl⟩
  obtain ⟨hthread, hgroBuf, hremote, henabled, hcursor⟩ := hcursor
  have hbetween : ThreadBetween s₁.thread := by
    rw [hthread]
    exact h.mem hcopied.shape
  have hc : Copied s₁.groBuf s₁.thread.cfg.maxS4 s.thread.mem (s₁.thread.mem, w.1.2) := by
    rw [hgroBuf, hthread]
    exact hcopied
  obtain ⟨htakes, hqueues, hbetween', hsame⟩ :=
    forward_of_copied hs₁ hne hbetween hc (hremote ▸ hfd)
  refine ⟨j, hkj, ⟨?_, hqueues, ?_, hbetween', hsame.groBuf.trans hgroBuf,
    hsame.remoteFd.trans hremote⟩, hsame.groEnabled.trans henabled⟩
  · rw [htakes, hpkts, hgroBuf, map_copied hbuf hseg.1 hj]
  · rw [hsame.off, hsame.total, hsame.seg]
    exact cursorAt_of_stop hseg.1 hj hcursor

/-- A turn over a read of one segment takes all of it. -/
theorem forward_single {s : C2sGro} {data : Bytes} {seg : ℕ} (h : ThreadBetween s.thread)
    (hfd : s.remoteFd.isSome) (hseg : seg ≤ awgPacketBufSize)
    (hlen : 0 < data.length ∧ data.length ≤ seg) (hbuf : HoldsRead s.groBuf data)
    (hcur : s.groPendOff = 0 ∧ s.groPendTotal = 0) : TurnTakes s data seg 0 1 := by
  have hsingle : ¬ (seg > 0 ∧ data.length > seg) := fun hcon => Nat.not_lt.mpr hlen.2 hcon.2
  have hfits : ¬ data.length > awgPacketBufSize := Nat.not_lt.mpr (hlen.2.trans hseg)
  have hnone : Copied s.groBuf s.thread.cfg.maxS4 s.thread.mem (s.thread.mem, []) :=
    ⟨Nat.zero_le _, .refl _, rfl, nofun⟩
  have hcopied := hnone.copySlice (q := (0, data.length)) h.room
    (Nat.succ_pos 31) ⟨hlen.1, hbuf.1⟩ (hlen.2.trans hseg)
  obtain ⟨s₁, hs₁, hthread, hgroBuf, hremote, hoff, htotal⟩ :
      ∃ s₁, s.copied data.length seg = (s₁, [(0, data.length)]) ∧
        s₁.thread = { s.thread with
          mem := s.thread.mem.write ((⟨.recv 0, 0⟩ : Ptr PktBuf).add s.thread.cfg.maxS4)
            (s.groBuf.slice 0 data.length) } ∧
        s₁.groBuf = s.groBuf ∧ s₁.remoteFd = s.remoteFd ∧ s₁.groPendOff = 0 ∧
        s₁.groPendTotal = 0 := by
    rw [C2sGro.copied, if_neg hsingle]
    dsimp only
    rw [if_neg hfits]
    split
    · exact ⟨_, rfl, rfl, rfl, rfl, hcur⟩
    · exact ⟨_, rfl, rfl, rfl, rfl, hcur⟩
  have hbetween : ThreadBetween s₁.thread := by
    rw [hthread]
    exact h.mem hcopied.shape
  have hc : Copied s₁.groBuf s₁.thread.cfg.maxS4 s.thread.mem
      (s₁.thread.mem, [(0, data.length)]) := by
    rw [hgroBuf, hthread]
    exact hcopied
  obtain ⟨htakes, hqueues, hbetween', hsame⟩ :=
    forward_of_copied hs₁ Nat.one_ne_zero hbetween hc (hremote ▸ hfd)
  have hall := slices_of_le hlen.1 hlen.2
  rw [SliceWalk.slices, sliceCount_of_le hlen.1 hlen.2, List.range_eq_range'] at hall
  refine ⟨?_, hqueues, Or.inr ⟨(sliceCount_of_le hlen.1 hlen.2).symm, hsame.off.trans hoff,
    hsame.total.trans htotal⟩, hbetween', hsame.groBuf.trans hgroBuf, hsame.remoteFd.trans hremote⟩
  rw [htakes, Nat.sub_zero, hall, hgroBuf, List.map_singleton, List.map_singleton, sliceOf,
    Nat.zero_add, hbuf.slice (Nat.zero_add _).le]
  rfl

/-! ### Runs -/

/-- What the c2s loop keeps while it splits. -/
structure C2sSplitInv (x : C2sGro × SplitRecord) : Prop where
  between : ThreadBetween x.1.thread
  groBuf : x.1.groBuf.length = groBufSize
  takenTo : ∃ k, TakenTo x.2 k x.1.groPendOff x.1.groPendTotal x.1.groPendSeg
  pend : x.1.groPendOff < x.1.groPendTotal →
    (x.1.remoteFd.isSome ∧ x.1.groEnabled = true) ∧
    (x.2.seg ≤ awgPacketBufSize ∧ x.2.seg < x.2.data.length) ∧ HoldsRead x.1.groBuf x.2.data

/-- A read fits the buffer and its segments fit a packet; the other threads leave the thread
as it runs. -/
def C2sUndisturbed (x : C2sGro × SplitRecord) : SplitEvent → Prop
  | .read data seg _ => (0 < seg ∧ seg ≤ 1500) ∧ data.length ≤ groBufSize
  | .turn => True
  | .others p => C2sReady { x.1.thread with toProxy := p }

/-- Besides, the remote is open when a read comes. -/
def C2sServed (x : C2sGro × SplitRecord) (e : SplitEvent) : Prop :=
  C2sUndisturbed x e ∧ ∀ data seg src, e = .read data seg src → x.1.remoteFd.isSome

/-- **A turn over a coalesced read**, from the `k`-th slice on, leaves what is kept. -/
theorem c2sSplitInv_of_turn {s : C2sGro} {r : SplitRecord} {k : ℕ} (h : ThreadBetween s.thread)
    (hlen : s.groBuf.length = groBufSize) (hopen : s.remoteFd.isSome ∧ s.groEnabled = true)
    (hseg : r.seg ≤ awgPacketBufSize ∧ r.seg < r.data.length) (hbuf : HoldsRead s.groBuf r.data)
    (htk : TakenTo r k (k * r.seg) r.data.length r.seg) (hk : k < sliceCount r.seg r.data.length)
    (hoff : s.groPendOff = k * r.seg) :
    C2sSplitInv (s.forward r.data.length r.seg, { r with
      done := r.done ++ s.takes r.data.length r.seg
      queued := r.queued ++ [s.queues r.data.length r.seg] }) := by
  obtain ⟨hfd, hgro⟩ := hopen
  obtain ⟨j, hj, hturn, henabled⟩ := exists_forward h hfd ⟨htk.pos, hseg.1⟩ hseg.2 hbuf hk hoff
  rw [hturn.takes]
  exact ⟨hturn.between, hturn.groBuf ▸ hlen, ⟨j, htk.turn hj hturn.cursor hturn.queues⟩,
    fun _ => ⟨⟨hturn.remoteFd ▸ hfd, henabled.trans hgro⟩, hseg, hturn.groBuf ▸ hbuf⟩⟩

/-- A read keeps it. -/
theorem C2sSplitInv.read {x x' : C2sGro × SplitRecord} {data : Bytes} {seg : ℕ}
    {src : Option CliAddr} (h : C2sSplitInv x) (hg : C2sServed x (.read data seg src))
    (hs : c2sSplitStep x (.read data seg src) = some x') : C2sSplitInv x' := by
  obtain ⟨⟨hseg, hn⟩, hopen⟩ := hg
  obtain ⟨⟨hgro, -, hpos⟩, rfl⟩ := Option.ite_some_none_eq_some.mp hs
  have hfd : (x.1.received data src).remoteFd.isSome := hopen data seg src rfl
  have hlen : (x.1.groBuf.patch 0 data).length = groBufSize := by
    rw [Bytes.length_patch (by rw [h.groBuf, Nat.zero_add]; exact hn), h.groBuf]
  have hbuf : HoldsRead (x.1.received data src).groBuf data :=
    ⟨hn.trans_eq hlen.symm, Bytes.slice_patch_self (Nat.zero_le _)⟩
  by_cases hlt : seg < data.length
  · have hcount : 0 < sliceCount seg data.length :=
      (lt_sliceCount_iff hseg.1).mpr (by rw [Nat.zero_mul]; exact hpos)
    -- nothing is taken from the read before its first turn
    have htk : TakenTo ⟨data, seg, [], []⟩ 0 (0 * seg) data.length seg :=
      ⟨hseg.1, Or.inl ⟨hcount, rfl, rfl, rfl⟩, rfl, nofun, le_rfl⟩
    exact c2sSplitInv_of_turn (s := x.1.received data src) h.between hlen ⟨hfd, hgro⟩
      ⟨hseg.2, hlt⟩ hbuf htk hcount (Nat.zero_mul seg).symm
  · have hone := Nat.not_lt.mp hlt
    have hturn := forward_single (s := x.1.received data src) h.between hfd hseg.2
      ⟨hpos, hone⟩ hbuf ⟨rfl, rfl⟩
    rw [hturn.takes]
    refine ⟨hturn.between, hturn.groBuf ▸ hlen,
      ⟨1, takenTo_read hseg.1 Nat.one_pos hturn.cursor hturn.queues⟩, fun hp => ?_⟩
    have hp' := (hturn.cursor.pending_iff hseg.1).mp hp
    rw [sliceCount_of_le hpos hone] at hp'
    exact absurd hp' (Nat.lt_irrefl 1)

/-- A step keeps it. -/
theorem C2sSplitInv.step {x x' : C2sGro × SplitRecord} {e : SplitEvent} (h : C2sSplitInv x)
    (hg : C2sServed x e) (hs : c2sSplitStep x e = some x') : C2sSplitInv x' := by
  cases e with
  | read data seg src => exact h.read hg hs
  | turn =>
      obtain ⟨⟨-, hp⟩, rfl⟩ := Option.ite_some_none_eq_some.mp hs
      obtain ⟨hopen, hseg, hbuf⟩ := h.pend hp
      obtain ⟨k, htk⟩ := h.takenTo
      obtain ⟨hk, hoff, htotal, hsegEq⟩ := htk.cursor.of_pending hp
      rw [hoff, htotal, hsegEq] at htk
      rw [htotal, hsegEq]
      exact c2sSplitInv_of_turn h.between h.groBuf hopen hseg hbuf htk hk hoff
  | others p =>
      obtain rfl := Option.some.inj hs
      have hund : C2sReady { x.1.thread with toProxy := p } := hg.1
      exact ⟨⟨hund, h.between.queue⟩, h.groBuf, h.takenTo, h.pend⟩

/-- The c2s loop with nothing pending. -/
structure C2sGro.SplitStarted (s : C2sGro) : Prop where
  between : ThreadBetween s.thread
  groBuf : s.groBuf.length = groBufSize
  cleared : s.groPendOff = 0 ∧ s.groPendTotal = 0

/-- The c2s loop splits every read that finds the remote open. -/
theorem c2s_splitsReads {s : C2sGro} (h : s.SplitStarted) :
    SplitsReads c2sSplitMachine C2sGro.groPendOff C2sGro.groPendTotal C2sServed s := by
  intro es x hC hrun
  have h0 : C2sSplitInv (s, .start) := by
    refine ⟨h.between, h.groBuf, ⟨0, takenTo_start h.cleared⟩, fun hp => ?_⟩
    dsimp only at hp
    rw [h.cleared.1, h.cleared.2] at hp
    exact absurd hp (Nat.lt_irrefl 0)
  have hinv : C2sSplitInv x :=
    Machine.guarded_induction (fun x e x' hx hg hs => hx.step hg hs) h0 hC hrun
  obtain ⟨k, hk⟩ := hinv.takenTo
  refine ⟨hk.splitsRead, fun hp => ?_⟩
  obtain ⟨⟨-, hgro⟩, -⟩ := hinv.pend hp
  have hgo : x.1.groEnabled ∧ x.1.groPendOff < x.1.groPendTotal := ⟨hgro, hp⟩
  have hstep : c2sSplitMachine.step x .turn = _ := if_pos hgo
  rw [hstep]
  rfl

/-- **Both loops split what they read**, in every state reached by a run in which every read
finds a client, or the remote open, and no reconnect intervenes. -/
theorem splitsReads {s : S2cLoop} {c : C2sGro} (hs : s.SplitStarted) (hc : c.SplitStarted) :
    SplitsReads s2cSplitMachine S2cLoop.groPendOff S2cLoop.groPendTotal S2cServed s ∧
      SplitsReads c2sSplitMachine C2sGro.groPendOff C2sGro.groPendTotal C2sServed c :=
  ⟨s2c_splitsReads hs, c2s_splitsReads hc⟩

/-! ### Reads that are not served -/

theorem splitStarted_openLoop {p : Proxy} (h : BetweenTurns p) :
    (openLoop p true []).SplitStarted :=
  ⟨h, rfl, rfl⟩

theorem betweenTurns_quietProxy : BetweenTurns quietProxy :=
  ⟨proxyReady_quietProxy.toS2cReady, rfl⟩

/-- The c2s loop with GRO and nothing read yet. -/
def openThread (fd : Option ℕ) : C2sGro where
  thread := shieldedThread
  groBuf := List.replicate groBufSize 0
  groAddr := none
  listenV6 := false
  autoSrcPort := false
  localPort := 0
  reconnectNeeded := false
  remoteFd := fd
  groEnabled := true
  groNoCoalesce := 0
  groRearmIn := 0
  groRearmGap := groRearmMin
  groPendOff := 0
  groPendTotal := 0
  groPendSeg := 0

theorem splitStarted_openThread (fd : Option ℕ) : (openThread fd).SplitStarted :=
  ⟨⟨c2sReady_shieldedThread, rfl⟩, List.length_replicate, rfl, rfl⟩

/-- Loops with a known client and an open remote. -/
theorem splitsReads_open :
    SplitsReads s2cSplitMachine S2cLoop.groPendOff S2cLoop.groPendTotal S2cServed
        (openLoop quietProxy true []) ∧
      SplitsReads c2sSplitMachine C2sGro.groPendOff C2sGro.groPendTotal C2sServed
        (openThread (some 0)) :=
  splitsReads (splitStarted_openLoop betweenTurns_quietProxy) (splitStarted_openThread (some 0))

/-- Without a client, or with the remote closed, a read of two segments is dropped. -/
theorem not_splitsReads_unserved :
    ((openLoop { quietProxy with hasClient := false } true []).SplitStarted ∧
      ¬ SplitsReads s2cSplitMachine S2cLoop.groPendOff S2cLoop.groPendTotal S2cUndisturbed
        (openLoop { quietProxy with hasClient := false } true [])) ∧
    (openThread none).SplitStarted ∧
      ¬ SplitsReads c2sSplitMachine C2sGro.groPendOff C2sGro.groPendTotal C2sUndisturbed
        (openThread none) := by
  have hq := proxyReady_quietProxy.toS2cReady
  have hcount : (⟨[0, 0], 1, [], [0]⟩ : SplitRecord).slices ≠ [] := nofun
  refine ⟨⟨splitStarted_openLoop ⟨⟨hq.accepted, hq.mirrored, hq.gro, hq.recv⟩, rfl⟩, fun h => ?_⟩,
    splitStarted_openThread none, fun h => ?_⟩
  · obtain ⟨hsplit, -⟩ := h [.read [0, 0] 1 none] _
      (.cons ⟨Nat.one_pos, by decide⟩ rfl (Machine.meets_nil _ _)) rfl
    exact absurd (hsplit.pending.mpr hcount.symm) (Nat.lt_irrefl 0)
  · obtain ⟨hsplit, -⟩ := h [.read [0, 0] 1 none] _
      (.cons ⟨⟨Nat.one_pos, by decide⟩, by decide⟩ rfl (Machine.meets_nil _ _)) rfl
    exact absurd (hsplit.pending.mpr hcount.symm) (Nat.lt_irrefl 0)

end AwgProxy
