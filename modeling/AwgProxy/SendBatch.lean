import AwgProxy.Lib.Bytes
import AwgProxy.Session

/-!
# Sending a Batch

A batch goes out in runs: as many packets of one length as a segmented send can carry in one
call, the packets between two runs by `sendmmsg`. The kernel may refuse a segmented send, the
offload may be given up midway, and `sendmmsg` may take a part of what it is given or fail;
what a call answers is its input here, one answer a turn of the loop.

* `gsoRun_gsoRunLen` — what `gso_run_len` finds is a run: packets of one length and
  destination, the last possibly shorter, within the limits of the kernel.
* `gsoRunLen_longest` — it finds the longest one.
* `sendTurn_cases` — a turn sends some packets more, in order, or `sendmmsg` fails and ends the
  loop.
* `sendBatchGso_sends` — the loop ends, what left is the part of the batch it counted, and that
  is the whole batch, and 0 returned, unless `sendmmsg` fails.
-/

namespace AwgProxy

/-- `GSO_MAX_SEGMENTS`. -/
abbrev gsoMaxSegments : ℕ := 64

/-- `GSO_MAX_BYTES`. -/
abbrev gsoMaxBytes : ℕ := 65507

/-- `ENOPROTOOPT`. -/
abbrev enoprotoopt : ℕ := 92

/-- `EIO`. -/
abbrev eio : ℕ := 5

/-- An error number of the kernel. -/
structure Errno where
  val : ℕ
  pos : 0 < val

/-- A destination array, `none` for the `NULL` of a connected socket. -/
abbrev DestAddrs := Option (ℕ → CliAddr)

/-- `addrs ? addrs + n : NULL`. -/
def destAdd (addrs : DestAddrs) (n : ℕ) : DestAddrs :=
  addrs.map fun a i => a (n + i)

/-- `!addrs || cliaddr_eq(&addrs[i], &addrs[0])`. -/
def sameDest (addrs : DestAddrs) (i : ℕ) : Bool :=
  addrs.elim true fun a => cliaddrEq (a i) (a 0)

/-- The destination of packet `i`. -/
def destOf (addrs : DestAddrs) (i : ℕ) : Option CliAddr :=
  addrs.map (· i)

/-- A datagram that left, with the address it was sent to on an unconnected socket. -/
abbrev OnWire := Bytes × Option CliAddr

/-- What leaves when packets of the batch are sent one by one, the first being number `n`. -/
def plainFrom (addrs : DestAddrs) (n : ℕ) (iov : List Bytes) : List OnWire :=
  (iov.zipIdx n).map fun x => (x.1, destOf addrs x.2)

/-! ### Runs -/

/-- The loop of `gso_run_len` behind the first `run` packets, of `total` bytes. -/
def gsoRunLoop (addrs : DestAddrs) (seg : ℕ) : List Bytes → ℕ → ℕ → ℕ × ℕ
  | [], run, total => (run, total)
  | d :: ds, run, total =>
      if run < gsoMaxSegments ∧ d.length = seg ∧ total + seg ≤ gsoMaxBytes ∧
          sameDest addrs run then
        gsoRunLoop addrs seg ds (run + 1) (total + seg)
      else (run, total)

/-- One shorter packet may ride along behind `run` packets of the length `seg`. -/
def gsoRunTail (iov : List Bytes) (addrs : DestAddrs) (seg run total : ℕ) : ℕ :=
  match iov[run]? with
  | some d =>
      if run < gsoMaxSegments ∧ d.length < seg ∧ total + d.length ≤ gsoMaxBytes ∧
          sameDest addrs run then run + 1
      else run
  | none => run

/-- `gso_run_len`: how many packets at the head of a batch one segmented send can carry. -/
def gsoRunLen (iov : List Bytes) (addrs : DestAddrs) : ℕ :=
  if iov.length ≤ 1 then 0
  else
    let seg := (iov.headD []).length
    if seg = 0 ∨ seg > gsoMaxBytes then 0
    else
      let (run, total) := gsoRunLoop addrs seg iov.tail 1 seg
      let run := gsoRunTail iov addrs seg run total
      if run > 1 then run else 0

/-! ### The sends -/

/-- What the kernel makes of a segmented send: pieces of `gsoSize` bytes, all to one
address. -/
def gsoSlices (bufs : List Bytes) (gsoSize : ℕ) (addr : Option CliAddr) : List OnWire :=
  (Bytes.chunks gsoSize bufs.flatten).map fun d => (d, addr)

/-- `send_gso`: what it returns, and what leaves. The kernel takes a segmented send whole or
refuses it. -/
def sendGso (iovecs : List Bytes) (run : ℕ) (addr : Option CliAddr)
    (answer : Except Errno Unit) : ℤ × List OnWire :=
  let segSize := (iovecs.headD []).length
  let total := ((iovecs.take run).map List.length).sum
  -- `gso_size` has 16 bits
  let ss := segSize % 65536
  match answer with
  | .error e => (-e.val, [])
  | .ok () =>
      let ret := total
      (if ret ≥ total then run else ret / segSize, gsoSlices (iovecs.take run) ss addr)

/-- What the kernel answers in a turn. -/
structure SendAnswer where
  /-- Another thread has found the offload disabled. -/
  gaveUp : Bool
  /-- The answer to a segmented send. -/
  gso : Except Errno Unit
  /-- The answer to `sendmmsg`, which takes one packet and as many of the others. -/
  mmsg : Except Errno ℕ

/-- The locals of `send_batch_gso`, the counters it is given and what has left. -/
structure SendLoop where
  sent : ℕ
  err : ℕ
  gsoOk : Bool
  gsoMsgs : UInt32
  gsoSegs : UInt32
  wire : List OnWire

/-- How a turn of the loop ends. -/
inductive SendTurn
  /-- With the next one. -/
  | next (s : SendLoop)
  /-- With `break`. -/
  | stop (s : SendLoop)

/-- The `sendmmsg` at the end of a turn. -/
def SendLoop.sendmmsg (s : SendLoop) (iovecs : List Bytes) (addrs : DestAddrs) (want : ℕ)
    (answer : Except Errno ℕ) : SendTurn :=
  match answer with
  | .error e => .stop { s with err := e.val }
  | .ok more =>
      let r := min want (more + 1)
      .next { s with
        sent := s.sent + r
        err := 0
        wire := s.wire ++ plainFrom addrs s.sent ((iovecs.drop s.sent).take r) }

/-- The packets in front of the next run, `want` of them so far. -/
def flushLen (addrs : DestAddrs) : List Bytes → ℕ → ℕ
  | [], want => want
  | d :: ds, want =>
      if gsoRunLen (d :: ds) (destAdd addrs want) = 0 then flushLen addrs ds (want + 1)
      else want

/-- A turn of the loop. -/
def sendTurn (iovecs : List Bytes) (addrs : DestAddrs) (a : SendAnswer) (s : SendLoop) :
    SendTurn :=
  let s := { s with gsoOk := s.gsoOk && !a.gaveUp }
  let rest := iovecs.drop s.sent
  let addrs' := destAdd addrs s.sent
  if s.gsoOk then
    let run := gsoRunLen rest addrs'
    if run > 1 then
      let (n, out) := sendGso rest run (destOf addrs s.sent) a.gso
      if n > 0 then
        .next { s with
          gsoMsgs := s.gsoMsgs + 1
          gsoSegs := s.gsoSegs + UInt32.ofNat n.toNat
          sent := s.sent + n.toNat
          err := 0
          wire := s.wire ++ out }
      else
        let err := if n < 0 then (-n).toNat else s.err
        let s := { s with
          err := err
          gsoOk := s.gsoOk && !(decide (n < 0) && (err == enoprotoopt || err == eio)) }
        s.sendmmsg iovecs addrs run a.mmsg
    else
      s.sendmmsg iovecs addrs (flushLen addrs' rest.tail 1) a.mmsg
  else s.sendmmsg iovecs addrs rest.length a.mmsg

/-- The loop of `send_batch_gso`, `none` when it takes more turns than the fuel; `i` counts
them. -/
def sendLoop (iovecs : List Bytes) (addrs : DestAddrs) (answers : ℕ → SendAnswer) :
    ℕ → ℕ → SendLoop → Option SendLoop
  | 0, _, s => if s.sent < iovecs.length then none else some s
  | fuel + 1, i, s =>
      if s.sent < iovecs.length then
        match sendTurn iovecs addrs (answers i) s with
        | .next s' => sendLoop iovecs addrs answers fuel (i + 1) s'
        | .stop s' => some s'
      else some s

/-- `send_batch_gso`: the locals where it returns, `*sent_out` is `sent` and the value
returned is `err`. No batch takes more turns than it has packets. -/
def sendBatchGso (iovecs : List Bytes) (addrs : DestAddrs) (answers : ℕ → SendAnswer)
    (gsoOk : Bool) (gsoMsgs gsoSegs : UInt32) : Option SendLoop :=
  sendLoop iovecs addrs answers iovecs.length 0 ⟨0, 0, gsoOk, gsoMsgs, gsoSegs, []⟩

/-! ### What a run is -/

/-- A run at the head of a batch: packets of one length, the last one possibly shorter, for
one destination, within what the kernel takes in one call. -/
structure GsoRun (iov : List Bytes) (addrs : DestAddrs) (run : ℕ) : Prop where
  one_lt : 1 < run
  le_length : run ≤ iov.length
  le_segments : run ≤ gsoMaxSegments
  le_bytes : ((iov.take run).map List.length).sum ≤ gsoMaxBytes
  seg_pos : 0 < (iov.headD []).length
  full : ∀ d ∈ iov.take (run - 1), d.length = (iov.headD []).length
  le_seg : ∀ d ∈ iov.take run, d.length ≤ (iov.headD []).length
  same : ∀ i, i < run → destOf addrs i = destOf addrs 0

theorem sameDest_iff {addrs : DestAddrs} {i : ℕ} :
    sameDest addrs i = true ↔ destOf addrs i = destOf addrs 0 := by
  cases addrs with
  | none => simp [sameDest, destOf]
  | some a => simp [sameDest, destOf, cliaddrEq]

theorem destOf_destAdd (addrs : DestAddrs) (n i : ℕ) :
    destOf (destAdd addrs n) i = destOf addrs (n + i) := by
  cases addrs <;> rfl

/-- The loop passes packets of the length `seg` for the first destination. -/
theorem gsoRunLoop_spec (addrs : DestAddrs) (seg : ℕ) (ds : List Bytes) {run total : ℕ}
    (hrun : run ≤ gsoMaxSegments) (htotal : total ≤ gsoMaxBytes) :
    ∃ k, gsoRunLoop addrs seg ds run total = (run + k, total + k * seg) ∧ k ≤ ds.length ∧
      (∀ d ∈ ds.take k, d.length = seg) ∧ run + k ≤ gsoMaxSegments ∧
      total + k * seg ≤ gsoMaxBytes ∧
      ∀ i, run ≤ i → i < run + k → destOf addrs i = destOf addrs 0 := by
  induction ds generalizing run total with
  | nil =>
      exact ⟨0, by simp [gsoRunLoop], le_rfl, by simp, by simpa using hrun,
        by simpa using htotal, fun i hi hik => by omega⟩
  | cons d ds ih =>
      rw [gsoRunLoop]
      by_cases hgo : run < gsoMaxSegments ∧ d.length = seg ∧ total + seg ≤ gsoMaxBytes ∧
          sameDest addrs run
      · obtain ⟨hlt, hseg, hle, hsame⟩ := hgo
        obtain ⟨k, hk, hlen, hfull, hsegs, hbytes, hdest⟩ := ih (show run + 1 ≤ _ from hlt) hle
        have hmul : (k + 1) * seg = k * seg + seg := Nat.succ_mul k seg
        refine ⟨k + 1, ?_, by simpa using hlen, ?_, by omega, by omega, fun i hi hik => ?_⟩
        · rw [if_pos ⟨hlt, hseg, hle, hsame⟩, hk, hmul]
          simp only [Prod.mk.injEq]
          omega
        · intro x hx
          rcases List.mem_cons.mp hx with rfl | hx
          · exact hseg
          · exact hfull x hx
        · rcases hi.eq_or_lt with rfl | hi
          · exact sameDest_iff.mp hsame
          · exact hdest i hi (by omega)
      · refine ⟨0, ?_, Nat.zero_le _, by simp, by simpa using hrun, by simpa using htotal,
          fun i hi hik => by omega⟩
        rw [if_neg hgo]
        simp

/-- The total of packets of one length. -/
theorem sum_map_length {ds : List Bytes} {seg : ℕ} (h : ∀ d ∈ ds, d.length = seg) :
    (ds.map List.length).sum = ds.length * seg := by
  induction ds with
  | nil => simp
  | cons d ds ih =>
      have hd : d.length = seg := h d (by simp)
      have hds := ih fun x hx => h x (List.mem_cons_of_mem _ hx)
      rw [List.map_cons, List.sum_cons, hds, hd, List.length_cons, Nat.succ_mul, Nat.add_comm]

/-- The packets of one length that the loop passes are a run, unless it is one packet. -/
theorem gsoRun_of_full {d : Bytes} {ds : List Bytes} {addrs : DestAddrs} {k : ℕ} (hk : 0 < k)
    (hlen : k ≤ ds.length) (hpos : 0 < d.length) (hfull : ∀ x ∈ ds.take k, x.length = d.length)
    (hsegs : 1 + k ≤ gsoMaxSegments) (hbytes : d.length + k * d.length ≤ gsoMaxBytes)
    (hsame : ∀ i, i < 1 + k → destOf addrs i = destOf addrs 0) :
    GsoRun (d :: ds) addrs (1 + k) := by
  have hall : ∀ x ∈ (d :: ds).take (1 + k), x.length = d.length := by
    rw [Nat.add_comm, List.take_succ_cons]
    rintro x (_ | ⟨_, hx⟩)
    · rfl
    · exact hfull x hx
  have hsum := sum_map_length hall
  rw [List.length_take, List.length_cons, Nat.min_eq_left (by omega), Nat.add_mul,
    Nat.one_mul] at hsum
  refine ⟨by omega, by simpa using (by omega : 1 + k ≤ ds.length + 1), hsegs, by omega, hpos,
    fun x hx => ?_, fun x hx => (hall x hx).le, hsame⟩
  exact hall x (List.take_subset_take_left _ (by omega) hx)

/-- A shorter packet behind packets of one length. -/
theorem gsoRun_of_tail {d x : Bytes} {ds : List Bytes} {addrs : DestAddrs} {k : ℕ}
    (hpos : 0 < d.length) (hfull : ∀ y ∈ ds.take k, y.length = d.length)
    (hx : (d :: ds)[1 + k]? = some x) (hlt : x.length < d.length)
    (hsegs : 1 + k < gsoMaxSegments) (hbytes : d.length + k * d.length + x.length ≤ gsoMaxBytes)
    (hsame : ∀ i, i < 1 + k + 1 → destOf addrs i = destOf addrs 0) :
    GsoRun (d :: ds) addrs (1 + k + 1) := by
  rw [Nat.add_comm 1 k, List.getElem?_cons_succ] at hx
  obtain ⟨hlen, hget⟩ := List.getElem?_eq_some_iff.mp hx
  have hsplit : (d :: ds).take (1 + k + 1) = d :: (ds.take k ++ [x]) := by
    rw [Nat.add_comm 1 k, List.take_succ_cons, List.take_add_one, hx, Option.toList_some]
  have hhead : (d :: ds).take (1 + k + 1 - 1) = d :: ds.take k := by
    rw [Nat.add_sub_cancel, Nat.add_comm, List.take_succ_cons]
  have hsum := sum_map_length hfull
  rw [List.length_take, Nat.min_eq_left hlen.le] at hsum
  refine ⟨by omega, by simpa using (by omega : 1 + k + 1 ≤ ds.length + 1), hsegs, ?_, hpos,
    fun y hy => ?_, fun y hy => ?_, hsame⟩
  · rw [hsplit]
    simp only [List.map_cons, List.map_append, List.map_nil, List.sum_cons, List.sum_append,
      List.sum_nil, hsum]
    omega
  · rw [hhead] at hy
    rcases List.mem_cons.mp hy with rfl | hy
    · rfl
    · exact hfull y hy
  · rw [hsplit, List.mem_cons, List.mem_append, List.mem_singleton] at hy
    rcases hy with rfl | hy | rfl
    · exact le_rfl
    · exact (hfull y hy).le
    · exact hlt.le

/-- The packets the loop passes, with a shorter one behind them, are a run unless they are one
packet. -/
theorem gsoRun_gsoRunTail {d : Bytes} {ds : List Bytes} {addrs : DestAddrs} {k : ℕ}
    (hlen : k ≤ ds.length) (hpos : 0 < d.length) (hfull : ∀ x ∈ ds.take k, x.length = d.length)
    (hsegs : 1 + k ≤ gsoMaxSegments) (hbytes : d.length + k * d.length ≤ gsoMaxBytes)
    (hsame : ∀ i, i < 1 + k → destOf addrs i = destOf addrs 0) {run : ℕ}
    (hrun : run = gsoRunTail (d :: ds) addrs d.length (1 + k) (d.length + k * d.length))
    (hlt : 1 < run) : GsoRun (d :: ds) addrs run := by
  have hkeep : run = 1 + k → GsoRun (d :: ds) addrs run := by
    rintro rfl
    exact gsoRun_of_full (by omega) hlen hpos hfull hsegs hbytes hsame
  rw [gsoRunTail] at hrun
  split at hrun
  · rename_i x hx
    split_ifs at hrun with htail
    · obtain ⟨hroom, hshort, hfit, hlast⟩ := htail
      rw [hrun]
      refine gsoRun_of_tail hpos hfull hx hshort hroom hfit fun i hi => ?_
      rcases Nat.lt_succ_iff_lt_or_eq.mp hi with hi | rfl
      · exact hsame i hi
      · exact sameDest_iff.mp hlast
    · exact hkeep hrun
  · exact hkeep hrun

/-- `gso_run_len` of a batch with a first packet. -/
theorem gsoRunLen_cons (d : Bytes) (ds : List Bytes) (addrs : DestAddrs) :
    gsoRunLen (d :: ds) addrs =
      if (d :: ds).length ≤ 1 then 0
      else if d.length = 0 ∨ d.length > gsoMaxBytes then 0
      else
        let p := gsoRunLoop addrs d.length ds 1 d.length
        let run := gsoRunTail (d :: ds) addrs d.length p.1 p.2
        if run > 1 then run else 0 := rfl

/-- One packet is no run. -/
theorem gsoRunLen_eq_zero_or_lt (iov : List Bytes) (addrs : DestAddrs) :
    gsoRunLen iov addrs = 0 ∨ 1 < gsoRunLen iov addrs := by
  rcases iov with _ | ⟨d, ds⟩
  · exact Or.inl rfl
  rw [gsoRunLen_cons]
  dsimp only
  split_ifs with hcount hseg hmore
  · exact Or.inl rfl
  · exact Or.inl rfl
  · exact Or.inr hmore
  · exact Or.inl rfl

/-- **What `gso_run_len` finds is a run.** -/
theorem gsoRun_gsoRunLen {iov : List Bytes} {addrs : DestAddrs} (h : 1 < gsoRunLen iov addrs) :
    GsoRun iov addrs (gsoRunLen iov addrs) := by
  rcases iov with _ | ⟨d, ds⟩
  · simp [gsoRunLen] at h
  rw [gsoRunLen_cons] at h ⊢
  by_cases hcount : (d :: ds).length ≤ 1
  · rw [if_pos hcount] at h
    omega
  rw [if_neg hcount] at h ⊢
  by_cases hseg : d.length = 0 ∨ d.length > gsoMaxBytes
  · rw [if_pos hseg] at h
    omega
  rw [if_neg hseg] at h ⊢
  have hone : 1 ≤ gsoMaxSegments := by decide
  have hfits : d.length ≤ gsoMaxBytes := by omega
  obtain ⟨k, hk, hlen, hfull, hsegs, hbytes, hdest⟩ :=
    gsoRunLoop_spec addrs d.length ds hone hfits
  have hsame : ∀ i, i < 1 + k → destOf addrs i = destOf addrs 0 := by
    intro i hi
    rcases Nat.eq_zero_or_pos i with rfl | hpos
    · rfl
    · exact hdest i hpos hi
  simp only [hk] at h ⊢
  generalize hrun : gsoRunTail (d :: ds) addrs d.length (1 + k) (d.length + k * d.length) = run
    at h ⊢
  by_cases hmore : run > 1
  · rw [if_pos hmore]
    exact gsoRun_gsoRunTail hlen (by omega) hfull hsegs hbytes hsame hrun.symm hmore
  · rw [if_neg hmore] at h
    omega

/-- The loop passes as many packets as it may. -/
theorem le_gsoRunLoop {addrs : DestAddrs} {seg : ℕ} {ds : List Bytes} {run total j : ℕ}
    (hlen : j ≤ ds.length) (hfull : ∀ d ∈ ds.take j, d.length = seg)
    (hsegs : run + j ≤ gsoMaxSegments) (hbytes : total + j * seg ≤ gsoMaxBytes)
    (hsame : ∀ i, run ≤ i → i < run + j → destOf addrs i = destOf addrs 0) :
    run + j ≤ (gsoRunLoop addrs seg ds run total).1 := by
  induction ds generalizing run total j with
  | nil =>
      obtain rfl := Nat.le_zero.mp hlen
      exact le_rfl
  | cons d ds ih =>
      rw [gsoRunLoop]
      rcases j with _ | j
      · split_ifs with hgo
        · have hnext : run + 1 + 0 ≤ (gsoRunLoop addrs seg ds (run + 1) (total + seg)).1 :=
            ih (Nat.zero_le _) (by simp) hgo.1 (by rw [Nat.zero_mul]; exact hgo.2.2.1)
              (fun i hi hik => by omega)
          omega
        · exact le_rfl
      · have hmul : (j + 1) * seg = j * seg + seg := Nat.succ_mul j seg
        have hgo : run < gsoMaxSegments ∧ d.length = seg ∧ total + seg ≤ gsoMaxBytes ∧
            sameDest addrs run :=
          ⟨by omega, hfull d (by simp), by omega, sameDest_iff.mpr (hsame run le_rfl (by omega))⟩
        rw [if_pos hgo]
        have hnext : run + 1 + j ≤ (gsoRunLoop addrs seg ds (run + 1) (total + seg)).1 :=
          ih (Nat.succ_le_succ_iff.mp hlen) (fun x hx => hfull x (by simp [hx])) (by omega)
            (by omega) (fun i hi hik => hsame i (by omega) (by omega))
        omega

theorem le_gsoRunTail (iov : List Bytes) (addrs : DestAddrs) (seg run total : ℕ) :
    run ≤ gsoRunTail iov addrs seg run total := by
  rw [gsoRunTail]
  split
  · split_ifs
    · exact Nat.le_succ run
    · exact le_rfl
  · exact le_rfl

/-- No run is longer than what the loop and the rule for the last packet find. -/
theorem GsoRun.le_loop {d : Bytes} {ds : List Bytes} {addrs : DestAddrs} {r : ℕ}
    (h : GsoRun (d :: ds) addrs r) :
    let p := gsoRunLoop addrs d.length ds 1 d.length
    r ≤ gsoRunTail (d :: ds) addrs d.length p.1 p.2 := by
  obtain ⟨r, rfl⟩ : ∃ k, r = k + 2 := ⟨r - 2, by have := h.one_lt; omega⟩
  have hlen : r + 1 ≤ ds.length := Nat.succ_le_succ_iff.mp h.le_length
  have hfull : ∀ x ∈ ds.take r, x.length = d.length := fun x hx =>
    h.full x (by simp [hx])
  -- the last packet
  have hlast : ds[r]? = some (ds.get ⟨r, hlen⟩) := List.getElem?_eq_getElem hlen
  generalize ds.get ⟨r, hlen⟩ = x at hlast
  have hsplit : (d :: ds).take (r + 2) = d :: (ds.take r ++ [x]) := by
    rw [List.take_succ_cons, List.take_add_one, hlast, Option.toList_some]
  have hx : x.length ≤ d.length := h.le_seg x (by simp [hsplit])
  have hsum := sum_map_length hfull
  rw [List.length_take, Nat.min_eq_left (by omega)] at hsum
  have hbytes := h.le_bytes
  rw [hsplit] at hbytes
  simp only [List.map_cons, List.map_append, List.map_nil, List.sum_cons, List.sum_append,
    List.sum_nil, hsum, Nat.add_zero] at hbytes
  have hsegs := h.le_segments
  intro p
  rcases hx.eq_or_lt with hx | hx
  · -- the loop passes it too
    have hall : ∀ y ∈ ds.take (r + 1), y.length = d.length := by
      rw [List.take_add_one, hlast, Option.toList_some]
      intro y hy
      rcases List.mem_append.mp hy with hy | hy
      · exact hfull y hy
      · rw [List.mem_singleton.mp hy, hx]
    have hmul : (r + 1) * d.length = r * d.length + d.length := Nat.succ_mul r _
    have hloop : 1 + (r + 1) ≤ p.1 := le_gsoRunLoop hlen hall (by omega) (by omega)
      (fun i _ hi => h.same i (by omega))
    have htail := le_gsoRunTail (d :: ds) addrs d.length p.1 p.2
    omega
  · have hloop : 1 + r ≤ p.1 := le_gsoRunLoop (by omega) hfull (by omega) (by omega)
      (fun i _ hi => h.same i (by omega))
    have hone : 1 ≤ gsoMaxSegments := by decide
    obtain ⟨k, hk, -, hpassed, -, -, -⟩ :=
      gsoRunLoop_spec addrs d.length ds hone (show d.length ≤ gsoMaxBytes by omega)
    have hp : p = (1 + k, d.length + k * d.length) := hk
    rw [hp] at hloop
    obtain rfl : k = r := by
      by_contra hne
      -- else it would be as long as the others
      have hmem : x ∈ ds.take k :=
        List.mem_of_getElem? (i := r) (by rw [List.getElem?_take_of_lt (by omega), hlast])
      exact absurd (hpassed x hmem) hx.ne
    rw [hp, gsoRunTail, Nat.add_comm 1 k, List.getElem?_cons_succ, hlast]
    dsimp only
    rw [if_pos ⟨by omega, hx, by omega, sameDest_iff.mpr (h.same _ (by omega))⟩]

/-- **What `gso_run_len` finds is the longest run**, and it returns 0 when there is none. -/
theorem gsoRunLen_longest (iov : List Bytes) (addrs : DestAddrs) :
    IsGreatest {r | GsoRun iov addrs r} (gsoRunLen iov addrs) ∨
      gsoRunLen iov addrs = 0 ∧ ∀ r, ¬ GsoRun iov addrs r := by
  have hle : ∀ r, GsoRun iov addrs r → r ≤ gsoRunLen iov addrs := by
    intro r h
    have hone := h.one_lt
    have hlength := h.le_length
    rcases iov with _ | ⟨d, ds⟩
    · exact absurd hlength (by simp only [List.length_nil]; omega)
    have hloop := h.le_loop
    have hfits := h.le_bytes
    rw [← Nat.sub_add_cancel hone.le, List.take_succ_cons, List.map_cons, List.sum_cons] at hfits
    have hpos : 0 < d.length := h.seg_pos
    dsimp only at hloop
    rw [gsoRunLen_cons, if_neg (by omega), if_neg (by omega)]
    dsimp only
    rw [if_pos (by omega)]
    exact hloop
  rcases gsoRunLen_eq_zero_or_lt iov addrs with hzero | hrun
  · refine Or.inr ⟨hzero, fun r h => ?_⟩
    have hr := hle r h
    have hone := h.one_lt
    omega
  · exact Or.inl ⟨gsoRun_gsoRunLen hrun, hle⟩

/-! ### What leaves -/

@[simp]
theorem plainFrom_nil (addrs : DestAddrs) (n : ℕ) : plainFrom addrs n [] = [] := rfl

@[simp]
theorem plainFrom_cons (addrs : DestAddrs) (n : ℕ) (d : Bytes) (ds : List Bytes) :
    plainFrom addrs n (d :: ds) = (d, destOf addrs n) :: plainFrom addrs (n + 1) ds := by
  simp [plainFrom, List.zipIdx_cons]

@[simp]
theorem length_plainFrom (addrs : DestAddrs) (n : ℕ) (iov : List Bytes) :
    (plainFrom addrs n iov).length = iov.length := by
  simp [plainFrom]

/-- The packets behind the first ones. -/
theorem plainFrom_drop (addrs : DestAddrs) (n k : ℕ) (iov : List Bytes) :
    plainFrom addrs (n + k) (iov.drop k) = (plainFrom addrs n iov).drop k := by
  induction iov generalizing n k with
  | nil => simp
  | cons d ds ih =>
      cases k with
      | zero => rfl
      | succ k => rw [plainFrom_cons, List.drop_succ_cons, List.drop_succ_cons, ← ih,
          Nat.add_right_comm, Nat.add_assoc]

/-- The first packets. -/
theorem plainFrom_take (addrs : DestAddrs) (n k : ℕ) (iov : List Bytes) :
    plainFrom addrs n (iov.take k) = (plainFrom addrs n iov).take k := by
  induction iov generalizing n k with
  | nil => simp
  | cons d ds ih =>
      cases k with
      | zero => rfl
      | succ k => simp [ih]

/-- Packets for one destination. -/
theorem plainFrom_of_same {addrs : DestAddrs} {n : ℕ} {iov : List Bytes} {o : Option CliAddr}
    (h : ∀ i, i < iov.length → destOf addrs (n + i) = o) :
    plainFrom addrs n iov = iov.map fun d => (d, o) := by
  induction iov generalizing n with
  | nil => rfl
  | cons d ds ih =>
      have hd : destOf addrs n = o := h 0 (by simp)
      have hds : ∀ i, i < ds.length → destOf addrs (n + 1 + i) = o := by
        intro i hi
        have := h (i + 1) (by simpa using hi)
        rwa [show n + (i + 1) = n + 1 + i by omega] at this
      rw [plainFrom_cons, hd, ih hds, List.map_cons]

/-- A segmented send that is refused. -/
theorem sendGso_error (iov : List Bytes) (run : ℕ) (addr : Option CliAddr) (e : Errno) :
    sendGso iov run addr (.error e) = (-(e.val : ℤ), []) := rfl

/-- A segmented send that is taken. -/
theorem sendGso_ok (iov : List Bytes) (run : ℕ) (addr : Option CliAddr) (u : Unit) :
    sendGso iov run addr (.ok u) =
      ((run : ℤ), gsoSlices (iov.take run) ((iov.headD []).length % 65536) addr) := by
  simp [sendGso]

/-- The kernel cuts a run into the packets it was made of. -/
theorem gsoSlices_eq_plainFrom {rest : List Bytes} {addrs : DestAddrs} {n run : ℕ}
    (h : GsoRun rest (destAdd addrs n) run) (hne : ∀ d ∈ rest, d ≠ []) :
    gsoSlices (rest.take run) ((rest.headD []).length % 65536) (destOf addrs n) =
      plainFrom addrs n (rest.take run) := by
  have hseg : (rest.headD []).length ≤ gsoMaxBytes := by
    refine le_trans ?_ h.le_bytes
    rcases rest with _ | ⟨d, ds⟩
    · exact absurd h.seg_pos (by simp)
    obtain ⟨k, rfl⟩ : ∃ k, run = k + 1 := ⟨run - 1, by have := h.one_lt; omega⟩
    simp
  have hfull : ∀ d ∈ (rest.take run).dropLast, d.length = (rest.headD []).length := by
    intro d hd
    rw [List.dropLast_eq_take, List.take_take, List.length_take] at hd
    exact h.full d (List.take_subset_take_left _ (by omega) hd)
  have hword : (rest.headD []).length < 65536 := lt_of_le_of_lt hseg (by decide)
  rw [gsoSlices, Nat.mod_eq_of_lt hword,
    Bytes.chunks_flatten h.seg_pos hfull (fun d hd => hne d (List.mem_of_mem_take hd)) h.le_seg]
  refine (plainFrom_of_same fun i hi => ?_).symm
  have hsame := h.same i (lt_of_lt_of_le hi (List.length_take_le _ _))
  rwa [destOf_destAdd, destOf_destAdd, Nat.add_zero] at hsame

/-- The packets in front of the next run are some of those that are left. -/
theorem flushLen_bounds (addrs : DestAddrs) (ds : List Bytes) (want : ℕ) :
    want ≤ flushLen addrs ds want ∧ flushLen addrs ds want ≤ want + ds.length := by
  induction ds generalizing want with
  | nil => simp [flushLen]
  | cons d ds ih =>
      rw [flushLen, List.length_cons]
      split_ifs
      · obtain ⟨hlo, hhi⟩ := ih (want + 1)
        omega
      · omega

/-! ### A turn -/

/-- Where a turn of the loop begins: the packets counted are those that left. -/
structure SendInv (iovecs : List Bytes) (addrs : DestAddrs) (s : SendLoop) : Prop where
  sent_le : s.sent ≤ iovecs.length
  wire_eq : s.wire = (plainFrom addrs 0 iovecs).take s.sent
  err_eq : s.err = 0

/-- What a turn does: it sends some packets more, or `sendmmsg` fails, which ends the loop with
the error and sends nothing. -/
def SendTurn.Advances (iovecs : List Bytes) (addrs : DestAddrs) (answer : Except Errno ℕ)
    (s : SendLoop) : SendTurn → Prop
  | .next s' => s.sent < s'.sent ∧ SendInv iovecs addrs s'
  | .stop s' => s'.sent = s.sent ∧ s'.wire = s.wire ∧ ∃ e, answer = .error e ∧ s'.err = e.val

/-- The next `r` packets behind those that left. -/
theorem wire_append {iovecs : List Bytes} {addrs : DestAddrs} {s : SendLoop}
    (h : s.wire = (plainFrom addrs 0 iovecs).take s.sent) (r : ℕ) :
    s.wire ++ plainFrom addrs s.sent ((iovecs.drop s.sent).take r) =
      (plainFrom addrs 0 iovecs).take (s.sent + r) := by
  have hdrop := plainFrom_drop addrs 0 s.sent iovecs
  rw [Nat.zero_add] at hdrop
  rw [h, plainFrom_take, hdrop, List.take_add]

/-- `sendmmsg` of some of the packets that are left. -/
theorem sendmmsg_advances {iovecs : List Bytes} {addrs : DestAddrs} {s t : SendLoop}
    {want : ℕ} (hsent : t.sent = s.sent) (hwire : t.wire = s.wire)
    (hinv : SendInv iovecs addrs s) (hpos : 0 < want)
    (hle : want ≤ (iovecs.drop s.sent).length) (answer : Except Errno ℕ) :
    (t.sendmmsg iovecs addrs want answer).Advances iovecs addrs answer s := by
  rw [List.length_drop] at hle
  cases answer with
  | error e => exact ⟨hsent, hwire, e, rfl, rfl⟩
  | ok more =>
      have hstart : t.wire = (plainFrom addrs 0 iovecs).take t.sent := by
        rw [hwire, hsent, hinv.wire_eq]
      refine ⟨?_, ?_, wire_append hstart _, rfl⟩
      · show s.sent < t.sent + min want (more + 1)
        omega
      · show t.sent + min want (more + 1) ≤ iovecs.length
        omega

/-- **A turn sends some packets more, in order, or `sendmmsg` fails and ends the loop.** -/
theorem sendTurn_cases {iovecs : List Bytes} {addrs : DestAddrs} {s : SendLoop}
    (hne : ∀ d ∈ iovecs, d ≠ []) (hinv : SendInv iovecs addrs s)
    (hleft : s.sent < iovecs.length) (a : SendAnswer) :
    (sendTurn iovecs addrs a s).Advances iovecs addrs a.mmsg s := by
  have hlen : (iovecs.drop s.sent).length = iovecs.length - s.sent := List.length_drop
  rw [sendTurn]
  dsimp only
  by_cases hok : (s.gsoOk && !a.gaveUp) = true
  · rw [if_pos hok]
    by_cases hrun : gsoRunLen (iovecs.drop s.sent) (destAdd addrs s.sent) > 1
    · -- a run at the head, which the kernel takes whole or refuses
      rw [if_pos hrun]
      have hgso := gsoRun_gsoRunLen hrun
      have hne' : ∀ d ∈ iovecs.drop s.sent, d ≠ [] :=
        fun d hd => hne d (List.mem_of_mem_drop hd)
      generalize gsoRunLen (iovecs.drop s.sent) (destAdd addrs s.sent) = run at hgso hrun ⊢
      have hle := hgso.le_length
      rcases a.gso with e | u
      · have hneg : ¬ (-(e.val : ℤ) > 0) := by omega
        rw [sendGso_error, if_neg hneg]
        exact sendmmsg_advances (by rfl) (by rfl) hinv (by omega) hle a.mmsg
      · have hpos : (run : ℤ) > 0 := by omega
        rw [sendGso_ok, if_pos hpos, Int.toNat_natCast]
        refine ⟨?_, ?_, ?_, rfl⟩
        · show s.sent < s.sent + run
          omega
        · show s.sent + run ≤ iovecs.length
          omega
        · show s.wire ++ gsoSlices _ _ _ = (plainFrom addrs 0 iovecs).take (s.sent + run)
          rw [gsoSlices_eq_plainFrom hgso hne', wire_append hinv.wire_eq]
    · -- no run at the head
      rw [if_neg hrun]
      obtain ⟨hlo, hhi⟩ := flushLen_bounds (destAdd addrs s.sent) (iovecs.drop s.sent).tail 1
      rw [List.length_tail] at hhi
      exact sendmmsg_advances (by rfl) (by rfl) hinv (by omega) (by omega) a.mmsg
  · rw [if_neg hok]
    exact sendmmsg_advances (by rfl) (by rfl) hinv (by omega) le_rfl a.mmsg

/-! ### The loop -/

/-- What the loop leaves of a batch, `sendmmsg` having answered `answers i` in turn `i`. -/
structure SendsBatch (iovecs : List Bytes) (addrs : DestAddrs) (answers : ℕ → SendAnswer)
    (r : SendLoop) : Prop where
  sent_le : r.sent ≤ iovecs.length
  /-- The packets counted are those that left, each once, in order, as it is and where it is
  to go. -/
  wire_eq : r.wire = (plainFrom addrs 0 iovecs).take r.sent
  err_eq_zero_iff : r.err = 0 ↔ r.sent = iovecs.length
  /-- The loop stops early only where `sendmmsg` fails, behind turns that have each sent a
  packet at least, and returns its error. -/
  stopped : r.err ≠ 0 → ∃ i ≤ r.sent, ∃ e, (answers i).mmsg = .error e ∧ r.err = e.val
  /-- Where `sendmmsg` does not fail, everything leaves. -/
  whole : (∀ i < iovecs.length, ∀ e, (answers i).mmsg ≠ .error e) →
    r.err = 0 ∧ r.wire = plainFrom addrs 0 iovecs

/-- With a turn of fuel for each packet that is left the loop ends. -/
theorem sendLoop_sends {iovecs : List Bytes} {addrs : DestAddrs} (answers : ℕ → SendAnswer)
    (hne : ∀ d ∈ iovecs, d ≠ []) {n i : ℕ} {s : SendLoop} (hinv : SendInv iovecs addrs s)
    (hfuel : iovecs.length ≤ s.sent + n) :
    ∃ r, sendLoop iovecs addrs answers n i s = some r ∧ r.sent ≤ iovecs.length ∧
      r.wire = (plainFrom addrs 0 iovecs).take r.sent ∧
      (r.err = 0 ↔ r.sent = iovecs.length) ∧
      (r.err ≠ 0 → ∃ j, j + s.sent ≤ i + r.sent ∧
        ∃ e, (answers j).mmsg = .error e ∧ r.err = e.val) := by
  have hdone : iovecs.length ≤ s.sent → (s.err = 0 ↔ s.sent = iovecs.length) := fun hle =>
    iff_of_true hinv.err_eq (le_antisymm hinv.sent_le hle)
  induction n generalizing i s with
  | zero =>
      refine ⟨s, ?_, hinv.sent_le, hinv.wire_eq, hdone (by omega),
        fun herr => absurd hinv.err_eq herr⟩
      rw [sendLoop, if_neg (by omega)]
  | succ n ih =>
      by_cases hleft : s.sent < iovecs.length
      · have hturn := sendTurn_cases hne hinv hleft (answers i)
        rw [sendLoop, if_pos hleft]
        revert hturn
        cases sendTurn iovecs addrs (answers i) s with
        | next s' =>
            rintro ⟨hmore, hinv'⟩
            obtain ⟨r, hr, hle, hwire, herr, hstop⟩ := ih (i := i + 1) hinv' (by omega) fun hle =>
              iff_of_true hinv'.err_eq (le_antisymm hinv'.sent_le hle)
            refine ⟨r, hr, hle, hwire, herr, fun hnz => ?_⟩
            obtain ⟨j, hj, hfails⟩ := hstop hnz
            exact ⟨j, by omega, hfails⟩
        | stop s' =>
            rintro ⟨hsent, hwire, e, hfails, herr⟩
            have hpos : s'.err ≠ 0 := herr ▸ e.pos.ne'
            refine ⟨s', rfl, hsent ▸ hinv.sent_le, ?_, iff_of_false hpos (by omega),
              fun _ => ⟨i, by omega, e, hfails, herr⟩⟩
            rw [hwire, hsent, hinv.wire_eq]
      · refine ⟨s, ?_, hinv.sent_le, hinv.wire_eq, hdone (by omega),
          fun herr => absurd hinv.err_eq herr⟩
        rw [sendLoop, if_neg hleft]

/-- **A batch sent with segmentation is the batch sent packet by packet.** The loop ends; what
left are the packets it counted, each once, in order, with its own bytes and destination; it
returns 0 exactly when these are all, and they are all unless `sendmmsg` fails, whose error it
returns then. -/
theorem sendBatchGso_sends (iovecs : List Bytes) (addrs : DestAddrs) (answers : ℕ → SendAnswer)
    (gsoOk : Bool) (gsoMsgs gsoSegs : UInt32) (hne : ∀ d ∈ iovecs, d ≠ []) :
    ∃ r, sendBatchGso iovecs addrs answers gsoOk gsoMsgs gsoSegs = some r ∧
      SendsBatch iovecs addrs answers r := by
  obtain ⟨r, hr, hle, hwire, herr, hstop⟩ := sendLoop_sends answers hne
    (s := ⟨0, 0, gsoOk, gsoMsgs, gsoSegs, []⟩) (n := iovecs.length) (i := 0)
    ⟨Nat.zero_le _, rfl, rfl⟩ (by simp)
  have hstopped : r.err ≠ 0 → ∃ i ≤ r.sent, ∃ e, (answers i).mmsg = .error e ∧ r.err = e.val := by
    intro hnz
    obtain ⟨j, hj, hfails⟩ := hstop hnz
    exact ⟨j, by simpa using hj, hfails⟩
  refine ⟨r, hr, hle, hwire, herr, hstopped, fun hok => ?_⟩
  have hzero : r.err = 0 := by
    by_contra hnz
    obtain ⟨i, hi, e, hfails, -⟩ := hstopped hnz
    have hlt : i < iovecs.length := lt_of_le_of_ne (hi.trans hle) fun heq =>
      hnz (herr.mpr (le_antisymm hle (heq ▸ hi)))
    exact hok i hlt e hfails
  refine ⟨hzero, ?_⟩
  rw [hwire, herr.mp hzero]
  exact List.take_of_length_le (by rw [length_plainFrom])

/-- Three packets as one segmented send that is refused, then `sendmmsg` takes two of them and
fails. -/
theorem sendBatchGso_sends_refused :
    ∃ r, sendBatchGso [[1], [2], [3]] none
        (fun i => if i = 0 then ⟨false, .error ⟨eio, by decide⟩, .ok 1⟩
          else ⟨false, .ok (), .error ⟨105, by decide⟩⟩) true 0 0 = some r ∧
      SendsBatch [[1], [2], [3]] none
        (fun i => if i = 0 then ⟨false, .error ⟨eio, by decide⟩, .ok 1⟩
          else ⟨false, .ok (), .error ⟨105, by decide⟩⟩) r ∧
      r.sent = 2 ∧ r.err = 105 ∧ r.wire = [([1], none), ([2], none)] := by
  obtain ⟨r, hr, hsends⟩ := sendBatchGso_sends [[1], [2], [3]] none
    (fun i => if i = 0 then ⟨false, .error ⟨eio, by decide⟩, .ok 1⟩
      else ⟨false, .ok (), .error ⟨105, by decide⟩⟩) true 0 0 (by simp)
  have hval : r = ⟨2, 105, false, 0, 0, [([1], none), ([2], none)]⟩ :=
    Option.some.inj (hr.symm.trans rfl)
  exact ⟨r, hr, hsends, by rw [hval], by rw [hval], by rw [hval]⟩

end AwgProxy
