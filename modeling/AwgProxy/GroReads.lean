import AwgProxy.S2cLoop

/-!
# Reading with and without GRO

The two receive branches of the s2c thread forward the same packets, however the kernel
merges or batches what arrives and wherever the loop switches between the branches: the
datagrams are consumed in order, and each brings the client what it brings alone. They do
not take the same datagrams for an answer of the server: an empty one sets the flags of the
connection in the recvmmsg branch only.

* `groSplit_spec`, `mmsgLoop_spec` — what the two loops forward.
* `Advances` — what a step of the receive loop consumes, forwards and marks.
* `readsAlike_iff` — the outcome of consuming `ds` does not depend on the branches taken,
  unless all of `ds` is empty datagrams.
-/

namespace AwgProxy

/-! ### Forwarding a run of datagrams -/

/-- The packet function as it runs: an accepted stage with its flat fields, and the buffers
of the thread. -/
structure S2cReady (p : Proxy) : Prop where
  accepted : ∃ pr : AcceptedProfile, configActiveProfile p.cfg = pr.toAwgProfile
  mirrored : p.cfg.Mirrored
  gro : (p.mem .gro).length = groBufSize
  recv : ∀ i, i < batchSize → (p.mem (.recv i)).length = awgPacketBufSize + awgPacketHeadroom

/-- A state that differs by the window, and in the bytes of its buffers, is as ready. -/
theorem S2cReady.of_udpWindow {p p' : Proxy} (h : S2cReady p) {w : UInt32}
    (hcfg : p'.cfg = { p.cfg with udpWindow := w }) (hm : p.mem.SameShape p'.mem) :
    S2cReady p' := by
  obtain ⟨pr, hact⟩ := h.accepted
  refine ⟨⟨pr, ?_⟩, ?_, ?_, fun i hi => ?_⟩
  · rw [hcfg]
    exact hact
  · rw [hcfg]
    exact h.mirrored
  · rw [hm]
    exact h.gro
  · rw [hm]
    exact h.recv i hi

/-- What the client at `a` gets for the datagrams `ds`. -/
def clientGets (cfg : AwgConfig) (a : CliAddr) (ds : List Bytes) : List (Bytes × CliAddr) :=
  (ds.filterMap (normalDecode cfg)).map fun b => (b, a)

theorem clientGets_append (cfg : AwgConfig) (a : CliAddr) (ds es : List Bytes) :
    clientGets cfg a (ds ++ es) = clientGets cfg a ds ++ clientGets cfg a es := by
  rw [clientGets, List.filterMap_append, List.map_append]
  rfl

theorem clientGets_singleton (cfg : AwgConfig) (a : CliAddr) (d : Bytes) :
    clientGets cfg a [d] = ((normalDecode cfg d).map fun b => (b, a)).toList := by
  rw [clientGets, List.filterMap_cons, List.filterMap_nil]
  cases normalDecode cfg d <;> rfl

/-- From `p` to `p'` the packet function has queued what the datagrams `ds` bring. -/
structure Forwards (p p' : Proxy) (ds : List Bytes) : Prop where
  ready : S2cReady p'
  cfg : ∃ w, p'.cfg = { p.cfg with udpWindow := w }
  client : p'.clientAddr = p.clientAddr ∧ p'.hasClient = p.hasClient
  queued : p'.toClient = p.toClient ++ clientGets p.cfg p.clientAddr ds

/-- Nothing forwarded. -/
theorem Forwards.refl {p : Proxy} (h : S2cReady p) : Forwards p p [] :=
  ⟨h, ⟨p.cfg.udpWindow, rfl⟩, ⟨rfl, rfl⟩, (List.append_nil _).symm⟩

/-- What datagrams bring does not depend on the window. -/
theorem clientGets_udpWindow {p p' : Proxy} (h : S2cReady p) {w : UInt32}
    (hcfg : p'.cfg = { p.cfg with udpWindow := w }) (a : CliAddr) (ds : List Bytes) :
    clientGets p'.cfg a ds = clientGets p.cfg a ds := by
  obtain ⟨pr, hact⟩ := h.accepted
  rw [clientGets, clientGets, hcfg, funext (normalDecode_udpWindow hact h.mirrored w)]

theorem Forwards.trans {p p' p'' : Proxy} {ds es : List Bytes} (hp : S2cReady p)
    (h : Forwards p p' ds) (h' : Forwards p' p'' es) : Forwards p p'' (ds ++ es) := by
  obtain ⟨w, hw⟩ := h.cfg
  obtain ⟨w', hw'⟩ := h'.cfg
  refine ⟨h'.ready, ⟨w', ?_⟩, ⟨h'.client.1.trans h.client.1, h'.client.2.trans h.client.2⟩, ?_⟩
  · rw [hw', hw]
  · rw [h'.queued, h.queued, clientGets_udpWindow hp hw, h.client.1, clientGets_append,
      List.append_assoc]

/-- One datagram, apart from everything queued. -/
theorem forwards_processS2cPktNormal {p : Proxy} {pkt : Ptr PktBuf} {n : ℕ} (h : S2cReady p)
    (hf : p.mem.Fits pkt n) (hq : ∀ e ∈ p.queue, Mem.Apart e.base e.len pkt n) :
    Forwards p (processS2cPktNormal p pkt n) [p.mem.read pkt n] ∧
      p.mem.ChangesIn (processS2cPktNormal p pkt n).mem pkt n ∧
      ∀ e ∈ (processS2cPktNormal p pkt n).queue, e ∈ p.queue ∨
        e.base.buf = pkt.buf ∧ e.base.off + e.len ≤ pkt.off + n := by
  obtain ⟨pr, hact⟩ := h.accepted
  obtain ⟨hchg, ⟨w, hrest⟩, i, hqueue, hmsg⟩ := processS2cPktNormal_spec hact h.mirrored hf
  generalize processS2cPktNormal p pkt n = p' at hchg hrest hqueue hmsg ⊢
  have hcfg : p'.cfg = { p.cfg with udpWindow := w } := by rw [hrest]
  have hkept : ∀ e ∈ p.queue, (p'.mem.read e.base e.len, e.addr) =
      (p.mem.read e.base e.len, e.addr) := fun e he => by rw [hchg.apart _ _ (hq e he)]
  refine ⟨⟨h.of_udpWindow hcfg hchg.shape, ⟨w, hcfg⟩, ⟨?_, ?_⟩, ?_⟩, hchg, fun e he => ?_⟩
  · rw [hrest]
  · rw [hrest]
  · rw [Proxy.toClient, hqueue, List.map_append, List.map_congr_left hkept, clientGets_singleton]
    cases hd : normalDecode p.cfg (p.mem.read pkt n) with
    | none => rfl
    | some b =>
        rw [hd] at hmsg
        simp only [Option.map_some, Option.toList_some, List.map_cons, List.map_nil,
          (hmsg b rfl).2]
        rfl
  · rw [hqueue] at he
    refine (List.mem_append.mp he).imp_right fun he => ?_
    obtain ⟨b, hb, rfl⟩ := Option.map_eq_some_iff.mp (Option.mem_toList.mp he)
    have := (hmsg b hb).1
    refine ⟨rfl, ?_⟩
    dsimp only [Ptr.add_off]
    omega

/-! ### The loop over a merged read -/

/-- With segments of some length, fuel beyond the bytes left makes no difference. -/
theorem groSegments_fuel (m : Mem PktBuf) {n seg : ℕ} (hseg : 0 < seg) {fuel fuel' off : ℕ}
    (h : n - off ≤ fuel) (h' : n - off ≤ fuel') :
    groSegments m n seg fuel off = groSegments m n seg fuel' off := by
  induction fuel generalizing fuel' off with
  | zero =>
      cases fuel' with
      | zero => rfl
      | succ fuel' => rw [groSegments, groSegments, if_neg (by omega)]
  | succ fuel ih =>
      cases fuel' with
      | zero => rw [groSegments, groSegments, if_neg (by omega)]
      | succ fuel' =>
          have hrec : groSegments m n seg fuel (off + seg) =
              groSegments m n seg fuel' (off + seg) := ih (by omega) (by omega)
          rw [groSegments, groSegments, hrec]

/-- The segments from `off` on depend on the bytes from `off` on. -/
theorem groSegments_congr {m m' : Mem PktBuf} (n seg fuel : ℕ) {off : ℕ}
    (h : ∀ i l, off ≤ i → m'.read ⟨.gro, i⟩ l = m.read ⟨.gro, i⟩ l) :
    groSegments m' n seg fuel off = groSegments m n seg fuel off := by
  induction fuel generalizing off with
  | zero => rfl
  | succ fuel ih =>
      rw [groSegments, groSegments, h off _ le_rfl,
        ih fun i l hi => h i l ((Nat.le_add_right _ _).trans hi)]

/-- Nothing is left at the end. -/
theorem groSegments_of_le (m : Mem PktBuf) (seg fuel : ℕ) {n off : ℕ} (h : n ≤ off) :
    groSegments m n seg fuel off = [] := by
  cases fuel with
  | zero => rfl
  | succ fuel => rw [groSegments, if_neg (Nat.not_lt.mpr h)]

/-- The queue holds no byte of the buffer from `off` on. -/
def QueuedBelow (p : Proxy) (off : ℕ) : Prop :=
  ∀ e ∈ p.queue, e.base.buf = .gro ∧ e.base.off + e.len ≤ off

/-- Where the loop stops, nothing is forwarded. -/
theorem exists_forwards_nil {p : Proxy} {n seg fuel off : ℕ} (h : S2cReady p) (hseg : 0 < seg)
    (hfuel : n - off ≤ fuel) (hend : ¬ (off < n ∧ p.queue.length < batchSize)) :
    ∃ ds, groSegments p.mem n seg fuel off = ds ++ groSegments p.mem n seg (n - off) off ∧
      Forwards p p ds ∧ (off < n → p.queue.length < batchSize → ds ≠ []) := by
  refine ⟨[], ?_, .refl h, fun hoff hlen => absurd ⟨hoff, hlen⟩ hend⟩
  rw [List.nil_append, groSegments_fuel p.mem hseg hfuel le_rfl]

/-- **The loop over a merged read** forwards the segments it passes, and at least one. -/
theorem groSplit_spec {n seg : ℕ} (hseg : 0 < seg) (hn : n ≤ groBufSize) {fuel : ℕ} {p : Proxy}
    {off : ℕ} (h : S2cReady p) (hq : QueuedBelow p off) (hfuel : n - off ≤ fuel) :
    ∃ ds, groSegments p.mem n seg fuel off = ds ++
        groSegments (groSplit n seg fuel p off).1.mem n seg
          (n - (groSplit n seg fuel p off).2) (groSplit n seg fuel p off).2 ∧
      Forwards p (groSplit n seg fuel p off).1 ds ∧
      (off < n → p.queue.length < batchSize → ds ≠ []) := by
  induction fuel generalizing p off with
  | zero => exact exists_forwards_nil h hseg hfuel fun hgo => by omega
  | succ fuel ih =>
      rw [groSplit]
      by_cases hgo : off < n ∧ p.queue.length < batchSize
      · rw [if_pos hgo]
        have hlen : min seg (n - off) ≤ n - off := min_le_right _ _
        have hf : p.mem.Fits (⟨.gro, off⟩ : Ptr PktBuf) (min seg (n - off)) := by
          rw [Mem.Fits, h.gro]
          dsimp only
          omega
        have hapart : ∀ e ∈ p.queue,
            Mem.Apart e.base e.len (⟨.gro, off⟩ : Ptr PktBuf) (min seg (n - off)) :=
          fun e he => Or.inr (Or.inl (hq e he).2)
        obtain ⟨hfwd, hchg, hqueue⟩ := forwards_processS2cPktNormal h hf hapart
        generalize processS2cPktNormal p ⟨.gro, off⟩ (min seg (n - off)) = p₁
          at hfwd hchg hqueue ⊢
        have hq₁ : QueuedBelow p₁ (off + seg) := by
          intro e he
          have hmin : min seg (n - off) ≤ seg := min_le_left _ _
          rcases hqueue e he with he | ⟨hbuf, hend⟩
          · exact ⟨(hq e he).1, (hq e he).2.trans (Nat.le_add_right _ _)⟩
          · exact ⟨hbuf, hend.trans (Nat.add_le_add_left hmin off)⟩
        obtain ⟨ds, hds, hfwd', -⟩ := ih hfwd.ready hq₁ (by omega)
        -- the segments behind this one are as they were
        have hrest : groSegments p₁.mem n seg fuel (off + seg) =
            groSegments p.mem n seg fuel (off + seg) :=
          groSegments_congr n seg fuel fun i l hi => hchg.apart _ _
            (Or.inr (Or.inr (by dsimp only; omega)))
        refine ⟨p.mem.read ⟨.gro, off⟩ (min seg (n - off)) :: ds, ?_, hfwd.trans h hfwd', ?_⟩
        · rw [groSegments, if_pos hgo.1, ← hrest, hds]
          rfl
        · exact fun _ _ => List.cons_ne_nil _ _
      · rw [if_neg hgo]
        exact exists_forwards_nil h hseg hfuel hgo

/-- The segments of merged datagrams are these datagrams. -/
theorem groSegments_flatten (m : Mem PktBuf) {seg : ℕ} (hseg : 0 < seg) {ds : List Bytes}
    (hds : Segmented seg ds) {n off fuel : ℕ} (hn : n = off + ds.flatten.length)
    (hread : m.read ⟨.gro, off⟩ ds.flatten.length = ds.flatten) (hfuel : n - off ≤ fuel) :
    groSegments m n seg fuel off = ds := by
  induction ds generalizing off fuel with
  | nil =>
      rw [List.flatten_nil, List.length_nil, Nat.add_zero] at hn
      exact groSegments_of_le m seg fuel hn.le
  | cons d ds ih =>
      rw [List.flatten_cons, List.length_append] at hn hread
      rw [Mem.read_add] at hread
      -- the first segment is `d`, and the others start behind it
      have hd : 0 < d.length ∧ min seg (n - off) = d.length ∧
          (ds ≠ [] → d.length = seg) ∧ Segmented seg ds := by
        cases ds with
        | nil =>
            rw [List.flatten_nil, List.length_nil, Nat.add_zero] at hn
            obtain ⟨hpos, hle⟩ := hds
            exact ⟨hpos, by omega, nofun, trivial⟩
        | cons e es =>
            obtain ⟨hlen, htail⟩ := hds
            exact ⟨by omega, by omega, fun _ => hlen, htail⟩
      obtain ⟨hpos, hmin, hnext, htail⟩ := hd
      have hfits : (m.read ⟨.gro, off⟩ d.length).length = d.length := by
        have hlen := congrArg List.length hread
        rw [List.length_append, List.length_append] at hlen
        have hle : ∀ q k, (m.read q k).length ≤ k := fun q k => List.length_take_le _ _
        have h₁ := hle ⟨.gro, off⟩ d.length
        have h₂ := hle ((⟨.gro, off⟩ : Ptr PktBuf).add d.length) ds.flatten.length
        omega
      obtain ⟨hhead, hback⟩ := List.append_inj hread hfits
      obtain ⟨k, rfl⟩ : ∃ k, fuel = k + 1 := ⟨fuel - 1, by omega⟩
      rw [groSegments, if_pos (by omega), hmin, hhead]
      congr 1
      by_cases hnil : ds = []
      · subst hnil
        rw [List.flatten_nil, List.length_nil, Nat.add_zero] at hn
        exact groSegments_of_le m seg k (by omega)
      · rw [← hnext hnil]
        have hseg' := hnext hnil
        subst hseg'
        exact ih htail (by omega) hback (by omega)

/-! ### The loop over a batch read -/

/-- Empty datagrams bring the client nothing. -/
theorem clientGets_of_empty {p : Proxy} (h : S2cReady p) (a : CliAddr) {ds : List Bytes}
    (hds : ∀ d ∈ ds, d = []) : clientGets p.cfg a ds = [] := by
  obtain ⟨pr, hact⟩ := h.accepted
  have hflat : p.cfg.toAwgProfile = pr.toAwgProfile := h.mirrored.trans hact
  have hs4 : 0 ≤ p.cfg.s4 := hflat ▸ pr.valid.s4_mem.1
  have hnone : ds.filterMap (normalDecode p.cfg) = [] :=
    List.filterMap_eq_nil_iff.mpr fun d hd => by rw [hds d hd, normalDecode_nil hs4]
  rw [clientGets, hnone]
  rfl

/-- The buffers of a batch read from buffer `i` on hold the messages `ds`. -/
def Filled (m : Mem PktBuf) : ℕ → List Bytes → Prop
  | _, [] => True
  | i, d :: ds =>
      (m.Fits (⟨.recv i, 0⟩ : Ptr PktBuf) d.length ∧ m.read ⟨.recv i, 0⟩ d.length = d) ∧
        Filled m (i + 1) ds

theorem Filled.congr {m m' : Mem PktBuf} {i : ℕ} {ds : List Bytes} (h : Filled m i ds)
    (heq : ∀ j, i ≤ j → m' (.recv j) = m (.recv j)) : Filled m' i ds := by
  induction ds generalizing i with
  | nil => trivial
  | cons d ds ih =>
      obtain ⟨⟨hfits, hread⟩, hrest⟩ := h
      have hi := heq i le_rfl
      refine ⟨⟨?_, ?_⟩, ih hrest fun j hj => heq j (by omega)⟩
      · rw [Mem.Fits, hi]
        exact hfits
      · rw [Mem.read_congr hi, hread]

/-- A batch read fills the buffers and touches no others. -/
theorem mmsgFill_spec {m : Mem PktBuf} {len : ℕ} {ds : List Bytes} (hds : ∀ d ∈ ds, d.length ≤ len)
    {i : ℕ} (hm : ∀ j, i ≤ j → j < i + ds.length → len ≤ (m (.recv j)).length) :
    m.SameShape (mmsgFill m i ds) ∧ Filled (mmsgFill m i ds) i ds ∧
      ∀ b, (∀ j, i ≤ j → b ≠ .recv j) → mmsgFill m i ds b = m b := by
  induction ds generalizing m i with
  | nil => exact ⟨.refl m, trivial, fun _ _ => rfl⟩
  | cons d ds ih =>
      rw [List.length_cons] at hm
      have hfits : m.Fits (⟨.recv i, 0⟩ : Ptr PktBuf) d.length :=
        (Nat.zero_add _).le.trans ((hds d List.mem_cons_self).trans (hm i le_rfl (by omega)))
      have hshape := Mem.sameShape_write hfits
      obtain ⟨hshape', hfill, hother⟩ := ih (m := m.write ⟨.recv i, 0⟩ d) (i := i + 1)
        (fun e he => hds e (List.mem_cons_of_mem d he)) fun j hj hj' => by
          rw [hshape]
          exact hm j (by omega) (by omega)
      -- the buffer of `d` is not written again
      have hkept : mmsgFill (m.write ⟨.recv i, 0⟩ d) (i + 1) ds (.recv i) =
          m.write ⟨.recv i, 0⟩ d (.recv i) :=
        hother _ fun j hj heq => by
          obtain rfl := PktBuf.recv.inj heq
          omega
      refine ⟨hshape.trans hshape', ⟨⟨?_, ?_⟩, hfill⟩, fun b hb => ?_⟩
      · exact (hshape.trans hshape').fits_iff.mpr hfits
      · rw [mmsgFill, Mem.read_congr hkept, Mem.read_write_self hfits]
      · rw [mmsgFill, hother b fun j hj => hb j (by omega), Mem.write_buf_of_ne m d (hb i le_rfl)]

/-- **The loop over a batch read** forwards every message. -/
theorem mmsgLoop_spec {p : Proxy} (h : S2cReady p) {i : ℕ} {ds : List Bytes}
    (hfill : Filled p.mem i ds) (hq : ∀ e ∈ p.queue, ∀ j, i ≤ j → e.base.buf ≠ .recv j) :
    Forwards p (mmsgLoop p i (ds.map List.length)) ds := by
  induction ds generalizing p i with
  | nil => exact .refl h
  | cons d ds ih =>
      obtain ⟨⟨hfits, hread⟩, hrest⟩ := hfill
      rw [List.map_cons, mmsgLoop]
      by_cases hd : d.length = 0
      · rw [if_pos hd]
        have hone : Forwards p p [d] := by
          refine ⟨h, ⟨_, rfl⟩, ⟨rfl, rfl⟩, ?_⟩
          rw [clientGets_of_empty h _ fun e he => ?_, List.append_nil]
          rw [List.mem_singleton.mp he, List.length_eq_zero_iff.mp hd]
        exact hone.trans h (ih h hrest fun e he j hj => hq e he j (by omega))
      · rw [if_neg hd]
        obtain ⟨hone, hchg, hqueue⟩ := forwards_processS2cPktNormal h hfits
          fun e he => Or.inl (hq e he i le_rfl)
        rw [hread] at hone
        generalize processS2cPktNormal p ⟨.recv i, 0⟩ d.length = p₁ at hone hchg hqueue ⊢
        have hlater : ∀ j, i + 1 ≤ j → PktBuf.recv j ≠ .recv i := fun j hj heq => by
          obtain rfl := PktBuf.recv.inj heq
          omega
        refine hone.trans h (ih hone.ready (hrest.congr fun j hj => hchg.buf_eq (hlater j hj)) ?_)
        intro e he j hj
        rcases hqueue e he with he | ⟨hbuf, -⟩
        · exact hq e he j (by omega)
        · rw [hbuf]
          exact (hlater j hj).symm

/-! ### A turn -/

/-- The longest datagram that arrives. -/
abbrev maxDatagram : ℕ := 1500

/-- The datagrams that wait: the pending segments, then those on the socket. -/
def S2cLoop.outstanding (s : S2cLoop) : List Bytes :=
  groSegments s.proxy.mem s.groPendTotal s.groPendSeg (s.groPendTotal - s.groPendOff)
    s.groPendOff ++ s.arrived

/-- The loop between two turns, with a known client. -/
structure LoopReady (s : S2cLoop) : Prop where
  ready : S2cReady s.proxy
  client : s.proxy.hasClient = true
  queue : s.proxy.queue = []
  /-- Segments are pending of a read that fits the buffer, and GRO stays on. -/
  pend : s.groPendOff < s.groPendTotal → s.groEnabled = true ∧ 0 < s.groPendSeg ∧
    s.groPendSeg < s.groPendTotal ∧ s.groPendTotal ≤ groBufSize
  arrived : ∀ d ∈ s.arrived, d.length ≤ maxDatagram

/-- The flags of the connection after `ds` were consumed: untouched, and then no packet was
among them, or set, and then something was. -/
def FlagsAfter (s s' : S2cLoop) (ds : List Bytes) : Prop :=
  (∀ d ∈ ds, d = []) ∧ s'.lastRemoteRx = s.lastRemoteRx ∧ s'.feRemotePkt = s.feRemotePkt ∨
    ds ≠ [] ∧ s'.lastRemoteRx = true ∧ s'.feRemotePkt = true

theorem FlagsAfter.trans {s s' s'' : S2cLoop} {ds es : List Bytes} (h : FlagsAfter s s' ds)
    (h' : FlagsAfter s' s'' es) : FlagsAfter s s'' (ds ++ es) := by
  rcases h' with ⟨hes, hrx', hfe'⟩ | ⟨hes, hset⟩
  · rcases h with ⟨hds, hrx, hfe⟩ | ⟨hds, hrx, hfe⟩
    · exact Or.inl ⟨List.forall_mem_append.mpr ⟨hds, hes⟩, hrx'.trans hrx, hfe'.trans hfe⟩
    · exact Or.inr ⟨List.append_ne_nil_of_left_ne_nil hds es, hrx'.trans hrx, hfe'.trans hfe⟩
  · exact Or.inr ⟨List.append_ne_nil_of_right_ne_nil ds hes, hset⟩

/-- From `s` to `s'` the datagrams `arr` arrive, and the loop consumes `ds`: each brings the
client what it brings alone. -/
structure Advances (s s' : S2cLoop) (arr ds : List Bytes) : Prop where
  ready : LoopReady s'
  cfg : ∃ w, s'.proxy.cfg = { s.proxy.cfg with udpWindow := w }
  client : s'.proxy.clientAddr = s.proxy.clientAddr
  consumed : s.outstanding ++ arr = ds ++ s'.outstanding
  delivered : s'.delivered = s.delivered ++ clientGets s.proxy.cfg s.proxy.clientAddr ds
  flags : FlagsAfter s s' ds

/-- A step that leaves the packet function, what was delivered and the flags alone consumes
nothing. -/
theorem Advances.still {s s' : S2cLoop} {arr : List Bytes} (h : LoopReady s')
    (hproxy : s'.proxy = s.proxy) (hout : s'.outstanding = s.outstanding ++ arr)
    (hdel : s'.delivered = s.delivered)
    (hflags : s'.lastRemoteRx = s.lastRemoteRx ∧ s'.feRemotePkt = s.feRemotePkt) :
    Advances s s' arr [] := by
  refine ⟨h, ⟨s.proxy.cfg.udpWindow, ?_⟩, ?_, ?_, ?_, Or.inl ⟨nofun, hflags⟩⟩
  · rw [hproxy]
  · rw [hproxy]
  · rw [hout, List.nil_append]
  · rw [hdel]
    exact (List.append_nil _).symm

theorem Advances.trans {s s' s'' : S2cLoop} {arr arr' ds es : List Bytes} (hs : LoopReady s)
    (h : Advances s s' arr ds) (h' : Advances s' s'' arr' es) :
    Advances s s'' (arr ++ arr') (ds ++ es) := by
  obtain ⟨w, hw⟩ := h.cfg
  obtain ⟨w', hw'⟩ := h'.cfg
  refine ⟨h'.ready, ⟨w', ?_⟩, h'.client.trans h.client, ?_, ?_, h.flags.trans h'.flags⟩
  · rw [hw', hw]
  · rw [← List.append_assoc, h.consumed, List.append_assoc, h'.consumed, List.append_assoc]
  · rw [h'.delivered, h.delivered, clientGets_udpWindow hs.ready hw, h.client, clientGets_append,
      List.append_assoc]

/-- The branch that forwards what the packet function made of the state before, `p'`: it
sets the flags and sends the queue. -/
structure Sends (s s' : S2cLoop) (p' : Proxy) : Prop where
  proxy : s'.proxy = { p' with queue := [] }
  delivered : s'.delivered = s.delivered ++ p'.toClient
  arrived : s'.arrived = s.arrived
  flags : s'.lastRemoteRx = true ∧ s'.feRemotePkt = true

/-- The GRO branch on a merged read. -/
theorem sends_groForward_split {s : S2cLoop} {c n seg : ℕ} (hc : s.proxy.hasClient = true)
    (hseg : seg > 0 ∧ n > seg) :
    Sends s (s.groForward c n seg) (groSplit n seg (n - s.groPendOff) s.proxy s.groPendOff).1 ∧
      (s.groForward c n seg).outstanding =
        groSegments (groSplit n seg (n - s.groPendOff) s.proxy s.groPendOff).1.mem n seg
          (n - (groSplit n seg (n - s.groPendOff) s.proxy s.groPendOff).2)
          (groSplit n seg (n - s.groPendOff) s.proxy s.groPendOff).2 ++ s.arrived ∧
      ((s.groForward c n seg).groPendOff < (s.groForward c n seg).groPendTotal →
        (s.groForward c n seg).groEnabled = s.groEnabled ∧
          (s.groForward c n seg).groPendSeg = seg ∧ (s.groForward c n seg).groPendTotal = n) := by
  have hc' : (s.noteRx c true).proxy.hasClient = true := hc
  rw [S2cLoop.groForward]
  dsimp only
  rw [hc', Bool.not_true, if_neg Bool.false_ne_true, if_pos hseg]
  have hnote : (s.noteRx c true).proxy = s.proxy ∧
      (s.noteRx c true).groPendOff = s.groPendOff := ⟨rfl, rfl⟩
  rw [hnote.1, hnote.2]
  split
  · exact ⟨⟨rfl, rfl, rfl, rfl, rfl⟩, rfl, fun _ => ⟨rfl, rfl, rfl⟩⟩
  · rename_i hend
    refine ⟨⟨rfl, rfl, rfl, rfl, rfl⟩, ?_, fun hp => absurd hp (Nat.lt_irrefl 0)⟩
    rw [groSegments_of_le _ _ _ (Nat.not_lt.mp hend)]
    rfl

/-- The GRO branch on a single datagram. -/
theorem sends_groForward_single {s : S2cLoop} {c n seg : ℕ} (hc : s.proxy.hasClient = true)
    (hseg : ¬ (seg > 0 ∧ n > seg)) :
    Sends s (s.groForward c n seg) (processS2cPktNormal s.proxy ⟨.gro, 0⟩ n) ∧
      (s.groForward c n seg).groPendOff = s.groPendOff ∧
      (s.groForward c n seg).groPendTotal = s.groPendTotal := by
  have hc' : (s.noteRx c true).proxy.hasClient = true := hc
  rw [S2cLoop.groForward]
  dsimp only
  rw [hc', Bool.not_true, if_neg Bool.false_ne_true, if_neg hseg]
  split
  · exact ⟨⟨rfl, rfl, rfl, rfl, rfl⟩, rfl, rfl⟩
  · exact ⟨⟨rfl, rfl, rfl, rfl, rfl⟩, rfl, rfl⟩

/-- The recvmmsg branch. -/
theorem sends_mmsgForward {s : S2cLoop} {c : ℕ} {ds : List Bytes}
    (hc : s.proxy.hasClient = true) :
    Sends s (s.mmsgForward c ds)
        (mmsgLoop { s.proxy with mem := mmsgFill s.proxy.mem 0 ds } 0 (ds.map List.length)) ∧
      (s.mmsgForward c ds).groPendOff = s.groPendOff ∧
      (s.mmsgForward c ds).groPendTotal = s.groPendTotal := by
  rw [S2cLoop.mmsgForward]
  dsimp only
  have hc' : (S2cLoop.noteRx
      { s with proxy := { s.proxy with mem := mmsgFill s.proxy.mem 0 ds } } c
      ((ds.head?.elim 0 List.length) > 0)).proxy.hasClient = true := hc
  rw [hc', Bool.not_true, if_neg Bool.false_ne_true]
  exact ⟨⟨rfl, rfl, rfl, rfl, rfl⟩, rfl, rfl⟩

/-- Writing a datagram or a batch into the buffers keeps the packet function ready. -/
theorem S2cReady.mem {p : Proxy} (h : S2cReady p) {m : Mem PktBuf} (hm : p.mem.SameShape m) :
    S2cReady { p with mem := m } :=
  h.of_udpWindow (w := p.cfg.udpWindow) rfl hm

/-- `q` is the state `s` with what was read from the socket in the buffers `m`. -/
structure ReadInto (s q : S2cLoop) (m : Mem PktBuf) : Prop where
  proxy : q.proxy = { s.proxy with mem := m }
  shape : s.proxy.mem.SameShape m
  delivered : q.delivered = s.delivered
  arrived : ∀ d ∈ q.arrived, d ∈ s.arrived

/-- Nothing was read. -/
theorem ReadInto.refl (s : S2cLoop) : ReadInto s s s.proxy.mem :=
  ⟨rfl, .refl _, rfl, fun _ hd => hd⟩

theorem ReadInto.ready {s q : S2cLoop} {m : Mem PktBuf} (hq : ReadInto s q m) (h : LoopReady s) :
    S2cReady q.proxy := by
  rw [hq.proxy]
  exact h.ready.mem hq.shape

theorem ReadInto.client {s q : S2cLoop} {m : Mem PktBuf} (hq : ReadInto s q m)
    (h : LoopReady s) : q.proxy.hasClient = true := by
  rw [hq.proxy]
  exact h.client

theorem ReadInto.queue {s q : S2cLoop} {m : Mem PktBuf} (hq : ReadInto s q m)
    (h : LoopReady s) : q.proxy.queue = [] := by
  rw [hq.proxy]
  exact h.queue

/-- A branch that forwards `ds` from the filled buffers `q` advances by `ds`. -/
theorem advances_of_sends {s q s' : S2cLoop} {m : Mem PktBuf} {p' : Proxy} {ds : List Bytes}
    (h : LoopReady s) (hq : ReadInto s q m) (hfwd : Forwards q.proxy p' ds) (hs : Sends q s' p')
    (hne : ds ≠ []) (hout : s.outstanding = ds ++ s'.outstanding)
    (hpend : s'.groPendOff < s'.groPendTotal → s'.groEnabled = true ∧ 0 < s'.groPendSeg ∧
      s'.groPendSeg < s'.groPendTotal ∧ s'.groPendTotal ≤ groBufSize) : Advances s s' [] ds := by
  have hcfg : q.proxy.cfg = s.proxy.cfg := by rw [hq.proxy]
  have hclient : q.proxy.clientAddr = s.proxy.clientAddr := by rw [hq.proxy]
  have hempty : q.proxy.toClient = [] := by rw [Proxy.toClient, hq.queue h]; rfl
  refine ⟨⟨?_, ?_, ?_, hpend, ?_⟩, ?_, ?_, ?_, ?_, Or.inr ⟨hne, hs.flags⟩⟩
  · rw [hs.proxy]
    exact ⟨hfwd.ready.accepted, hfwd.ready.mirrored, hfwd.ready.gro, hfwd.ready.recv⟩
  · rw [hs.proxy]
    exact hfwd.client.2.trans (hq.client h)
  · rw [hs.proxy]
  · rw [hs.arrived]
    exact fun d hd => h.arrived d (hq.arrived d hd)
  · rw [hs.proxy, ← hcfg]
    exact hfwd.cfg
  · rw [hs.proxy, ← hclient]
    exact hfwd.client.1
  · rw [List.append_nil, hout]
  · rw [hs.delivered, hq.delivered, hfwd.queued, hempty, hcfg, hclient]
    rfl

/-- Nothing pending: what waits is on the socket. -/
theorem outstanding_of_not_pending {s : S2cLoop} (h : ¬ s.groPendOff < s.groPendTotal) :
    s.outstanding = s.arrived := by
  rw [S2cLoop.outstanding, groSegments_of_le _ _ _ (Nat.not_lt.mp h)]
  rfl

/-- The GRO branch on the segments from `gro_pend_off` on. -/
theorem advances_split {s q : S2cLoop} {m : Mem PktBuf} {c n seg : ℕ} (h : LoopReady s)
    (hq : ReadInto s q m) (hgro : q.groEnabled = true) (hseg : 0 < seg ∧ seg < n)
    (hn : n ≤ groBufSize) (hoff : q.groPendOff < n)
    (hout : s.outstanding =
      groSegments q.proxy.mem n seg (n - q.groPendOff) q.groPendOff ++ q.arrived) :
    ∃ ds, Advances s (q.groForward c n seg) [] ds := by
  have hempty : QueuedBelow q.proxy q.groPendOff := by
    rw [QueuedBelow, hq.queue h]
    exact nofun
  have hroom : q.proxy.queue.length < batchSize := by
    rw [hq.queue h]
    decide
  obtain ⟨ds, hds, hfwd, hne⟩ := groSplit_spec hseg.1 hn (hq.ready h) hempty le_rfl
  obtain ⟨hs, hout', hpend⟩ := sends_groForward_split (c := c) (hq.client h) hseg
  refine ⟨ds, advances_of_sends h hq hfwd hs (hne hoff hroom) ?_ fun hp => ?_⟩
  · rw [hout, hout', hds, List.append_assoc]
  · obtain ⟨hon, hseg', htotal⟩ := hpend hp
    rw [hon, hseg', htotal]
    exact ⟨hgro, hseg.1, hseg.2, hn⟩

/-- The GRO branch on a datagram that was read alone. -/
theorem advances_single {s q : S2cLoop} {m : Mem PktBuf} {c : ℕ} {d : Bytes} (h : LoopReady s)
    (hq : ReadInto s q m) (hoff : ¬ q.groPendOff < q.groPendTotal)
    (hf : m.Fits (⟨.gro, 0⟩ : Ptr PktBuf) d.length) (hread : m.read ⟨.gro, 0⟩ d.length = d)
    (hout : s.outstanding = d :: q.arrived) :
    Advances s (q.groForward c d.length 0) [] [d] := by
  have hmem : q.proxy.mem = m := by rw [hq.proxy]
  obtain ⟨hs, hoff', htotal⟩ := @sends_groForward_single q c d.length 0 (hq.client h)
    fun hseg => absurd hseg.1 (Nat.lt_irrefl 0)
  have hend : ¬ (q.groForward c d.length 0).groPendOff <
      (q.groForward c d.length 0).groPendTotal := by
    rw [hoff', htotal]
    exact hoff
  rw [← hmem] at hf hread
  obtain ⟨hfwd, -⟩ := forwards_processS2cPktNormal (hq.ready h) hf fun e he =>
    absurd he (by rw [hq.queue h]; exact nofun)
  rw [hread] at hfwd
  refine advances_of_sends h hq hfwd hs (List.cons_ne_nil _ _) ?_ fun hp => absurd hp hend
  rw [hout, outstanding_of_not_pending hend, hs.arrived]
  rfl

/-- Merged datagrams are segmented by the reported size, and there is more than one
segment. -/
theorem segmented_of_coalescible {d e : Bytes} {ds : List Bytes}
    (h : Coalescible (d :: e :: ds)) :
    Segmented d.length (d :: e :: ds) ∧ 0 < d.length ∧ (d :: e :: ds).flatten.length > d.length ∧
      (d :: e :: ds).flatten.length ≤ groBufSize := by
  obtain ⟨hpos, hseg, -, hsize⟩ := h
  have he : 0 < e.length := by
    cases ds with
    | nil => exact hseg.2.1
    | cons e' ds => exact hseg.2.1 ▸ hpos
  refine ⟨hseg, hpos, ?_, hsize⟩
  rw [List.flatten_cons, List.flatten_cons, List.length_append, List.length_append]
  omega

/-- The turn on a merged read. -/
theorem advances_groRead {s : S2cLoop} {c k : ℕ} (h : LoopReady s) (hgro : s.groEnabled = true)
    (hp : ¬ s.groPendOff < s.groPendTotal) (hco : Coalescible (s.arrived.take k)) :
    ∃ es,
      Advances s ({ s with arrived := s.arrived.drop k }.groRead c (s.arrived.take k)) [] es := by
  have hout : s.outstanding = s.arrived.take k ++ s.arrived.drop k :=
    (outstanding_of_not_pending hp).trans (List.take_append_drop k s.arrived).symm
  have hdrop : ∀ d ∈ s.arrived.drop k, d ∈ s.arrived := fun d hd => List.mem_of_mem_drop hd
  have htake : ∀ d ∈ s.arrived.take k, d.length ≤ maxDatagram :=
    fun d hd => h.arrived d (List.mem_of_mem_take hd)
  generalize s.arrived.take k = ds at hco hout htake ⊢
  generalize s.arrived.drop k = rest at hout hdrop ⊢
  have hsize : ds.flatten.length ≤ groBufSize := by
    rcases ds with _ | ⟨d, _ | ⟨e, ds⟩⟩
    · exact hco.elim
    · rw [List.flatten_singleton]
      exact (htake d (List.mem_singleton.mpr rfl)).trans (by decide)
    · exact (segmented_of_coalescible hco).2.2.2
  have hfits : s.proxy.mem.Fits (⟨.gro, 0⟩ : Ptr PktBuf) ds.flatten.length := by
    rw [Mem.Fits, h.ready.gro]
    dsimp only
    omega
  have hread := Mem.read_write_self hfits
  have hshape := Mem.sameShape_write hfits
  rw [S2cLoop.groRead]
  dsimp only
  split
  · -- an empty read: the loop goes round without noting it
    rename_i hnil
    have hall : ∀ d ∈ ds, d = [] := by
      rw [List.length_eq_zero_iff, List.flatten_eq_nil_iff] at hnil
      exact hnil
    refine ⟨ds, ⟨h.ready.mem hshape, h.client, h.queue, fun hp' => absurd hp' hp, fun d hd =>
      h.arrived d (hdrop d hd)⟩, ⟨s.proxy.cfg.udpWindow, rfl⟩, rfl, ?_, ?_,
      Or.inl ⟨hall, rfl, rfl⟩⟩
    · rw [List.append_nil, hout]
      refine congrArg (ds ++ ·) (Eq.symm ?_)
      apply outstanding_of_not_pending
      exact hp
    · rw [clientGets_of_empty h.ready _ hall, List.append_nil]
  · rename_i hpos
    have hq : ReadInto s
        { s with
          proxy := { s.proxy with mem := s.proxy.mem.write ⟨.gro, 0⟩ ds.flatten }
          arrived := rest, heard := s.heard ++ [c], groPendOff := 0, groPendTotal := 0 }
        (s.proxy.mem.write ⟨.gro, 0⟩ ds.flatten) := ⟨rfl, hshape, rfl, hdrop⟩
    rcases ds with _ | ⟨d, _ | ⟨e, ds⟩⟩
    · exact hco.elim
    · rw [List.flatten_singleton] at hread hfits hshape hq ⊢
      exact ⟨[d], advances_single h hq (Nat.lt_irrefl 0) (hshape.fits_iff.mpr hfits) hread hout⟩
    · obtain ⟨hseg, hpos', hgt, hle⟩ := segmented_of_coalescible hco
      refine advances_split h hq hgro ⟨hpos', hgt⟩ hle (by dsimp only; omega) ?_
      rw [hout]
      exact congrArg (· ++ rest)
        (groSegments_flatten _ hpos' hseg (Nat.zero_add _).symm hread le_rfl).symm

/-- The turn on a batch read. -/
theorem advances_mmsg {s q : S2cLoop} {c : ℕ} {ds : List Bytes} (h : LoopReady s)
    (hq : ReadInto s q s.proxy.mem) (hp : ¬ q.groPendOff < q.groPendTotal) (hne : ds ≠ [])
    (hlen : ds.length ≤ batchSize) (hsz : ∀ d ∈ ds, d.length ≤ maxDatagram)
    (hout : s.outstanding = ds ++ q.arrived) : Advances s (q.mmsgForward c ds) [] ds := by
  have hroom : ∀ j, 0 ≤ j → j < 0 + ds.length →
      maxDatagram ≤ (q.proxy.mem (.recv j)).length := by
    intro j _ hj
    rw [(hq.ready h).recv j (by omega)]
    decide
  obtain ⟨hshape, hfill, -⟩ := mmsgFill_spec hsz hroom
  obtain ⟨hs, hoff, htotal⟩ := @sends_mmsgForward q c ds (hq.client h)
  have hend : ¬ (q.mmsgForward c ds).groPendOff < (q.mmsgForward c ds).groPendTotal := by
    rw [hoff, htotal]
    exact hp
  have hq' : ReadInto s { q with proxy := { q.proxy with mem := mmsgFill q.proxy.mem 0 ds } }
      (mmsgFill q.proxy.mem 0 ds) := by
    refine ⟨?_, ?_, hq.delivered, hq.arrived⟩
    · dsimp only
      rw [hq.proxy]
    · have hmem : q.proxy.mem = s.proxy.mem := by rw [hq.proxy]
      rw [← hmem]
      exact hshape
  have hfwd := mmsgLoop_spec (hq'.ready h) (i := 0) hfill fun e he =>
    absurd he (by rw [hq'.queue h]; exact nofun)
  refine advances_of_sends h hq' hfwd ⟨hs.proxy, hs.delivered, hs.arrived, hs.flags⟩ hne ?_
    fun hp' => absurd hp' hend
  rw [hout, outstanding_of_not_pending hend, hs.arrived]

/-! ### The loop -/

/-- The loop reads what arrives: there is no reconnect, no `shutdown` for one, and no tick
that clears a flag. -/
def Quiet : S2cEvent → Prop
  | .arrive d => d.length ≤ maxDatagram
  | .turn r => r ≠ .woken
  | _ => False

/-- A turn advances. -/
theorem advances_turn {s s' : S2cLoop} {c : ℕ} {r : TurnRead} (h : LoopReady s)
    (hr : r ≠ .woken) (hs : s.turn c r = some s') : ∃ ds, Advances s s' [] ds := by
  cases turnStep_of_turn hs with
  | pending hgro hp =>
      obtain ⟨-, hseg, hlt, hle⟩ := h.pend hp
      exact advances_split h (.refl s) hgro ⟨hseg, hlt⟩ hle hp rfl
  | gro k hgro hp hk hco => exact advances_groRead h hgro hp hco
  | idle _ hidle wait need =>
      exact ⟨[], .still ⟨h.ready, h.client, h.queue, h.pend, h.arrived⟩ rfl
        (List.append_nil _).symm rfl ⟨rfl, rfl⟩⟩
  | rearm hgro hdue gap =>
      have hnp : ¬ s.groPendOff < s.groPendTotal := fun hp => hgro (h.pend hp).1
      exact ⟨[], .still ⟨h.ready, h.client, h.queue, fun hp => absurd hp hnp, h.arrived⟩ rfl
        (List.append_nil _).symm rfl ⟨rfl, rfl⟩⟩
  | mmsg k hgro hk =>
      have hp : ¬ s.groPendOff < s.groPendTotal := fun hp => hgro (h.pend hp).1
      refine ⟨s.arrived.take k, advances_mmsg h ⟨rfl, .refl _, rfl, fun d hd =>
        List.mem_of_mem_drop hd⟩ hp ?_ ?_ (fun d hd => h.arrived d (List.mem_of_mem_take hd)) ?_⟩
      · rw [Ne, List.take_eq_nil_iff, ← List.length_eq_zero_iff]
        omega
      · exact (List.length_take_le _ _).trans hk.2.1
      · exact (outstanding_of_not_pending hp).trans (List.take_append_drop k s.arrived).symm
  | woken hgro => exact absurd rfl hr

/-- The datagrams that arrive in a run. -/
def arrivals (es : List S2cEvent) : List Bytes :=
  es.filterMap fun
    | .arrive d => some d
    | _ => none

/-- A step advances. -/
theorem advances_step {s s' : S2cLoop} {e : S2cEvent} (h : LoopReady s) (he : Quiet e)
    (hs : s2cStep s e = some s') : ∃ ds, Advances s s' (arrivals [e]) ds := by
  cases e with
  | arrive d =>
      obtain ⟨-, rfl⟩ := Option.ite_some_none_eq_some.mp hs
      have harrived : ∀ d' ∈ s.arrived ++ [d], d'.length ≤ maxDatagram :=
        List.forall_mem_append.mpr ⟨h.arrived, fun d' hd => List.mem_singleton.mp hd ▸ he⟩
      exact ⟨[], .still ⟨h.ready, h.client, h.queue, h.pend, harrived⟩ rfl
        (List.append_assoc ..).symm rfl ⟨rfl, rfl⟩⟩
  | turn r =>
      obtain ⟨-, hs⟩ := Option.ite_none_left_eq_some.mp hs
      obtain ⟨c, hfd, hs⟩ := Option.bind_eq_some_iff.mp hs
      exact advances_turn h he hs
  | client a => exact he.elim
  | tick => exact he.elim
  | needReconnect => exact he.elim
  | reconnect dead o => exact he.elim

/-- **A run advances**: what waits and what arrives is consumed in order. -/
theorem advances_run {s t : S2cLoop} {es : List S2cEvent} (h : LoopReady s)
    (hes : ∀ e ∈ es, Quiet e) (hrun : s2cMachine.run s es = some t) :
    ∃ ds, Advances s t (arrivals es) ds := by
  induction es generalizing s with
  | nil =>
      obtain rfl := Option.some.inj hrun
      exact ⟨[], .still h rfl (List.append_nil _).symm rfl ⟨rfl, rfl⟩⟩
  | cons e es ih =>
      rw [Machine.run_cons, Option.bind_eq_some_iff] at hrun
      obtain ⟨s', hs, hrun⟩ := hrun
      obtain ⟨ds, hds⟩ := advances_step h (hes e List.mem_cons_self) hs
      obtain ⟨ds', hds'⟩ := ih hds.ready (fun e he => hes e (List.mem_cons_of_mem _ he)) hrun
      have harr : arrivals (e :: es) = arrivals [e] ++ arrivals es :=
        @List.filterMap_append _ _ [e] es _
      rw [harr]
      exact ⟨ds ++ ds', hds.trans h hds'⟩

/-! ### The same reads, by any branch -/

/-- A loop on the packet function `p`, with its flags cleared, has consumed `ds` and stands
in `t`: whatever its controller was about to do, however the kernel merged or batched what it
read, and wherever it switched between the branches. -/
def Reads (p : Proxy) (ds : List Bytes) (t : S2cLoop) : Prop :=
  ∃ s es, (s.proxy = p ∧ LoopReady s) ∧
    (s.lastRemoteRx = false ∧ s.feRemotePkt = false ∧ s.delivered = []) ∧
    s2cMachine.run s es = some t ∧ (∀ e ∈ es, Quiet e) ∧
    s.outstanding ++ arrivals es = ds ∧ t.outstanding = []

/-- Reading `ds` ends in the same way by any branch. -/
def ReadsAlike (p : Proxy) (ds : List Bytes) : Prop :=
  ∀ t t', Reads p ds t → Reads p ds t' → t.delivered = t'.delivered ∧
    t.lastRemoteRx = t'.lastRemoteRx ∧ t.feRemotePkt = t'.feRemotePkt

/-- What the client gets is fixed, and the flags are set or not at all. -/
theorem Reads.outcome {p : Proxy} {ds : List Bytes} {t : S2cLoop} (h : Reads p ds t) :
    t.delivered = clientGets p.cfg p.clientAddr ds ∧
      ((∀ d ∈ ds, d = []) ∧ t.lastRemoteRx = false ∧ t.feRemotePkt = false ∨
        ds ≠ [] ∧ t.lastRemoteRx = true ∧ t.feRemotePkt = true) := by
  obtain ⟨s, es, ⟨rfl, hready⟩, ⟨hrx, hfe, hdel⟩, hrun, hes, harr, hend⟩ := h
  obtain ⟨ds', hadv⟩ := advances_run hready hes hrun
  have hall : ds' = ds := by
    rw [← harr, hadv.consumed, hend, List.append_nil]
  subst hall
  refine ⟨?_, ?_⟩
  · rw [hadv.delivered, hdel]
    rfl
  · have hflags := hadv.flags
    rw [FlagsAfter, hrx, hfe] at hflags
    exact hflags

/-- A loop with the datagrams `ds` on the socket, with GRO or without. -/
def openLoop (p : Proxy) (gro : Bool) (ds : List Bytes) : S2cLoop where
  proxy := p
  remoteFd := some 0
  nextConn := 1
  reconnectNeeded := false
  warp := false
  noGro := false
  groEnabled := gro
  groNoCoalesce := 0
  groRearmIn := 0
  groRearmGap := groRearmMin
  groPendOff := 0
  groPendTotal := 0
  groPendSeg := 0
  lastRemoteRx := false
  feRemotePkt := false
  portKeep := false
  arrived := ds
  delivered := []
  heard := []
  kept := []

/-- The packet function before a read, with a known client. -/
structure ProxyReady (p : Proxy) : Prop extends S2cReady p where
  client : p.hasClient = true
  queue : p.queue = []

theorem loopReady_openLoop {p : Proxy} (h : ProxyReady p) (gro : Bool) {ds : List Bytes}
    (hds : ∀ d ∈ ds, d.length ≤ maxDatagram) : LoopReady (openLoop p gro ds) :=
  ⟨h.toS2cReady, h.client, h.queue, nofun, hds⟩

/-- A turn of the loop on an open connection. -/
theorem s2cStep_turn {s : S2cLoop} {c : ℕ} (hfd : s.remoteFd = some c)
    (hneed : s.reconnectNeeded = false) (r : TurnRead) :
    s2cStep s (.turn r) = s.turn c r := by
  have hstep : s2cStep s (.turn r) =
    if s.reconnectNeeded then none else s.remoteFd.bind fun c => s.turn c r := rfl
  rw [hstep, hneed, hfd, if_neg Bool.false_ne_true, Option.bind_some]

/-- The controls of the loop that no branch touches. -/
theorem mmsgForward_control (s : S2cLoop) (c : ℕ) (ds : List Bytes) :
    (s.mmsgForward c ds).remoteFd = s.remoteFd ∧
      (s.mmsgForward c ds).reconnectNeeded = s.reconnectNeeded ∧
      (s.mmsgForward c ds).groEnabled = s.groEnabled := by
  rw [S2cLoop.mmsgForward]
  dsimp only
  split
  · exact ⟨rfl, rfl, rfl⟩
  · exact ⟨rfl, rfl, rfl⟩

/-- Empty datagrams read in the GRO branch set no flag. -/
theorem run_gro_of_empty {s : S2cLoop} {c : ℕ} (hfd : s.remoteFd = some c)
    (hneed : s.reconnectNeeded = false) (hgro : s.groEnabled = true)
    (hp : ¬ s.groPendOff < s.groPendTotal) {n : ℕ} (hds : s.arrived = List.replicate n []) :
    ∃ t, s2cMachine.run s (List.replicate n (.turn (.gro 1))) = some t ∧
      t.outstanding = [] ∧ t.lastRemoteRx = s.lastRemoteRx := by
  induction n generalizing s with
  | zero => exact ⟨s, rfl, (outstanding_of_not_pending hp).trans hds, rfl⟩
  | succ n ih =>
      rw [List.replicate_succ] at hds
      have hk : 1 ≤ s.arrived.length ∧ Coalescible (s.arrived.take 1) := by
        rw [hds]
        exact ⟨Nat.le_add_left 1 _, trivial⟩
      have hturn : s.turn c (.gro 1) =
          some ({ s with arrived := s.arrived.drop 1 }.groRead c (s.arrived.take 1)) := by
        rw [S2cLoop.turn, if_pos hgro, if_neg hp]
        exact if_pos hk
      -- the read leaves the loop as it was, without its first datagram
      have hread : { s with arrived := s.arrived.drop 1 }.groRead c (s.arrived.take 1) = { s with
          proxy := { s.proxy with mem := s.proxy.mem.write ⟨.gro, 0⟩ [] }
          arrived := List.replicate n []
          heard := s.heard ++ [c] } := by
        rw [hds]
        rfl
      rw [hread] at hturn
      obtain ⟨t, hrun, ht⟩ := ih (s := { s with
        proxy := { s.proxy with mem := s.proxy.mem.write ⟨.gro, 0⟩ [] }
        arrived := List.replicate n []
        heard := s.heard ++ [c] }) hfd hneed hgro hp rfl
      refine ⟨t, ?_, ht⟩
      rw [List.replicate_succ, Machine.run_cons, Option.bind_eq_some_iff]
      exact ⟨_, (s2cStep_turn hfd hneed _).trans hturn, hrun⟩

/-- A message read in the recvmmsg branch sets the flags, also an empty one. -/
theorem run_mmsg_of_empty {s : S2cLoop} {c : ℕ} (hfd : s.remoteFd = some c)
    (hneed : s.reconnectNeeded = false) (hgro : s.groEnabled ≠ true)
    (hp : ¬ s.groPendOff < s.groPendTotal) (hc : s.proxy.hasClient = true) {n : ℕ}
    (hds : s.arrived = List.replicate n []) :
    ∃ t, s2cMachine.run s (List.replicate n (.turn (.mmsg 1))) = some t ∧
      t.outstanding = [] ∧ (0 < n ∨ s.lastRemoteRx = true → t.lastRemoteRx = true) := by
  induction n generalizing s with
  | zero =>
      exact ⟨s, rfl, (outstanding_of_not_pending hp).trans hds, fun h =>
        h.resolve_left (Nat.lt_irrefl 0)⟩
  | succ n ih =>
      rw [List.replicate_succ] at hds
      have hk : 0 < 1 ∧ 1 ≤ batchSize ∧ 1 ≤ s.arrived.length := by
        rw [hds]
        exact ⟨Nat.one_pos, by decide, Nat.le_add_left 1 _⟩
      generalize hq : ({ s with
        groRearmIn := s.groRearmIn - 1
        arrived := s.arrived.drop 1
        heard := s.heard ++ [c] } : S2cLoop) = q
      have hturn : s.turn c (.mmsg 1) = some (q.mmsgForward c [[]]) := by
        unfold S2cLoop.turn
        rw [if_neg hgro, ← hq]
        refine (if_pos hk).trans ?_
        rw [hds]
        rfl
      have hcq : q.proxy.hasClient = true := by
        rw [← hq]
        exact hc
      obtain ⟨hfd', hneed', hgro'⟩ := mmsgForward_control q c [[]]
      obtain ⟨hs, hoff, htotal⟩ := @sends_mmsgForward q c [[]] hcq
      obtain ⟨t, hrun, hout, hset⟩ := ih (s := q.mmsgForward c [[]])
        (by rw [hfd', ← hq]; exact hfd) (by rw [hneed', ← hq]; exact hneed)
        (by rw [hgro', ← hq]; exact hgro) (by rw [hoff, htotal, ← hq]; exact hp)
        (by rw [hs.proxy]; exact hcq) (by rw [hs.arrived, ← hq]; dsimp only; rw [hds]; rfl)
      refine ⟨t, ?_, hout, fun _ => hset (Or.inr hs.flags.1)⟩
      rw [List.replicate_succ, Machine.run_cons, Option.bind_eq_some_iff]
      exact ⟨_, (s2cStep_turn hfd hneed _).trans hturn, hrun⟩

/-- Reading nothing but empty datagrams with GRO, and without. -/
theorem exists_reads_of_empty {p : Proxy} (h : ProxyReady p) (n : ℕ) :
    (∃ t, Reads p (List.replicate n []) t ∧ t.lastRemoteRx = false) ∧
      ∃ t, Reads p (List.replicate n []) t ∧ (0 < n → t.lastRemoteRx = true) := by
  have hds : ∀ d ∈ List.replicate n ([] : Bytes), d.length ≤ maxDatagram := fun d hd => by
    rw [List.eq_of_mem_replicate hd]
    exact Nat.zero_le _
  have hquiet : ∀ r, r ≠ TurnRead.woken →
      ∀ e ∈ List.replicate n (S2cEvent.turn r), Quiet e := fun r hr e he => by
    rw [List.eq_of_mem_replicate he]
    exact hr
  have harr : ∀ gro r, (openLoop p gro (List.replicate n [])).outstanding ++
      arrivals (List.replicate n (.turn r)) = List.replicate n [] := fun gro r => by
    have hnone : arrivals (List.replicate n (.turn r)) = [] :=
      List.filterMap_eq_nil_iff.mpr fun e he => by rw [List.eq_of_mem_replicate he]
    rw [hnone, List.append_nil]
    exact outstanding_of_not_pending (s := openLoop p gro (List.replicate n []))
      (Nat.lt_irrefl 0)
  refine ⟨?_, ?_⟩
  · obtain ⟨t, hrun, hout, hrx⟩ := run_gro_of_empty
      (s := openLoop p true (List.replicate n [])) rfl rfl rfl (Nat.lt_irrefl 0) rfl
    exact ⟨t, ⟨_, _, ⟨rfl, loopReady_openLoop h true hds⟩, ⟨rfl, rfl, rfl⟩, hrun,
      hquiet _ nofun, harr true _, hout⟩, hrx⟩
  · obtain ⟨t, hrun, hout, hrx⟩ := run_mmsg_of_empty
      (s := openLoop p false (List.replicate n [])) rfl rfl nofun (Nat.lt_irrefl 0) h.client rfl
    exact ⟨t, ⟨_, _, ⟨rfl, loopReady_openLoop h false hds⟩, ⟨rfl, rfl, rfl⟩, hrun,
      hquiet _ nofun, harr false _, hout⟩, fun hn => hrx (Or.inl hn)⟩

/-- **Reading with GRO is reading without**, for every way the kernel merges or batches what
arrives and every point where the loop switches, exactly when nothing arrived or a datagram
that is not empty did. -/
theorem readsAlike_iff {p : Proxy} (h : ProxyReady p) (ds : List Bytes) :
    ReadsAlike p ds ↔ ds = [] ∨ ∃ d ∈ ds, d ≠ [] := by
  constructor
  · intro halike
    by_contra hcon
    push Not at hcon
    obtain ⟨hne, hall⟩ := hcon
    -- every datagram is empty
    obtain ⟨n, rfl⟩ : ∃ n, ds = List.replicate n [] :=
      ⟨ds.length, List.eq_replicate_iff.mpr ⟨rfl, hall⟩⟩
    obtain ⟨⟨t, ht, hrx⟩, t', ht', hrx'⟩ := exists_reads_of_empty h n
    have hn : 0 < n := Nat.pos_of_ne_zero fun hn => hne (by rw [hn]; rfl)
    obtain ⟨-, hsame, -⟩ := halike t t' ht ht'
    rw [hrx, hrx' hn] at hsame
    contradiction
  · intro hds t t' ht ht'
    obtain ⟨hdel, hflags⟩ := ht.outcome
    obtain ⟨hdel', hflags'⟩ := ht'.outcome
    refine ⟨hdel.trans hdel'.symm, ?_⟩
    rcases hds with rfl | ⟨d, hd, hne⟩
    · obtain ⟨-, hrx, hfe⟩ := hflags.resolve_right fun hset => hset.1 rfl
      obtain ⟨-, hrx', hfe'⟩ := hflags'.resolve_right fun hset => hset.1 rfl
      exact ⟨hrx.trans hrx'.symm, hfe.trans hfe'.symm⟩
    · obtain ⟨-, hrx, hfe⟩ := hflags.resolve_left fun hset => hne (hset.1 d hd)
      obtain ⟨-, hrx', hfe'⟩ := hflags'.resolve_left fun hset => hne (hset.1 d hd)
      exact ⟨hrx.trans hrx'.symm, hfe.trans hfe'.symm⟩

/-- The buffers of the thread. -/
def s2cMem : Mem PktBuf
  | .gro => List.replicate groBufSize 0
  | _ => List.replicate (awgPacketBufSize + awgPacketHeadroom) 0

/-- The packet function with a known client, under a profile that changes nothing. -/
def quietProxy : Proxy :=
  { Proxy.zeroed bareConfig s2cMem with hasClient := true }

theorem proxyReady_quietProxy : ProxyReady quietProxy := by
  refine ⟨⟨⟨plainProfile, rfl⟩, rfl, ?_, fun i _ => ?_⟩, rfl, rfl⟩
  · exact List.length_replicate
  · exact List.length_replicate

/-- A keepalive and an empty datagram. -/
theorem readsAlike_keepalive : ReadsAlike quietProxy [keepalivePkt, []] :=
  (readsAlike_iff proxyReady_quietProxy _).mpr
    (Or.inr ⟨keepalivePkt, List.mem_cons_self, by decide⟩)

/-- An empty datagram, read with GRO and without: the flags differ. -/
theorem not_readsAlike_empty : ProxyReady quietProxy ∧ ¬ ReadsAlike quietProxy [[]] := by
  refine ⟨proxyReady_quietProxy, fun halike => ?_⟩
  obtain ⟨⟨t, ht, hrx⟩, t', ht', hrx'⟩ := exists_reads_of_empty proxyReady_quietProxy 1
  obtain ⟨-, hsame, -⟩ := halike t t' ht ht'
  rw [hrx, hrx' Nat.one_pos] at hsame
  contradiction

end AwgProxy
