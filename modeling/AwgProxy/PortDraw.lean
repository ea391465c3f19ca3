import AwgProxy.FastRand
import AwgProxy.PortSet
import Mathlib.Data.List.Nodup

/-!
# The Draw of a Port

A connection that has gone silent is dialled anew on another port of the set, drawn over the
ports and not over the ranges: a block of 150 ports is not to weigh the same as a single one.
The draw is an index below the number of ports, and a walk over the ranges finds its port.

* `map_portsetAt` — the walk lists the ports of the ranges, range after range.
* `count_portsetAt` — a port is found at as many indices as there are entries that list it.
* `evenDraw_iff` — the draw is even, on the ports of the set and no others, when no two entries
  have a port in common.
-/

namespace AwgProxy

/-! ### The code -/

/-- `fastrand_intn` on a positive bound: the number, and the generator behind it. -/
def fastrandIntn (rng : UInt64) (n : ℕ) : ℕ × UInt64 :=
  let v := fastrandU64 rng
  (v.toNat % n, v)

/-- The loop of `portset_at`, `none` where the ranges end before the index does. -/
def portsetAtLoop : List PortRange → ℕ → Option UInt16
  | [], _ => none
  | x :: r, idx =>
      if idx < x.size then some (.ofNat (x.lo + idx)) else portsetAtLoop r (idx - x.size)

/-- `portset_at`. -/
def portsetAt (ps : PortSet) (idx : ℕ) : UInt16 :=
  match portsetAtLoop ps.r idx with
  | some port => port
  -- unreachable while `total` matches the ranges
  | none => .ofNat ((ps.r.map PortRange.lo).headD 0)

/-- `portset_has`. -/
def portsetHas (ps : PortSet) (port : UInt16) : Bool :=
  ps.r.any fun x => x.lo ≤ port.toNat && port.toNat ≤ x.hi

/-- `portset_pick`: the port, and the generator behind it. -/
def portsetPick (ps : PortSet) (rng : UInt64) (avoid : UInt16) : UInt16 × UInt64 :=
  let (idx, rng) := fastrandIntn rng ps.total
  let port := portsetAt ps idx
  -- one redraw, not a loop
  if port = avoid ∧ 1 < ps.total then
    let (idx, rng) := fastrandIntn rng ps.total
    (portsetAt ps idx, rng)
  else (port, rng)

/-! ### What the draw is for -/

/-- The indices below `total` stand for the ports of the set, one for one, and a draw stays in
the set. -/
structure EvenDraw (ps : PortSet) : Prop where
  /-- An index finds a port of the set. -/
  has_at : ∀ idx < ps.total, portsetHas ps (portsetAt ps idx) = true
  /-- A port of the set is found at one index. -/
  unique : ∀ port, portsetHas ps port = true → ∃! idx, idx < ps.total ∧ portsetAt ps idx = port
  /-- A port that is drawn is one of the set. -/
  has_pick : ∀ rng avoid, portsetHas ps (portsetPick ps rng avoid).1 = true

/-- No port is in both ranges. -/
def PortRange.Apart (x y : PortRange) : Prop := x.hi < y.lo ∨ y.hi < x.lo

instance (x y : PortRange) : Decidable (x.Apart y) :=
  inferInstanceAs (Decidable (x.hi < y.lo ∨ y.hi < x.lo))

/-- The ports of a range. -/
def PortRange.ports (x : PortRange) : List UInt16 :=
  (List.range' x.lo x.size).map UInt16.ofNat

/-- The ports of the ranges, range after range. -/
def PortSet.ports (ps : PortSet) : List UInt16 := ps.r.flatMap PortRange.ports

/-! ### The ports of a range -/

/-- Both bounds of an entry are ports. -/
theorem PortToken.hi_le {t : List Char} {x : PortRange} (h : PortToken t x) : x.hi ≤ 65535 := by
  cases h with
  | single h => exact h.le
  | range _ hhi _ => exact hhi.le

/-- The bounds of a list are ports. -/
theorem PortList.hi_le {s : List Char} {xs : List PortRange} (h : PortList s xs) :
    ∀ x ∈ xs, x.hi ≤ 65535 := by
  induction h with
  | last h => simpa using h.hi_le
  | cons h _ ih =>
      intro x hx
      rcases List.mem_cons.mp hx with rfl | hx
      · exact h.hi_le
      · exact ih x hx

/-- No entry starts at zero. -/
theorem PortToken.lo_pos {t : List Char} {x : PortRange} (h : PortToken t x) : 0 < x.lo := by
  cases h with
  | single h => exact h.pos
  | range hlo _ _ => exact hlo.pos

theorem PortList.lo_pos {s : List Char} {xs : List PortRange} (h : PortList s xs) :
    ∀ x ∈ xs, 0 < x.lo := by
  induction h with
  | last h => exact List.forall_mem_singleton.mpr h.lo_pos
  | cons h _ ih => exact List.forall_mem_cons.mpr ⟨h.lo_pos, ih⟩

/-- A list has an entry. -/
theorem PortList.ne_nil {s : List Char} {xs : List PortRange} (h : PortList s xs) : xs ≠ [] := by
  cases h <;> simp

theorem PortRange.size_pos (x : PortRange) : 0 < x.size := Nat.succ_pos _

/-- The ports of a range are those between its bounds. -/
theorem PortRange.mem_ports {x : PortRange} (hx : x.hi ≤ 65535) {port : UInt16} :
    port ∈ x.ports ↔ x.lo ≤ port.toNat ∧ port.toNat ≤ x.hi := by
  have hle := x.le
  simp only [PortRange.ports, List.mem_map, List.mem_range'_1, PortRange.size]
  constructor
  · rintro ⟨v, ⟨hlo, hhi⟩, rfl⟩
    rw [UInt16.toNat_ofNat_of_lt' (by simp only [UInt16.size]; omega)]
    omega
  · rintro ⟨hlo, hhi⟩
    exact ⟨port.toNat, by omega, UInt16.ofNat_toNat⟩

/-- A range lists a port once. -/
theorem PortRange.nodup_ports {x : PortRange} (hx : x.hi ≤ 65535) : x.ports.Nodup := by
  have hle := x.le
  refine List.Nodup.map_on ?_ List.nodup_range'
  intro v hv w hw h
  simp only [List.mem_range'_1, PortRange.size] at hv hw
  have hv' : v < UInt16.size := by simp only [UInt16.size]; omega
  have hw' : w < UInt16.size := by simp only [UInt16.size]; omega
  simpa [UInt16.toNat_ofNat_of_lt' hv', UInt16.toNat_ofNat_of_lt' hw'] using
    congrArg UInt16.toNat h

/-- Ranges are apart when they share no port. -/
theorem PortRange.disjoint_ports {x y : PortRange} (hx : x.hi ≤ 65535) (hy : y.hi ≤ 65535) :
    x.ports.Disjoint y.ports ↔ x.Apart y := by
  have hxle := x.le
  have hyle := y.le
  constructor
  · intro h
    by_contra hnot
    simp only [PortRange.Apart, not_or, not_lt] at hnot
    -- the larger one of the lower bounds is in both
    have hmax : (UInt16.ofNat (max x.lo y.lo)).toNat = max x.lo y.lo :=
      UInt16.toNat_ofNat_of_lt' (by simp only [UInt16.size]; omega)
    have hinx : UInt16.ofNat (max x.lo y.lo) ∈ x.ports := (mem_ports hx).mpr (by omega)
    have hiny : UInt16.ofNat (max x.lo y.lo) ∈ y.ports := (mem_ports hy).mpr (by omega)
    exact h hinx hiny
  · intro h port hpx hpy
    have hpx := (mem_ports hx).mp hpx
    have hpy := (mem_ports hy).mp hpy
    simp only [PortRange.Apart] at h
    omega

/-! ### The walk -/

/-- The walk over the ranges lists their ports. -/
theorem map_portsetAtLoop (r : List PortRange) :
    (List.range (r.map PortRange.size).sum).map (portsetAtLoop r) =
      (r.flatMap PortRange.ports).map some := by
  induction r with
  | nil => rfl
  | cons x r ih =>
      have hin : (List.range x.size).map (portsetAtLoop (x :: r)) = x.ports.map some := by
        rw [PortRange.ports, List.range'_eq_map_range, List.map_map, List.map_map]
        refine List.map_congr_left fun idx hidx => ?_
        simp [portsetAtLoop, List.mem_range.mp hidx]
      have hout : (portsetAtLoop (x :: r)) ∘ (x.size + ·) = portsetAtLoop r := by
        funext idx
        simp [portsetAtLoop]
      rw [List.map_cons, List.sum_cons, List.range_add, List.map_append, List.map_map, hin, hout,
        ih, List.flatMap_cons, List.map_append]

/-- **The indices below `total` list the ports of the ranges, range after range.** -/
theorem map_portsetAt (ps : PortSet) :
    (List.range ps.total).map (portsetAt ps) = ps.ports := by
  have hloop := map_portsetAtLoop ps.r
  rw [← ps.total_eq] at hloop
  refine List.map_injective_iff.mpr (Option.some_injective _) ?_
  rw [PortSet.ports, ← hloop, List.map_map]
  refine List.map_congr_left fun idx hidx => ?_
  have hsome : portsetAtLoop ps.r idx ∈ (ps.r.flatMap PortRange.ports).map some :=
    hloop ▸ List.mem_map_of_mem hidx
  obtain ⟨port, -, hport⟩ := List.mem_map.mp hsome
  simp [portsetAt, ← hport]

/-- `portset_has` accepts the ports of the ranges. -/
theorem portsetHas_iff {ps : PortSet} (hps : ∀ x ∈ ps.r, x.hi ≤ 65535) {port : UInt16} :
    portsetHas ps port = true ↔ port ∈ ps.ports := by
  simp only [portsetHas, PortSet.ports, List.any_eq_true, List.mem_flatMap, Bool.and_eq_true,
    decide_eq_true_eq]
  exact exists_congr fun x => and_congr_right fun hx => (PortRange.mem_ports (hps x hx)).symm

/-- The ports an index finds. -/
theorem mem_ports_iff {ps : PortSet} {port : UInt16} :
    port ∈ ps.ports ↔ ∃ idx < ps.total, portsetAt ps idx = port := by
  simp [← map_portsetAt]

/-- A port is listed by a range at most once. -/
theorem PortRange.count_ports {x : PortRange} (hx : x.hi ≤ 65535) (port : UInt16) :
    x.ports.count port = if x.lo ≤ port.toNat ∧ port.toNat ≤ x.hi then 1 else 0 := by
  split
  · next hin => exact List.count_eq_one_of_mem (nodup_ports hx) ((mem_ports hx).mpr hin)
  · next hout => exact List.count_eq_zero_of_not_mem fun h => hout ((mem_ports hx).mp h)

/-- A port is listed as often as there are ranges that have it. -/
theorem count_flatMap_ports {r : List PortRange} (hr : ∀ x ∈ r, x.hi ≤ 65535) (port : UInt16) :
    (r.flatMap PortRange.ports).count port =
      r.countP fun x => x.lo ≤ port.toNat ∧ port.toNat ≤ x.hi := by
  induction r with
  | nil => rfl
  | cons x r ih =>
      rw [List.flatMap_cons, List.count_append, PortRange.count_ports (hr x (by simp)),
        ih fun y hy => hr y (by simp [hy]), List.countP_cons, Nat.add_comm]
      simp only [decide_eq_true_eq]

/-- **A port is found at as many indices as there are entries that list it.** -/
theorem count_portsetAt {ps : PortSet} (hps : ∀ x ∈ ps.r, x.hi ≤ 65535) (port : UInt16) :
    (List.range ps.total).countP (portsetAt ps · == port) =
      ps.r.countP fun x => x.lo ≤ port.toNat ∧ port.toNat ≤ x.hi := by
  rw [← count_flatMap_ports hps, ← PortSet.ports, ← map_portsetAt, List.count, List.countP_map]
  rfl

/-- The ports are all different when the ranges are apart. -/
theorem nodup_ports_iff {ps : PortSet} (hps : ∀ x ∈ ps.r, x.hi ≤ 65535) :
    ps.ports.Nodup ↔ ps.r.Pairwise PortRange.Apart := by
  rw [PortSet.ports, List.nodup_flatMap]
  constructor
  · rintro ⟨-, h⟩
    exact h.imp_of_mem fun hx hy => (PortRange.disjoint_ports (hps _ hx) (hps _ hy)).mp
  · intro h
    refine ⟨fun x hx => PortRange.nodup_ports (hps x hx), ?_⟩
    exact h.imp_of_mem fun hx hy => (PortRange.disjoint_ports (hps _ hx) (hps _ hy)).mpr

/-! ### The draw -/

/-- The ports are all different when no two indices find the same one. -/
theorem nodup_ports_iff_injOn (ps : PortSet) :
    ps.ports.Nodup ↔
      ∀ i < ps.total, ∀ j < ps.total, portsetAt ps i = portsetAt ps j → i = j := by
  rw [← map_portsetAt, List.nodup_map_iff_inj_on List.nodup_range]
  simp only [List.mem_range]

/-- A number drawn is below the bound. -/
theorem fastrandIntn_lt (rng : UInt64) {n : ℕ} (hn : 0 < n) : (fastrandIntn rng n).1 < n :=
  Nat.mod_lt _ hn

/-- A set with an entry has a port. -/
theorem PortSet.total_pos {ps : PortSet} (hps : ps.r ≠ []) : 0 < ps.total := by
  obtain ⟨x, r, hr⟩ := List.exists_cons_of_ne_nil hps
  have hx := x.size_pos
  rw [ps.total_eq, hr, List.map_cons, List.sum_cons]
  omega

/-- A draw is a port of the set, whether the first one or the redraw. -/
theorem portsetPick_mem {ps : PortSet} (hps : ps.r ≠ []) (rng : UInt64) (avoid : UInt16) :
    (portsetPick ps rng avoid).1 ∈ ps.ports := by
  have hdraw : ∀ rng, portsetAt ps (fastrandIntn rng ps.total).1 ∈ ps.ports := fun rng =>
    mem_ports_iff.mpr ⟨_, fastrandIntn_lt rng (PortSet.total_pos hps), rfl⟩
  simp only [portsetPick]
  split
  · exact hdraw _
  · exact hdraw _

/-- **The draw is even on the ports of the set exactly when no two entries of the list have a
port in common.** -/
theorem evenDraw_iff {s : List Char} {xs : List PortRange} {ps : PortSet}
    (h : parsePortSet s = some ps) (hs : PortList s xs) :
    EvenDraw ps ↔ xs.Pairwise PortRange.Apart := by
  obtain rfl : ps.r = xs := (portList_of_parsePortSet h).unique hs
  have hhas : ∀ port, portsetHas ps port = true ↔ port ∈ ps.ports := fun port =>
    portsetHas_iff hs.hi_le
  rw [← nodup_ports_iff hs.hi_le, nodup_ports_iff_injOn]
  constructor
  · intro heven i hi j hj hij
    exact (heven.unique _ (heven.has_at i hi)).unique ⟨hi, rfl⟩ ⟨hj, hij.symm⟩
  · intro hinj
    refine ⟨fun idx hidx => ?_, fun port hport => ?_, fun rng avoid => ?_⟩
    · exact (hhas _).mpr (mem_ports_iff.mpr ⟨idx, hidx, rfl⟩)
    · obtain ⟨idx, hidx, rfl⟩ := mem_ports_iff.mp ((hhas port).mp hport)
      exact ⟨idx, ⟨hidx, rfl⟩, fun j hj => hinj j hj.1 idx hidx hj.2⟩
    · exact (hhas _).mpr (portsetPick_mem hs.ne_nil rng avoid)

/-- Two ports, `443,8080`. -/
def twoPorts : PortSet := ⟨[.single 443, .single 8080], 2, rfl⟩

/-- They are drawn evenly. -/
theorem evenDraw_twoPorts : EvenDraw twoPorts :=
  have h : parsePortSet ['4', '4', '3', ',', '8', '0', '8', '0'] = some twoPorts := rfl
  (evenDraw_iff h (portList_of_parsePortSet h)).mpr (by decide)

/-- One port, written twice: `443,443`. -/
def samePort : PortSet := ⟨[.single 443, .single 443], 2, rfl⟩

/-- The proxy takes the list, and finds the port at both indices. -/
theorem not_evenDraw_samePort :
    parsePortSet ['4', '4', '3', ',', '4', '4', '3'] = some samePort ∧
      portsetAt samePort 0 = portsetAt samePort 1 ∧ ¬ EvenDraw samePort := by
  refine ⟨rfl, rfl, fun h => ?_⟩
  obtain ⟨idx, -, huniq⟩ := h.unique 443 rfl
  have hfirst := huniq 0 ⟨by decide, rfl⟩
  have hsecond := huniq 1 ⟨by decide, rfl⟩
  omega

end AwgProxy
