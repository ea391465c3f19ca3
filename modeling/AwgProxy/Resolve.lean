import AwgProxy.Lib.CyclicWalk
import AwgProxy.Reconnect

/-!
# The Records of a Name

A name may list several servers. The one in use stays while it is listed; once it has gone
silent the record behind it takes over, round the list. What the proxy keeps of the one in use
is its address, and it finds its place in the list by that.

* `recScan_eq` — the single pass finds the first record, the one in use and the one behind it.
* `ip_silentPick` — a silent address hands over to its successor on the list.
* `rel_pickRec` — the pass on the records is the pass on their bare addresses.
* `silentTried_iff` — all addresses get their turn exactly when the list loops back at its first
  repetition.
-/

namespace AwgProxy

open CyclicWalk

/-! ### The code -/

/-- The families of addresses. -/
inductive SaFamily
  /-- `AF_INET`. -/
  | inet
  /-- `AF_INET6`. -/
  | inet6
  /-- A family the proxy does not know. -/
  | other (code : UInt16)
  deriving DecidableEq

/-- `struct sockaddr`. -/
inductive SockAddr
  /-- `struct sockaddr_in`. -/
  | inet (port : UInt16) (addr : Vector UInt8 4)
  /-- `struct sockaddr_in6`. -/
  | inet6 (port : UInt16) (flowinfo : UInt32) (addr : Vector UInt8 16) (scope : UInt32)
  /-- A family the proxy does not know. -/
  | other (code : UInt16)

/-- `sa_family`. -/
def SockAddr.family : SockAddr → SaFamily
  | .inet _ _ => .inet
  | .inet6 _ _ _ _ => .inet6
  | .other code => .other code

/-- `struct addrinfo`. The family of a record is that of its address. -/
structure AddrInfo where
  /-- `ai_family`. -/
  family : SaFamily
  /-- `ai_addrlen`. -/
  addrlen : ℕ
  /-- `ai_addr`. -/
  addr : SockAddr
  /-- The two families agree. -/
  family_eq : addr.family = family

/-- `awg_addr_t`. -/
structure AwgAddr where
  /-- `sa`. -/
  sa : SockAddr
  /-- `len`. -/
  len : ℕ

/-- The size of `struct sockaddr_storage`. -/
abbrev sockaddrStorage : ℕ := 128

/-- `sa_addr_eq`. -/
def saAddrEq : SockAddr → SockAddr → Bool
  | .inet _ a, .inet _ b => a == b
  | .inet6 _ _ a _, .inet6 _ _ b _ => a == b
  | _, _ => false

/-- The records the loop of `pick_rec` does not skip. -/
def AddrInfo.usable (fam : SaFamily) (ai : AddrInfo) : Bool :=
  ai.family == fam && ai.addrlen ≤ sockaddrStorage

/-- What the loop of `pick_rec` has found. -/
structure RecScan where
  first : Option AddrInfo
  hit : Option AddrInfo
  after : Option AddrInfo

/-- One pass of the loop, on a record it does not skip. -/
def RecScan.note (cur : Option SockAddr) (s : RecScan) (ai : AddrInfo) : RecScan :=
  let s := if s.first.isNone then { s with first := some ai } else s
  let s := if s.hit.isSome && s.after.isNone then { s with after := some ai } else s
  if s.hit.isNone && cur.any (saAddrEq ai.addr) then { s with hit := some ai } else s

/-- The loop of `pick_rec`. -/
def recScan (ais : List AddrInfo) (fam : SaFamily) (cur : Option SockAddr) : RecScan :=
  ais.foldl (fun s ai => if ai.usable fam then s.note cur ai else s) ⟨none, none, none⟩

/-- The record `pick_rec` settles on. -/
def RecScan.choice (next : Bool) (s : RecScan) : Option AddrInfo :=
  if s.hit.isNone then s.first
  else if !next then s.hit
  else if s.after.isSome then s.after
  else s.first

/-- `pick_rec`. -/
def AwgAddr.pickRec (slot : AwgAddr) (ais : List AddrInfo) (fam : SaFamily) (cur : Option SockAddr)
    (next : Bool) : AwgAddr :=
  match (recScan ais fam cur).choice next with
  | none => slot
  | some c => ⟨c.addr, c.addrlen⟩

/-! ### What the walk is for -/

/-- The records of a family. -/
def recordsOf (fam : SaFamily) (ais : List AddrInfo) : List AddrInfo :=
  ais.filter (·.usable fam)

/-- The address that takes over once `cur` has gone silent. -/
def silentPick (slot : AwgAddr) (ais : List AddrInfo) (fam : SaFamily)
    (cur : SockAddr) : SockAddr :=
  (slot.pickRec ais fam (some cur) true).sa

/-- The address in use stays while it answers; while every one is silent, all of them get their
turn, in as many dials as there are records. -/
structure SilentTried (slot : AwgAddr) (ais : List AddrInfo) (fam : SaFamily)
    (cur : SockAddr) : Prop where
  /-- The address in use is kept. -/
  keeps : saAddrEq (slot.pickRec ais fam (some cur) false).sa cur = true
  /-- Every address is dialled. -/
  tried : ∀ ai ∈ recordsOf fam ais, ∃ k, 1 ≤ k ∧ k ≤ (recordsOf fam ais).length ∧
    saAddrEq ((silentPick slot ais fam)^[k] cur) ai.addr = true

/-- The families `pick_rec` is called for. -/
def SaFamily.known : SaFamily → Bool
  | .other _ => false
  | _ => true

/-- The bytes of an address, without the port. -/
inductive IpAddr
  | v4 (addr : Vector UInt8 4)
  | v6 (addr : Vector UInt8 16)
  | other (code : UInt16)
  deriving DecidableEq

/-- What `sa_addr_eq` compares of an address. -/
def SockAddr.ip : SockAddr → IpAddr
  | .inet _ addr => .v4 addr
  | .inet6 _ _ addr _ => .v6 addr
  | .other code => .other code

/-- The addresses of the records of a family, as they are listed. -/
def ips (fam : SaFamily) (ais : List AddrInfo) : List IpAddr :=
  (recordsOf fam ais).map (·.addr.ip)

/-! ### The pass -/

theorem saAddrEq_iff {a b : SockAddr} :
    saAddrEq a b = true ↔ a.ip = b.ip ∧ a.family.known = true := by
  cases a <;> cases b <;> simp [saAddrEq, SockAddr.ip, SockAddr.family, SaFamily.known]

/-- The records a pass goes over once it has found all three. -/
theorem foldl_note_after (cur : Option SockAddr) (f h a : AddrInfo) (rs : List AddrInfo) :
    rs.foldl (RecScan.note cur) ⟨some f, some h, some a⟩ = ⟨some f, some h, some a⟩ := by
  induction rs with
  | nil => rfl
  | cons r rs ih => exact ih

theorem foldl_note_hit (cur : Option SockAddr) (f h : AddrInfo) (rs : List AddrInfo) :
    rs.foldl (RecScan.note cur) ⟨some f, some h, none⟩ = ⟨some f, some h, rs.head?⟩ := by
  cases rs with
  | nil => rfl
  | cons r rs => exact foldl_note_after cur f h r rs

theorem foldl_note_first (cur : Option SockAddr) (f : AddrInfo) (rs : List AddrInfo) :
    rs.foldl (RecScan.note cur) ⟨some f, none, none⟩ =
      ⟨some f, rs.find? fun r => cur.any (saAddrEq r.addr),
        rs[rs.findIdx (fun r => cur.any (saAddrEq r.addr)) + 1]?⟩ := by
  induction rs with
  | nil => rfl
  | cons r rs ih =>
      rw [List.foldl_cons, List.find?_cons, List.findIdx_cons, List.getElem?_cons_succ]
      cases hr : cur.any (saAddrEq r.addr)
      · simpa [RecScan.note, hr] using ih
      · simpa [RecScan.note, hr, ← List.head?_eq_getElem?] using foldl_note_hit cur f r rs

/-- The pass finds the first record, the one in use and the one behind it. -/
theorem recScan_eq (ais : List AddrInfo) (fam : SaFamily) (cur : Option SockAddr) :
    recScan ais fam cur =
      ⟨(recordsOf fam ais).head?, (recordsOf fam ais).find? fun r => cur.any (saAddrEq r.addr),
        (recordsOf fam ais)[(recordsOf fam ais).findIdx
          (fun r => cur.any (saAddrEq r.addr)) + 1]?⟩ := by
  rw [recScan, ← List.foldl_filter, ← recordsOf]
  cases recordsOf fam ais with
  | nil => rfl
  | cons r rs =>
      rw [List.foldl_cons, List.find?_cons, List.findIdx_cons, List.getElem?_cons_succ]
      cases hr : cur.any (saAddrEq r.addr)
      · simpa [RecScan.note, hr] using foldl_note_first cur r rs
      · simpa [RecScan.note, hr, ← List.head?_eq_getElem?] using foldl_note_hit cur r r rs

/-! ### The records as bare addresses -/

/-- The family of a slot of `resolve_addr`. -/
def SaFamily.ofV6 (v6 : Bool) : SaFamily := if v6 then .inet6 else .inet

/-- The address of a record, as the reconnect knows it. -/
def SockAddr.recAddr? : SockAddr → Option RecAddr
  | .inet _ addr => some ⟨false, addr.toList⟩
  | .inet6 _ _ addr _ => some ⟨true, addr.toList⟩
  | .other _ => none

/-- The addresses of the records that fit a slot. -/
def recAddrs (ais : List AddrInfo) : List RecAddr :=
  ais.filterMap fun ai => if ai.addrlen ≤ sockaddrStorage then ai.addr.recAddr? else none

/-- A record is the address it has. -/
def IsRecAddr (ai : AddrInfo) (a : RecAddr) : Prop := ai.addr.recAddr? = some a

/-- The two passes have found the same. -/
structure SameScan (s : RecScan) (r : PickRec) : Prop where
  first : Option.Rel IsRecAddr s.first r.first
  hit : Option.Rel IsRecAddr s.hit r.hit
  after : Option.Rel IsRecAddr s.after r.after

theorem saAddrEq_iff_recAddr {a b : SockAddr} :
    saAddrEq a b = true ↔ ∃ r, a.recAddr? = some r ∧ b.recAddr? = some r := by
  cases a <;> cases b <;> simp [saAddrEq, SockAddr.recAddr?, Vector.toList_inj]
  · exact eq_comm
  · exact eq_comm

/-- One pass of the loop, local by local. -/
theorem RecScan.note_eq (cur : Option SockAddr) (s : RecScan) (ai : AddrInfo) :
    s.note cur ai =
      ⟨if s.first.isNone then some ai else s.first,
        if s.hit.isNone && cur.any (saAddrEq ai.addr) then some ai else s.hit,
        if s.hit.isSome && s.after.isNone then some ai else s.after⟩ := by
  obtain ⟨first, hit, after⟩ := s
  cases first <;> cases hit <;> cases after <;>
    cases h : cur.any (saAddrEq ai.addr) <;> simp [RecScan.note, h]

/-- A local that takes the record in both passes or in neither. -/
theorem rel_ite {x : Option AddrInfo} {y : Option RecAddr} (h : Option.Rel IsRecAddr x y)
    {ai : AddrInfo} {a : RecAddr} (ha : IsRecAddr ai a) (b : Bool) :
    Option.Rel IsRecAddr (if b then some ai else x) (if b then some a else y) := by
  cases b
  · exact h
  · exact .some ha

theorem isNone_eq_of_rel {x : Option AddrInfo} {y : Option RecAddr}
    (h : Option.Rel IsRecAddr x y) : x.isNone = y.isNone := by
  cases h <;> rfl

/-- One record keeps the two passes together. -/
theorem SameScan.note {s : RecScan} {r : PickRec} (h : SameScan s r) {ai : AddrInfo}
    {a : RecAddr} (ha : IsRecAddr ai a) (cur : Option SockAddr) :
    SameScan (s.note cur ai) (pickRecStep a.v6 (cur.bind SockAddr.recAddr?) r a) := by
  have hcur : cur.any (saAddrEq ai.addr) = decide (cur.bind SockAddr.recAddr? = some a) := by
    rw [Bool.eq_iff_iff, decide_eq_true_eq]
    cases cur with
    | none => simp
    | some c =>
        rw [Option.any_some, saAddrEq_iff_recAddr, Option.bind_some, ha]
        simp
  have hfirst := isNone_eq_of_rel h.first
  have hhit := isNone_eq_of_rel h.hit
  have hafter := isNone_eq_of_rel h.after
  rw [RecScan.note_eq, pickRecStep, if_neg (not_not.mpr rfl), hcur]
  refine ⟨?_, ?_, ?_⟩
  · simpa only [hfirst] using rel_ite h.first ha r.first.isNone
  · simpa only [hhit] using
      rel_ite h.hit ha (r.hit.isNone && decide (cur.bind SockAddr.recAddr? = some a))
  · simpa only [hafter, ← Option.not_isNone, hhit] using
      rel_ite h.after ha (!r.hit.isNone && r.after.isNone)

/-- The family of an address that the reconnect knows. -/
theorem family_eq_ofV6_iff (a : SockAddr) (v6 : Bool) :
    a.family = .ofV6 v6 ↔ ∃ r, a.recAddr? = some r ∧ r.v6 = v6 := by
  cases a <;> cases v6 <;> simp [SockAddr.family, SockAddr.recAddr?, SaFamily.ofV6]

theorem usable_ofV6_iff (ai : AddrInfo) (v6 : Bool) :
    ai.usable (.ofV6 v6) = true ↔
      ai.addrlen ≤ sockaddrStorage ∧ ∃ r, IsRecAddr ai r ∧ r.v6 = v6 := by
  rw [AddrInfo.usable, Bool.and_eq_true, beq_iff_eq, decide_eq_true_eq, and_comm, ← ai.family_eq,
    family_eq_ofV6_iff]
  rfl

/-- The pass over the records is the pass over their addresses. -/
theorem sameScan_foldl (v6 : Bool) (cur : Option SockAddr) (ais : List AddrInfo) {s : RecScan}
    {r : PickRec} (h : SameScan s r) :
    SameScan
      (ais.foldl (fun s ai => if ai.usable (.ofV6 v6) then s.note cur ai else s) s)
      ((recAddrs ais).foldl (pickRecStep v6 (cur.bind SockAddr.recAddr?)) r) := by
  induction ais generalizing s r with
  | nil => exact h
  | cons ai ais ih =>
      rw [List.foldl_cons, recAddrs, List.filterMap_cons, ← recAddrs]
      by_cases husable : ai.usable (.ofV6 v6) = true
      · obtain ⟨hlen, a, ha, rfl⟩ := (usable_ofV6_iff ai v6).mp husable
        rw [if_pos husable, if_pos hlen, ha]
        exact ih (h.note ha cur)
      · rw [if_neg husable]
        split
        · exact ih h
        · next a ha =>
            -- a record of the other family
            refine ih ?_
            have hother : a.v6 ≠ v6 := by
              intro hv6
              split at ha
              · next hlen => exact husable ((usable_ofV6_iff ai v6).mpr ⟨hlen, a, ha, hv6⟩)
              · cases ha
            rw [pickRecStep, if_pos hother]
            exact h

/-- **The record a slot is filled with has the address the reconnect picks.** -/
theorem rel_pickRec (v6 : Bool) (cur : Option SockAddr) (ais : List AddrInfo) (next : Bool) :
    Option.Rel IsRecAddr ((recScan ais (.ofV6 v6) cur).choice next)
      (pickRec v6 (recAddrs ais) (cur.bind SockAddr.recAddr?) next) := by
  have hstart : SameScan ⟨none, none, none⟩ ⟨none, none, none⟩ := ⟨.none, .none, .none⟩
  have hscan := sameScan_foldl v6 cur ais hstart
  have hhit := isNone_eq_of_rel hscan.hit
  have hafter := isNone_eq_of_rel hscan.after
  rw [pickRec, RecScan.choice, recScan]
  simp only [hhit, ← Option.not_isNone, hafter]
  split
  · exact hscan.first
  · split
    · exact hscan.hit
    · split
      · exact hscan.after
      · exact hscan.first

/-! ### The address in use -/

/-- The records of a family have its addresses. -/
theorem family_of_mem_recordsOf {ais : List AddrInfo} {fam : SaFamily} {r : AddrInfo}
    (h : r ∈ recordsOf fam ais) : r.addr.family = fam := by
  have hr := (List.mem_filter.mp h).2
  simp only [AddrInfo.usable, Bool.and_eq_true, beq_iff_eq] at hr
  exact r.family_eq.trans hr.1

/-- The bytes of an address tell its family. -/
theorem family_eq_of_ip_eq {a b : SockAddr} (h : a.ip = b.ip) : a.family = b.family := by
  cases a <;> cases b <;> simp_all [SockAddr.ip, SockAddr.family]

section InUse

variable {ais : List AddrInfo} {fam : SaFamily} (hfam : fam.known = true) {cur : SockAddr}

/-- An address in use that is listed has a successor on the list. -/
theorem succ_mem_ips (h : cur.ip ∈ ips fam ais) : succ (ips fam ais) cur.ip ∈ ips fam ais := by
  refine List.nextOr_mem ?_
  cases hips : ips fam ais with
  | nil => simp [hips] at h
  | cons a l => simp

include hfam

/-- A listed address is of a known family. -/
theorem known_of_mem_ips (h : cur.ip ∈ ips fam ais) : cur.family.known = true := by
  obtain ⟨r, hr, hip⟩ := List.mem_map.mp h
  rw [← family_eq_of_ip_eq hip, family_of_mem_recordsOf hr]
  exact hfam

/-- `sa_addr_eq` against the address in use. -/
theorem saAddrEq_eq_beq (h : cur.ip ∈ ips fam ais) (a : SockAddr) :
    saAddrEq a cur = (a.ip == cur.ip) := by
  have hknown := known_of_mem_ips hfam h
  rw [Bool.eq_iff_iff, saAddrEq_iff, beq_iff_eq]
  exact ⟨fun ha => ha.1, fun ha => ⟨ha, family_eq_of_ip_eq ha ▸ hknown⟩⟩

/-- The place of the one in use. -/
theorem findIdx_recordsOf (h : cur.ip ∈ ips fam ais) :
    (recordsOf fam ais).findIdx (fun r => saAddrEq r.addr cur) = (ips fam ais).idxOf cur.ip := by
  rw [ips, List.idxOf, List.findIdx_map]
  congr 1
  funext r
  exact saAddrEq_eq_beq hfam h r.addr

/-- The record in use. -/
theorem find_recordsOf (h : cur.ip ∈ ips fam ais) :
    ∃ r ∈ recordsOf fam ais,
      (recordsOf fam ais).find? (fun r => saAddrEq r.addr cur) = some r := by
  obtain ⟨r, hr, hip⟩ := List.mem_map.mp h
  have heq : saAddrEq r.addr cur = true := by
    rw [saAddrEq_eq_beq hfam h, hip, beq_self_eq_true]
  have hsome : ((recordsOf fam ais).find? fun r => saAddrEq r.addr cur).isSome :=
    List.find?_isSome.mpr ⟨r, hr, heq⟩
  obtain ⟨c, hc⟩ := Option.isSome_iff_exists.mp hsome
  exact ⟨c, List.mem_of_find?_eq_some hc, hc⟩

/-- **The address in use is kept.** -/
theorem pickRec_keeps (h : cur.ip ∈ ips fam ais) (slot : AwgAddr) :
    saAddrEq (slot.pickRec ais fam (some cur) false).sa cur = true := by
  obtain ⟨r, -, hr⟩ := find_recordsOf hfam h
  have heq := List.find?_some hr
  simpa [AwgAddr.pickRec, recScan_eq, RecScan.choice, hr] using heq

/-- **A silent address hands over to its successor on the list.** -/
theorem ip_silentPick (h : cur.ip ∈ ips fam ais) (slot : AwgAddr) :
    (silentPick slot ais fam cur).ip = succ (ips fam ais) cur.ip := by
  obtain ⟨r, hmem, hr⟩ := find_recordsOf hfam h
  rw [succ_eq, ← findIdx_recordsOf hfam h, silentPick, AwgAddr.pickRec, recScan_eq]
  simp only [Option.any_some, RecScan.choice, hr, Option.isNone_some, ips, List.getElem?_map]
  cases hafter : (recordsOf fam ais)[
      (recordsOf fam ais).findIdx (fun r => saAddrEq r.addr cur) + 1]? with
  | some a => rfl
  | none =>
      cases hrec : recordsOf fam ais with
      | nil => simp [hrec] at hmem
      | cons a l => rfl

/-- The addresses dialled one after the other, while every one is silent. -/
theorem ip_iterate_silentPick (h : cur.ip ∈ ips fam ais) (slot : AwgAddr) (k : ℕ) :
    ((silentPick slot ais fam)^[k] cur).ip = (succ (ips fam ais))^[k] cur.ip := by
  induction k generalizing cur with
  | zero => rfl
  | succ k ih =>
      have hip := ip_silentPick hfam h slot
      have hmem : (silentPick slot ais fam cur).ip ∈ ips fam ais := hip ▸ succ_mem_ips h
      rw [Function.iterate_succ_apply, Function.iterate_succ_apply, ih hmem, hip]

/-- **The address in use is kept, and every silent one gets its turn, exactly when the list
loops back at its first repetition.** -/
theorem silentTried_iff (h : cur.ip ∈ ips fam ais) (slot : AwgAddr) :
    SilentTried slot ais fam cur ↔ LoopsBack (ips fam ais) := by
  rw [← covers_iff h]
  have hturn : ∀ (k : ℕ) (a : SockAddr), a.ip ∈ ips fam ais →
      (saAddrEq ((silentPick slot ais fam)^[k] cur) a = true ↔
        (succ (ips fam ais))^[k] cur.ip = a.ip) := by
    intro k a ha
    rw [saAddrEq_eq_beq hfam ha, beq_iff_eq, ip_iterate_silentPick hfam h]
  constructor
  · intro hall b hb
    obtain ⟨r, hr, rfl⟩ := List.mem_map.mp hb
    obtain ⟨k, hk, hle, heq⟩ := hall.tried r hr
    exact ⟨k, hk, by rwa [ips, List.length_map], (hturn k r.addr hb).mp heq⟩
  · intro hcov
    refine ⟨pickRec_keeps hfam h slot, fun r hr => ?_⟩
    have hb : r.addr.ip ∈ ips fam ais := List.mem_map_of_mem hr
    obtain ⟨k, hk, hle, heq⟩ := hcov r.addr.ip hb
    exact ⟨k, hk, by rwa [ips, List.length_map] at hle, (hturn k r.addr hb).mpr heq⟩

end InUse

/-- A record of an IPv4 address. -/
def recordV4 (n : UInt8) : AddrInfo := ⟨.inet, 16, .inet 0 #v[192, 0, 2, n], rfl⟩

/-- A record of an IPv6 address. -/
def recordV6 (n : UInt8) : AddrInfo := ⟨.inet6, 28, .inet6 0 0 (Vector.replicate 16 n) 0, rfl⟩

/-- Two servers with an address of either family. -/
theorem silentTried_two : SilentTried ⟨.other 0, 0⟩
    [recordV4 1, recordV6 1, recordV4 2, recordV6 2] .inet (.inet 443 #v[192, 0, 2, 2]) :=
  (silentTried_iff rfl (by decide) _).mpr (loopsBack_of_nodup (by decide))

/-- Where an address is listed twice, the walk may turn back before it comes to the last
server. -/
theorem not_silentTried_repeated : ¬ SilentTried ⟨.other 0, 0⟩
    [recordV4 1, recordV4 2, recordV4 1, recordV4 3] .inet (.inet 443 #v[192, 0, 2, 1]) := by
  intro h
  have hnever : ∀ k ≤ 4, saAddrEq ((silentPick ⟨.other 0, 0⟩
      [recordV4 1, recordV4 2, recordV4 1, recordV4 3] .inet)^[k] (.inet 443 #v[192, 0, 2, 1]))
      (recordV4 3).addr = false := by decide
  obtain ⟨k, -, hle, hk⟩ := h.tried (recordV4 3) (List.mem_filter.mpr ⟨by simp, rfl⟩)
  rw [hnever k hle] at hk
  cases hk

end AwgProxy
