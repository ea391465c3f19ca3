import AwgProxy.Keystream
import AwgProxy.PortDraw
import Mathlib.Algebra.Order.BigOperators.Group.List

/-!
# Reading the Address of the Server

`AWG_REMOTE` as the proxy reads it, byte by byte: the host is copied into a buffer and the
ranges of the ports are stored in an array, each of a fixed size. What is read is cut in one of
two ways (`HostForm`), and the length of the host is taken as an `int`.

* `splitHostBytes_eq_some_iff` — the two cuts.
* `parsePortsLoop_spec` — the loop stores the entries of a list one after another, and has room.
* `parseHostPortsBuf_exact` — what is accepted, and what the buffers hold then.
-/

namespace AwgProxy

open Text

/-! ### The code -/

/-- A byte as the character of its number. -/
def byteText (s : Bytes) : List Char := s.map fun c => .ofNat c.toNat

/-- Where `split_host_port` cuts a C string: the host and what follows the colon. `inetPton` is
what `inet_pton` answers for an IPv6 literal. -/
def splitHostBytes (inetPton : Bytes → Bool) : Bytes → Option (Bytes × Bytes)
  | 91 :: hstart =>
      match splitFirst? 93 hstart with
      | some (host, 58 :: pstr) => some (host, pstr)
      | _ => none
  | s => if inetPton s then none else splitLast? 58 s

/-- `memcpy` of a number of bytes that is an `int`, to the start of a buffer; `none` where it
runs past the end. -/
def memcpyInt (buf src : Bytes) (len : ℤ) : Option Bytes :=
  let n := (len % 2 ^ 64).toNat
  if n ≤ buf.length then some (buf.patch 0 (src.take n)) else none

/-- A byte stored in a buffer, `none` behind its end. -/
def storeByte (buf : Bytes) (i : ℤ) (c : UInt8) : Option Bytes :=
  if 0 ≤ i ∧ i < buf.length then some (buf.patch i.toNat [c]) else none

/-- `portset_t`: the array of ranges, the number of those in use, and their ports. -/
structure PortArray where
  r : List (UInt16 × UInt16)
  n : ℕ
  total : UInt32

/-- The store of a range behind those in use, `none` behind the end of the array. -/
def PortArray.store (ps : PortArray) (x : PortRange) : Option PortArray :=
  if ps.n < ps.r.length then
    some ⟨ps.r.set ps.n (.ofNat x.lo, .ofNat x.hi), ps.n + 1,
      ps.total + (.ofNat x.hi - .ofNat x.lo + 1)⟩
  else none

/-- The loop of `parse_port_set`, for a number of turns: whether it succeeds, and the set. -/
def parsePortsLoop : ℕ → PortArray → List Char → Option (Bool × PortArray)
  | 0, ps, _ => some (false, ps)
  | turns + 1, ps, q =>
      match parsePortToken q with
      | none => some (false, ps)
      | some (x, q) =>
          if ps.n ≥ awgMaxPortRanges then some (false, ps)
          else
            match ps.store x with
            | none => none
            | some ps =>
                match q with
                | [] => some (true, ps)
                | c :: q => if c = ',' then parsePortsLoop turns ps q else some (false, ps)

/-- `parse_port_set`: every turn but the last stores a range. -/
def parsePortsBuf (ps : PortArray) (s : Bytes) : Option (Bool × PortArray) :=
  parsePortsLoop (awgMaxPortRanges + 1) { ps with n := 0, total := 0 } (byteText s)

/-- What `parse_host_ports` returns, and what it leaves in the buffers. -/
structure HostPorts where
  ok : Bool
  host : Bytes
  ports : PortArray

/-- `parse_host_ports`, `none` where something is written past the end of a buffer. -/
def parseHostPortsBuf (inetPton : Bytes → Bool) (s : Bytes) (hostmax : ℤ) (host : Bytes)
    (ps : PortArray) : Option HostPorts :=
  match splitHostBytes inetPton s with
  | none => some ⟨false, host, ps⟩
  | some (h, pstr) =>
      let hlen := intOfSize h.length
      if hlen ≥ hostmax then some ⟨false, host, ps⟩
      else do
        let host ← memcpyInt host h hlen
        let host ← storeByte host hlen 0
        if pstr = [] then some ⟨false, host, ps⟩
        else
          let (ok, ps) ← parsePortsBuf ps pstr
          some ⟨ok, host, ps⟩

/-! ### What is meant -/

/-- The two forms of the text: the host in brackets, or up to the last colon. -/
inductive HostForm (inetPton : Bytes → Bool) : Bytes → Bytes → Bytes → Prop
  | bracket {h p : Bytes} (hh : 93 ∉ h) : HostForm inetPton (91 :: h ++ 93 :: 58 :: p) h p
  | colon {h p : Bytes} (hs : (h ++ 58 :: p).head? ≠ some 91) (hp : 58 ∉ p)
      (hlit : inetPton (h ++ 58 :: p) = false) : HostForm inetPton (h ++ 58 :: p) h p

/-- A list of ports that there is room for. -/
def PortsListed (p : Bytes) (xs : List PortRange) : Prop :=
  PortList (byteText p) xs ∧ xs.length ≤ awgMaxPortRanges

/-- The set holds the ranges of a list, in order. -/
structure PortArray.Holds (ps : PortArray) (xs : List PortRange) : Prop where
  n : ps.n = xs.length
  r : (ps.r.take ps.n).map (fun e => (e.1.toNat, e.2.toNat)) = xs.map fun x => (x.lo, x.hi)
  total : ps.total.toNat = (xs.map PortRange.size).sum

/-- The address is read exactly: it is accepted in the two forms only, with a host that fits, and
the host and the ranges are those written. -/
structure ReadExactly (inetPton : Bytes → Bool) (s : Bytes) (hostmax : ℕ) (host : Bytes)
    (r : HostPorts) : Prop where
  accepts : r.ok = true ↔ ∃ h p xs, HostForm inetPton s h p ∧ h.length < hostmax ∧ PortsListed p xs
  host : ∀ {h p : Bytes}, r.ok = true → HostForm inetPton s h p →
    r.host = host.patch 0 (h ++ [0])
  ports : ∀ {h p : Bytes} {xs : List PortRange}, r.ok = true → HostForm inetPton s h p →
    PortsListed p xs → r.ports.Holds xs
  /-- Their number is one that `portset_pick` can take as an `int`. -/
  total : r.ok = true → r.ports.total.toNat ≤ 32 * 65535 ∧
    intOfSize r.ports.total.toNat = r.ports.total.toNat

/-! ### The cuts -/

/-- **The cuts** are those of the two forms. -/
theorem splitHostBytes_eq_some_iff {inetPton : Bytes → Bool} {s h p : Bytes} :
    splitHostBytes inetPton s = some (h, p) ↔ HostForm inetPton s h p := by
  constructor
  · intro hs
    rw [splitHostBytes.eq_def] at hs
    split at hs
    · next hstart =>
        split at hs
        · next host pstr hcut =>
            obtain ⟨rfl, rfl⟩ := Prod.mk.inj (Option.some.inj hs)
            obtain ⟨rfl, hnot⟩ := splitFirst?_eq_some_iff.mp hcut
            exact .bracket hnot
        · cases hs
    · next hopen =>
        split_ifs at hs with hlit
        obtain ⟨rfl, hnot⟩ := splitLast?_eq_some_iff.mp hs
        refine .colon (fun hhead => ?_) hnot (Bool.eq_false_iff.mpr hlit)
        obtain ⟨r, hr⟩ := List.head?_eq_some_iff.mp hhead
        exact hopen r hr
  · rintro (hh | ⟨hs, hp, hlit⟩)
    · rw [List.cons_append, splitHostBytes, splitFirst?_append hh]
      rfl
    · have hcut := splitLast?_append (a := h) hp
      generalize h ++ 58 :: p = s at hs hlit hcut ⊢
      rw [splitHostBytes.eq_def]
      split
      · exact absurd rfl hs
      · rw [hlit]
        exact hcut

/-- A text has one form. -/
theorem HostForm.unique {inetPton : Bytes → Bool} {s h p h' p' : Bytes}
    (hf : HostForm inetPton s h p) (hf' : HostForm inetPton s h' p') : h = h' ∧ p = p' := by
  have hcut := splitHostBytes_eq_some_iff.mpr hf
  rw [splitHostBytes_eq_some_iff.mpr hf'] at hcut
  obtain ⟨rfl, rfl⟩ := Prod.mk.inj (Option.some.inj hcut)
  exact ⟨rfl, rfl⟩

/-! ### The ranges -/

/-- A range has as many ports as there are, or fewer. -/
theorem PortToken.size_le {t : List Char} {x : PortRange} (h : PortToken t x) :
    x.size ≤ 65535 := by
  have := h.lo_pos
  have := h.hi_le
  rw [PortRange.size]
  omega

theorem PortList.size_le {s : List Char} {xs : List PortRange} (h : PortList s xs) :
    ∀ x ∈ xs, x.size ≤ 65535 := by
  induction h with
  | last h => exact List.forall_mem_singleton.mpr h.size_le
  | cons h _ ih => exact List.forall_mem_cons.mpr ⟨h.size_le, ih⟩

/-- The ports of the ranges there is room for. -/
theorem sum_size_le {xs : List PortRange} (hlen : xs.length ≤ awgMaxPortRanges)
    (hsize : ∀ x ∈ xs, x.size ≤ 65535) : (xs.map PortRange.size).sum ≤ 32 * 65535 := by
  have hsum := List.sum_le_card_nsmul (xs.map PortRange.size) 65535 fun n hn => by
    obtain ⟨x, hx, rfl⟩ := List.mem_map.mp hn
    exact hsize x hx
  rw [List.length_map, nsmul_eq_mul, Nat.cast_id] at hsum
  exact hsum.trans (Nat.mul_le_mul_right 65535 hlen)

/-- **A store** appends the range. -/
theorem PortArray.Holds.store {ps : PortArray} {xs : List PortRange} {t : List Char}
    {x : PortRange} (h : ps.Holds xs) (hr : ps.r.length = awgMaxPortRanges)
    (hroom : ps.n < awgMaxPortRanges) (hsize : ∀ x ∈ xs, x.size ≤ 65535) (hx : PortToken t x) :
    ∃ ps', ps.store x = some ps' ∧ ps'.Holds (xs ++ [x]) ∧ ps'.r.length = awgMaxPortRanges ∧
      ps'.n = ps.n + 1 := by
  have hn := h.n
  have hin : ps.n < ps.r.length := by omega
  have hlo := hx.lo_pos
  have hhi := hx.hi_le
  have hle := x.le
  refine ⟨_, if_pos hin, ⟨?_, ?_, ?_⟩, ?_, rfl⟩
  · rw [List.length_append, ← hn]
    rfl
  · have htake : (ps.r.set ps.n (.ofNat x.lo, .ofNat x.hi)).take (ps.n + 1) =
        ps.r.take ps.n ++ [(.ofNat x.lo, .ofNat x.hi)] := by
      rw [List.take_add_one, List.take_set_of_le (le_refl _), List.getElem?_set_self hin]
      rfl
    have hlo16 : (UInt16.ofNat x.lo).toNat = x.lo :=
      UInt16.toNat_ofNat_of_lt' (by simp only [UInt16.size]; omega)
    have hhi16 : (UInt16.ofNat x.hi).toNat = x.hi :=
      UInt16.toNat_ofNat_of_lt' (by simp only [UInt16.size]; omega)
    dsimp only
    rw [htake, List.map_append, h.r, List.map_append, List.map_singleton, List.map_singleton,
      hlo16, hhi16]
  · have hlen : xs.length ≤ awgMaxPortRanges := hn ▸ hroom.le
    have hsum := sum_size_le hlen hsize
    have htotal := h.total
    have hlo32 : (UInt32.ofNat x.lo).toNat = x.lo :=
      UInt32.toNat_ofNat_of_lt' (by simp only [UInt32.size]; omega)
    have hhi32 : (UInt32.ofNat x.hi).toNat = x.hi :=
      UInt32.toNat_ofNat_of_lt' (by simp only [UInt32.size]; omega)
    have hdiff : (UInt32.ofNat x.hi - UInt32.ofNat x.lo).toNat = x.hi - x.lo := by
      rw [UInt32.toNat_sub_of_le _ _ (UInt32.le_iff_toNat_le.mpr (by omega)), hlo32, hhi32]
    dsimp only
    rw [List.map_append, List.sum_append, List.map_singleton, List.sum_singleton, PortRange.size,
      UInt32.toNat_add, UInt32.toNat_add, hdiff, UInt32.toNat_one, htotal]
    omega
  · dsimp only
    rw [List.length_set, hr]

/-- **The loop** stores what is read one behind another, as `parse_port_set` lists it, and never
behind the array. -/
theorem parsePortsLoop_spec {turns : ℕ} {ps : PortArray} {acc : PortSet} {q : List Char}
    (hr : ps.r.length = awgMaxPortRanges) (hturns : ps.n + turns = awgMaxPortRanges + 1)
    (h : ps.Holds acc.r) (hsize : ∀ x ∈ acc.r, x.size ≤ 65535) :
    ∃ ps', match parsePortSetLoop (awgMaxPortRanges - ps.n) acc q with
      | none => parsePortsLoop turns ps q = some (false, ps')
      | some acc' => parsePortsLoop turns ps q = some (true, ps') ∧ ps'.Holds acc'.r := by
  induction turns generalizing ps acc q with
  | zero =>
      rw [show awgMaxPortRanges - ps.n = 0 by omega]
      exact ⟨ps, rfl⟩
  | succ turns ih =>
      rw [parsePortsLoop]
      by_cases hfull : ps.n ≥ awgMaxPortRanges
      · rw [show awgMaxPortRanges - ps.n = 0 by omega, parsePortSetLoop]
        refine ⟨ps, ?_⟩
        cases parsePortToken q with
        | none => rfl
        | some e => exact if_pos hfull
      · obtain ⟨room, hroom⟩ : ∃ room, awgMaxPortRanges - ps.n = room + 1 :=
          ⟨awgMaxPortRanges - ps.n - 1, by omega⟩
        rw [hroom, parsePortSetLoop]
        cases htoken : parsePortToken q with
        | none => exact ⟨ps, rfl⟩
        | some e =>
            obtain ⟨x, rest⟩ := e
            obtain ⟨t, ht, -⟩ := portToken_of_parsePortToken htoken
            obtain ⟨ps', hstore, hholds, hr', hn'⟩ :=
              h.store hr (Nat.lt_of_not_le hfull) hsize ht
            dsimp only
            rw [if_neg hfull, hstore]
            dsimp only
            cases rest with
            | nil => exact ⟨ps', rfl, hholds⟩
            | cons c rest =>
                dsimp only
                by_cases hc : c = ','
                · rw [if_pos hc, if_pos hc]
                  have hsize' : ∀ y ∈ (acc.push x).r, y.size ≤ 65535 := fun y hy => by
                    rcases List.mem_append.mp hy with hy | hy
                    · exact hsize y hy
                    · exact List.mem_singleton.mp hy ▸ ht.size_le
                  rw [show room = awgMaxPortRanges - ps'.n by omega]
                  exact ih hr' (by omega) hholds hsize'
                · rw [if_neg hc, if_neg hc]
                  exact ⟨ps', rfl⟩

/-- **The ranges**: what `parse_port_set` accepts and stores. -/
theorem parsePortsBuf_spec {ps : PortArray} (hr : ps.r.length = awgMaxPortRanges) (p : Bytes) :
    ∃ ok ps', parsePortsBuf ps p = some (ok, ps') ∧ (ok = true ↔ ∃ xs, PortsListed p xs) ∧
      ∀ xs, PortsListed p xs → ps'.Holds xs := by
  have hempty : (⟨ps.r, 0, 0⟩ : PortArray).Holds PortSet.empty.r := ⟨rfl, rfl, rfl⟩
  have hturns : (⟨ps.r, 0, 0⟩ : PortArray).n + (awgMaxPortRanges + 1) = awgMaxPortRanges + 1 :=
    Nat.zero_add _
  have hlen : (⟨ps.r, 0, 0⟩ : PortArray).r.length = awgMaxPortRanges := hr
  have hsize : ∀ x ∈ PortSet.empty.r, x.size ≤ 65535 := fun x hx => absurd hx List.not_mem_nil
  obtain ⟨ps', hloop⟩ := parsePortsLoop_spec (q := byteText p) hlen hturns hempty hsize
  change match parsePortSet (byteText p) with
    | none => parsePortsBuf ps p = some (false, ps')
    | some acc' => parsePortsBuf ps p = some (true, ps') ∧ ps'.Holds acc'.r at hloop
  cases hparse : parsePortSet (byteText p) with
  | none =>
      rw [hparse] at hloop
      have hnone : ∀ xs, ¬ PortsListed p xs := fun xs hxs => by
        rw [parsePortSet_eq_some_iff.mpr ⟨xs, hxs.1, hxs.2, rfl⟩] at hparse
        cases hparse
      exact ⟨false, ps', hloop, iff_of_false nofun fun ⟨xs, hxs⟩ => hnone xs hxs,
        fun xs hxs => absurd hxs (hnone xs)⟩
  | some acc =>
      rw [hparse] at hloop
      obtain ⟨xs, hxs, hlen, rfl⟩ := parsePortSet_eq_some_iff.mp hparse
      refine ⟨true, ps', hloop.1, iff_of_true rfl ⟨xs, hxs, hlen⟩, fun ys hys => ?_⟩
      have hholds := hloop.2
      rw [foldl_push_r, PortSet.empty, List.nil_append] at hholds
      exact hys.1.unique hxs ▸ hholds

/-! ### The host -/

/-- A copy that fits, with the zero behind it. -/
theorem copyHost {h host : Bytes} (hlen : h.length < host.length) (hint : host.length < 2 ^ 31) :
    ∃ host', memcpyInt host h h.length = some host' ∧
      storeByte host' h.length 0 = some (host.patch 0 (h ++ [0])) := by
  have hn : ((h.length : ℤ) % 2 ^ 64).toNat = h.length := by omega
  have hcopy : (host.patch 0 h).length = host.length := Bytes.length_patch (by omega)
  refine ⟨host.patch 0 h, ?_, ?_⟩
  · rw [memcpyInt, hn, if_pos hlen.le, List.take_length]
  · have hfit : 0 + h.length ≤ host.length := by omega
    have hpatch := Bytes.patch_patch_append hfit [0]
    rw [Nat.zero_add] at hpatch
    rw [storeByte, hcopy, if_pos (by omega), Int.toNat_natCast, hpatch]

/-! ### The address -/

/-- The length of the host does not wrap around to one that fits. -/
def HostLengthKept (inetPton : Bytes → Bool) (s : Bytes) (hostmax : ℕ) : Prop :=
  ∀ h p, HostForm inetPton s h p → h.length < hostmax ∨ (hostmax : ℤ) ≤ intOfSize h.length

/-- A host of less than two gigabytes has the length it has. -/
theorem hostLengthKept_of_length {inetPton : Bytes → Bool} {s : Bytes} (hs : s.length < 2 ^ 31)
    (hostmax : ℕ) : HostLengthKept inetPton s hostmax := by
  intro h p hf
  have hlen : h.length < 2 ^ 31 := by
    refine Nat.lt_of_le_of_lt ?_ hs
    cases hf <;> simp only [List.length_append, List.length_cons] <;> omega
  rw [intOfSize_eq hlen]
  omega

section

variable {inetPton : Bytes → Bool} {s h p : Bytes} {hostmax : ℕ} {host : Bytes}

/-- An address that is rejected, as it should be. -/
theorem readExactly_of_rejected (hform : HostForm inetPton s h p) {r : HostPorts}
    (hok : r.ok = false) (hno : ¬ ∃ xs, h.length < hostmax ∧ PortsListed p xs) :
    ReadExactly inetPton s hostmax host r := by
  have hfalse : r.ok ≠ true := Bool.eq_false_iff.mp hok
  refine ⟨iff_of_false hfalse fun ⟨h', p', xs, hf, hfit, hxs⟩ => hno ?_,
    fun hok => absurd hok hfalse, fun hok => absurd hok hfalse, fun hok => absurd hok hfalse⟩
  obtain ⟨rfl, rfl⟩ := hform.unique hf
  exact ⟨xs, hfit, hxs⟩

/-- An address whose host fits its buffer is accepted with the ranges. -/
theorem readExactly_of_ports (hform : HostForm inetPton s h p) (hfit : h.length < hostmax)
    {ok : Bool} {ps : PortArray} (hok : ok = true ↔ ∃ xs, PortsListed p xs)
    (hholds : ∀ xs, PortsListed p xs → ps.Holds xs) :
    ReadExactly inetPton s hostmax host ⟨ok, host.patch 0 (h ++ [0]), ps⟩ := by
  constructor
  · refine hok.trans ⟨fun ⟨xs, hxs⟩ => ⟨h, p, xs, hform, hfit, hxs⟩, ?_⟩
    rintro ⟨h', p', xs, hf, -, hxs⟩
    obtain ⟨rfl, rfl⟩ := hform.unique hf
    exact ⟨xs, hxs⟩
  · intro h' p' _ hf
    obtain ⟨rfl, rfl⟩ := hform.unique hf
    rfl
  · intro h' p' xs _ hf hxs
    obtain ⟨rfl, rfl⟩ := hform.unique hf
    exact hholds xs hxs
  · intro htrue
    obtain ⟨xs, hxs⟩ := hok.mp htrue
    have hle := (hholds xs hxs).total.trans_le (sum_size_le hxs.2 hxs.1.size_le)
    exact ⟨hle, intOfSize_eq (Nat.lt_of_le_of_lt hle (by decide))⟩

/-- No text is no list of ports. -/
theorem not_portsListed_nil (xs : List PortRange) : ¬ PortsListed [] xs := by
  intro hxs
  have hparse := parsePortSet_eq_some_iff.mpr ⟨xs, hxs.1, hxs.2, rfl⟩
  cases hparse

end

/-- **`AWG_REMOTE` is read exactly**, and nothing is written past the end of a buffer. -/
theorem parseHostPortsBuf_exact (inetPton : Bytes → Bool) {s : Bytes} {hostmax : ℕ}
    (hint : hostmax < 2 ^ 31) (hkept : HostLengthKept inetPton s hostmax)
    {host : Bytes} (hhost : host.length = hostmax) {ps : PortArray}
    (hr : ps.r.length = awgMaxPortRanges) :
    ∃ r, parseHostPortsBuf inetPton s hostmax host ps = some r ∧
      ReadExactly inetPton s hostmax host r := by
  rw [parseHostPortsBuf]
  cases hcut : splitHostBytes inetPton s with
  | none =>
      have hnone : ∀ h p, ¬ HostForm inetPton s h p := fun h p hf => by
        rw [splitHostBytes_eq_some_iff.mpr hf] at hcut
        cases hcut
      exact ⟨_, rfl, iff_of_false nofun fun ⟨h, p, _, hf, _⟩ => hnone h p hf, nofun, nofun, nofun⟩
  | some e =>
      obtain ⟨h, p⟩ := e
      have hform := splitHostBytes_eq_some_iff.mp hcut
      dsimp only
      by_cases hlong : intOfSize h.length ≥ hostmax
      · rw [if_pos hlong]
        refine ⟨_, rfl, readExactly_of_rejected hform rfl fun ⟨_, hfit, _⟩ => ?_⟩
        rw [intOfSize_eq (hfit.trans hint)] at hlong
        omega
      · have hfit : h.length < hostmax := (hkept h p hform).resolve_right hlong
        rw [if_neg hlong, intOfSize_eq (hfit.trans hint)]
        have hroom : h.length < host.length := hhost.symm ▸ hfit
        obtain ⟨host', hcopy, hstore⟩ := copyHost hroom (hhost.symm ▸ hint)
        obtain ⟨ok, ps', hports, hok, hholds⟩ := parsePortsBuf_spec hr p
        simp only [hcopy, hstore, hports, Option.bind_eq_bind, Option.bind_some]
        by_cases hp : p = []
        · rw [if_pos hp]
          refine ⟨_, rfl, readExactly_of_rejected hform rfl fun ⟨xs, _, hxs⟩ => ?_⟩
          rw [hp] at hxs
          exact not_portsListed_nil xs hxs
        · rw [if_neg hp]
          exact ⟨_, rfl, readExactly_of_ports hform hfit hok hholds⟩

/-- `h:443` -/
def plainRemote : Bytes := [104, 58, 52, 52, 51]

/-- An array that nothing has been stored in. -/
def emptyPorts : PortArray := ⟨List.replicate 32 (0, 0), 0, 0⟩

theorem parseHostPortsBuf_exact_plain :
    ∃ r, parseHostPortsBuf (fun _ => false) plainRemote (256 : ℕ) (List.replicate 256 0)
        emptyPorts = some r ∧
      ReadExactly (fun _ => false) plainRemote 256 (List.replicate 256 0) r :=
  parseHostPortsBuf_exact _ (by decide) (hostLengthKept_of_length (by decide) 256)
    List.length_replicate rfl

/-- `[h:443` is a host, a last colon and a port, and is refused for its bracket. -/
theorem parseHostPortsBuf_open_bracket :
    58 ∉ ([52, 52, 51] : Bytes) ∧ PortsListed [52, 52, 51] [.single 443] ∧
      (parseHostPortsBuf (fun _ => false) ([91, 104] ++ 58 :: [52, 52, 51]) (256 : ℕ)
        (List.replicate 256 0) emptyPorts).map HostPorts.ok = some false := by
  have hparse : parsePortSet ['4', '4', '3'] = some ⟨[.single 443], 1, rfl⟩ := rfl
  exact ⟨by decide, ⟨portList_of_parsePortSet hparse, by decide⟩, rfl⟩

end AwgProxy
