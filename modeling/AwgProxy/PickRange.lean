import AwgProxy.PortDraw

/-!
# The Ports a Server Sets Up

`awg-ports.sh` makes a server take its clients on a whole range of UDP ports. `pick_range`
picks the ports: the first free ones from a start, given or drawn, up to the range the kernel
draws its own from. Ports that are busy split them into pieces, and of up to eight drawn starts
the one with the fewest pieces is kept.

To `awk` a start is a number where it counts and a text where it looks the port up: one written
with zeros in front is not found among the busy ports. The shell reads a count with a zero in
front as octal where it draws a start.

* `scanText_spec` — the scan of one start: the first free ports, as the pieces of a list.
* `pickLoop_snd_eq_zero_iff` — when the loop ends with a start that has no free port.
* `picksRight_iff` — for which hosts the script names ports that are free and that the proxy
  can read.
-/

namespace AwgProxy

open Text

/-! ### The code -/

/-- `MIN_PORT`. -/
abbrev minPort : ℕ := 10000

/-- `MAX_SEGMENTS`. -/
abbrev maxSegments : ℕ := 32

/-- `isnum`. -/
def isnum (t : List Char) : Bool :=
  t ≠ [] && t.all Char.isDigit && 1 ≤ digitsVal t && digitsVal t ≤ 65535

/-- A number in `$((…))`, `none` where that is an error: behind a zero it is octal. -/
def bashNum (t : List Char) : Option ℕ :=
  if t.head? = some '0' then
    if t.all (· < '8') then some (Nat.ofDigitChars 8 t 0) else none
  else some (digitsVal t)

/-- What `pick_range` is called with and finds on the host. -/
structure PickInput where
  /-- `count`, as it is written. -/
  count : List Char
  /-- `start`, where it is given, as it is written. -/
  start : Option (List Char)
  /-- The lower bound of the kernel's ephemeral range; what is no port is not used. -/
  eph : ℕ
  /-- The ports `busy_ports` lists. -/
  busy : List ℕ
  /-- The two values of `RANDOM` for each draw. -/
  random : ℕ → ℕ × ℕ
  /-- `do_setup` asks for digits, and for two ports at least. -/
  count_digits : ∀ c ∈ count, c.isDigit = true
  two_le_count : 2 ≤ digitsVal count
  /-- And for a start that is a port. -/
  start_isnum : ∀ s ∈ start, isnum s = true

namespace PickInput

variable (inp : PickInput)

/-- The upper bound `hi` of the scan. -/
def hi : ℕ :=
  let eph := if 1 ≤ inp.eph ∧ inp.eph ≤ 65535 then inp.eph else 32768
  if eph - 1 > minPort then eph - 1 else 65535

/-- `span`. -/
def span : ℤ := inp.hi - minPort + 1

/-- `count` after its clamp. -/
def c : ℤ :=
  if (digitsVal inp.count : ℤ) ≤ inp.span - 200 then digitsVal inp.count else inp.span - 200

/-- `count` in the draw of a start. -/
def drawCount : Option ℤ :=
  if (digitsVal inp.count : ℤ) ≤ inp.span - 200 then (bashNum inp.count).map Int.ofNat
  else some (inp.span - 200)

/-- The start of each of the eight tries, `none` where the draw is an error. -/
def starts : Option (List (List Char)) :=
  match inp.start with
  | some s => some (List.replicate 8 s)
  | none => inp.drawCount.map fun count =>
      (List.range 8).map fun i =>
        let (x, y) := inp.random i
        decimal (minPort + (x <<< 15 ||| y) % (inp.span - count + 1).toNat)

end PickInput

/-- The state of the `awk` scan; `a` is -1 outside of a piece. -/
structure AwkScan where
  p : ℕ
  got : ℕ
  out : List Char
  a : Option ℕ

/-- The text of `p`, or of an `a` that was set to it: `p` is `s` as it is written up to the
first `p++`, and a number from then on. -/
def awkText (s : List Char) (p : ℕ) : List Char :=
  if p = digitsVal s then s else decimal p

/-- The text of a piece. -/
def pieceText (s : List Char) (a b : ℕ) : List Char :=
  if a = b then awkText s a else awkText s a ++ '-' :: decimal b

/-- `out`, with the piece that is open. -/
def AwkScan.closed (s : List Char) (st : AwkScan) : List Char :=
  match st.a with
  | some a => st.out ++ (if st.out ≠ [] then [','] else []) ++ pieceText s a (st.p - 1)
  | none => st.out

/-- The body of the loop of the scan: a busy port ends the piece, a free one begins one or
goes to it. What `in` looks up is the text. -/
def AwkScan.next (busy : List ℕ) (s : List Char) (st : AwkScan) : AwkScan :=
  if busy.any (decimal · = awkText s st.p) then
    { st with p := st.p + 1, out := st.closed s, a := none }
  else { st with p := st.p + 1, got := st.got + 1, a := some (st.a.getD st.p) }

/-- The loop of the scan, with the number of ports from `p` to `hi`. -/
def scanLoop (busy : List ℕ) (c : ℤ) (s : List Char) : ℕ → AwkScan → AwkScan
  | 0, st => st
  | n + 1, st => if (st.got : ℤ) < c then scanLoop busy c s n (st.next busy s) else st

/-- The scan from `s`: the spec it prints. -/
def scanText (busy : List ℕ) (c : ℤ) (hi : ℕ) (s : List Char) : List Char :=
  (scanLoop busy c s (hi + 1 - digitsVal s) ⟨digitsVal s, 0, [], none⟩).closed s

/-- The number of pieces, as `grep -c .` counts them. -/
def pieceCount (spec : List Char) : ℕ :=
  (spec.splitOn ',').countP fun t => t ≠ []

/-- The loop of `pick_range` over the starts, with `best` and `bestn`. -/
def pickLoop (inp : PickInput) : List (List Char) → List Char × ℕ → List Char × ℕ
  | [], best => best
  | s :: ss, best =>
      let spec := scanText inp.busy inp.c inp.hi s
      let n := pieceCount spec
      let best := if n < best.2 then (spec, n) else best
      if n ≤ 1 ∨ inp.start.isSome then best else pickLoop inp ss best

/-- `pick_range`: the spec it prints, or its failure. -/
def pickRange (inp : PickInput) : Option (List Char) := do
  let best := pickLoop inp (← inp.starts) ([], 999)
  if best.2 ≤ maxSegments then some best.1 else none

/-- The number at the beginning of a field. -/
def fieldVal (t : List Char) : ℤ :=
  digitsVal (t.takeWhile Char.isDigit)

/-- What a piece adds to `spec_count`. -/
def pieceSize (t : List Char) : ℤ :=
  if t = [] then 0
  else
    match t.splitOn '-' with
    | [a, b] => fieldVal b - fieldVal a + 1
    | _ => 1

/-- `spec_count`. -/
def specCount (spec : List Char) : ℤ :=
  ((spec.splitOn ',').map pieceSize).sum

/-! ### What the script is to pick -/

/-- The first `c` free ports from `s` up to `hi`, or all of them where there are fewer. -/
def firstFree (busy : List ℕ) (c : ℤ) (hi s : ℕ) : List ℕ :=
  ((List.range' s (hi + 1 - s)).filter fun p => p ∉ busy).take c.toNat

/-- The ports of a range. -/
def PortRange.portNumbers (x : PortRange) : List ℕ :=
  List.range' x.lo x.size

/-- A spec the proxy reads, that names the first free ports from `s`. -/
structure NamesFirstFree (inp : PickInput) (s spec : List Char) : Prop where
  ne_nil : spec ≠ []
  eq_scanText : spec = scanText inp.busy inp.c inp.hi s
  reads : ∃ ps, parsePortSet spec = some ps ∧ ps.r.length ≤ awgMaxPortRanges ∧
    ps.r.Pairwise (fun x y => x.hi < y.lo) ∧
    ps.r.flatMap PortRange.portNumbers = firstFree inp.busy inp.c inp.hi (digitsVal s)
  specCount_eq : specCount spec = (firstFree inp.busy inp.c inp.hi (digitsVal s)).length

/-- Whatever the script picks is right. -/
def PicksRight (inp : PickInput) : Prop :=
  ∀ spec, pickRange inp = some spec →
    ∃ ss, inp.starts = some ss ∧ ∃ s ∈ ss, NamesFirstFree inp s spec

/-- The busy ports that are written as the scan from `s` looks them up: all of them but `s`
itself where it has zeros in front. -/
def seenBusy (busy : List ℕ) (s : List Char) : List ℕ :=
  busy.filter fun p => awkText s p = decimal p

/-- The ports the scan from `s` takes. -/
def PickInput.taken (inp : PickInput) (s : List Char) : List ℕ :=
  firstFree (seenBusy inp.busy s) inp.c inp.hi (digitsVal s)

/-- No port is taken from `s` on. -/
def NoneFree (inp : PickInput) (s : List Char) : Prop :=
  inp.c ≤ 0 ∨ ∀ p, digitsVal s ≤ p → p ≤ inp.hi → p ∈ seenBusy inp.busy s

/-- A busy port lies between two that are taken from `s` on. -/
def InPieces (inp : PickInput) (s : List Char) : Prop :=
  let busy := seenBusy inp.busy s
  ∃ p q r, digitsVal s ≤ p ∧ p < q ∧ q < r ∧ r ≤ inp.hi ∧ p ∉ busy ∧ q ∈ busy ∧ r ∉ busy ∧
    ((List.range' (digitsVal s) (r - digitsVal s)).countP (fun x => x ∉ busy) : ℤ) < inp.c

/-- The tries end with a start from which no port is taken: a given one, or a drawn one where
the ports of every drawn start before it come in pieces. -/
def EndsEmpty (inp : PickInput) : Prop :=
  ∃ pre s post, inp.starts = some (pre ++ s :: post) ∧
    (∀ t ∈ pre, inp.start = none ∧ InPieces inp t) ∧ NoneFree inp s

/-- The given start has zeros in front and is busy, and the ports taken from it on, itself with
them, come in no more pieces than the script allows. -/
def TakesBusyStart (inp : PickInput) : Prop :=
  ∃ s, inp.start = some s ∧ s ≠ decimal (digitsVal s) ∧ digitsVal s ∈ inp.busy ∧
    digitsVal s ≤ inp.hi ∧ 0 < inp.c ∧
    (inp.taken s).countP (fun p => p = digitsVal s ∨ p - 1 ∈ seenBusy inp.busy s) ≤ maxSegments

/-! ### The text of a list of pieces -/

/-- A start is written with digits, one at least. -/
def Spelled (s : List Char) : Prop := s ≠ [] ∧ ∀ c ∈ s, c.isDigit = true

theorem spelled_decimal (n : ℕ) : Spelled (decimal n) :=
  ⟨decimal_ne_nil n, fun c hc => isDigit_of_mem_decimal c hc⟩

theorem isnum_iff {s : List Char} :
    isnum s = true ↔ Spelled s ∧ 1 ≤ digitsVal s ∧ digitsVal s ≤ 65535 := by
  simp [isnum, Spelled, and_assoc]

theorem fieldVal_of_spelled {t : List Char} (ht : Spelled t) : fieldVal t = digitsVal t := by
  have hall : t.takeWhile Char.isDigit = t := List.takeWhile_eq_self_iff.mpr ht.2
  rw [fieldVal, hall]

theorem portNum_of_spelled {t : List Char} (ht : Spelled t) (h1 : 1 ≤ digitsVal t)
    (h2 : digitsVal t ≤ 65535) : PortNum t (digitsVal t) :=
  ⟨ht.1, ht.2, rfl, h1, h2⟩

/-- The spec of ranges. -/
def specText (s : List Char) (rs : List PortRange) : List Char :=
  [','].intercalate (rs.map fun x => pieceText s x.lo x.hi)

section

variable {s : List Char} (hs : Spelled s)

include hs

theorem spelled_awkText (p : ℕ) : Spelled (awkText s p) := by
  rw [awkText]
  split
  · exact hs
  · exact spelled_decimal p

/-- A piece has digits and dashes only. -/
theorem chars_pieceText {a b : ℕ} : ∀ c ∈ pieceText s a b, c.isDigit = true ∨ c = '-' := by
  intro c hc
  have ha := (spelled_awkText hs a).2
  rw [pieceText] at hc
  split at hc
  · exact Or.inl (ha c hc)
  · rcases List.mem_append.mp hc with hc | hc
    · exact Or.inl (ha c hc)
    · rcases List.mem_cons.mp hc with rfl | hc
      · exact Or.inr rfl
      · exact Or.inl (isDigit_of_mem_decimal c hc)

theorem comma_notMem_pieceText {a b : ℕ} : ',' ∉ pieceText s a b := by
  intro h
  rcases chars_pieceText hs _ h with h | h
  · exact absurd h (by decide)
  · exact absurd h (by decide)

theorem pieceText_ne_nil (a b : ℕ) : pieceText s a b ≠ [] := by
  have ha := (spelled_awkText hs a).1
  rw [pieceText]
  split
  · exact ha
  · exact fun h => ha (List.append_eq_nil_iff.mp h).1

end

@[simp] theorem digitsVal_awkText (s : List Char) (p : ℕ) : digitsVal (awkText s p) = p := by
  rw [awkText]
  split
  · rename_i hp
    exact hp.symm
  · exact digitsVal_decimal p

@[simp] theorem specText_nil (s : List Char) : specText s [] = [] := rfl

theorem specText_singleton (s : List Char) (x : PortRange) :
    specText s [x] = pieceText s x.lo x.hi :=
  List.intercalate_singleton

theorem specText_cons_cons (s : List Char) (x y : PortRange) (rs : List PortRange) :
    specText s (x :: y :: rs) = pieceText s x.lo x.hi ++ ',' :: specText s (y :: rs) := by
  rw [specText, List.map_cons, List.map_cons, List.intercalate_cons_cons, List.append_assoc]
  rfl

section

variable {s : List Char} (hs : Spelled s)

include hs

theorem specText_eq_nil_iff {rs : List PortRange} : specText s rs = [] ↔ rs = [] := by
  cases rs with
  | nil => simp
  | cons x rs =>
      refine iff_of_false (fun h => ?_) (List.cons_ne_nil x rs)
      cases rs with
      | nil => exact pieceText_ne_nil hs _ _ (specText_singleton s x ▸ h)
      | cons y rs =>
          rw [specText_cons_cons] at h
          exact pieceText_ne_nil hs _ _ (List.append_eq_nil_iff.mp h).1

/-- One piece more, as the scan writes it. -/
theorem specText_concat (rs : List PortRange) (x : PortRange) :
    specText s (rs ++ [x]) =
      specText s rs ++ (if specText s rs ≠ [] then [','] else []) ++ pieceText s x.lo x.hi := by
  induction rs with
  | nil => exact specText_singleton s x
  | cons y rs ih =>
      rw [if_pos ((specText_eq_nil_iff hs).not.mpr (List.cons_ne_nil y rs))]
      cases rs with
      | nil =>
          rw [List.singleton_append, specText_cons_cons, specText_singleton, specText_singleton,
            List.append_assoc]
          rfl
      | cons z rs =>
          rw [if_pos ((specText_eq_nil_iff hs).not.mpr (List.cons_ne_nil z rs))] at ih
          rw [List.cons_append, List.cons_append, specText_cons_cons, ← List.cons_append, ih,
            specText_cons_cons]
          simp only [List.append_assoc, List.cons_append]

/-- The pieces, from the text. -/
theorem splitOn_specText {rs : List PortRange} (hrs : rs ≠ []) :
    (specText s rs).splitOn ',' = rs.map fun x => pieceText s x.lo x.hi := by
  refine List.splitOn_intercalate ',' (fun t ht => ?_) (by simpa using hrs)
  obtain ⟨x, -, rfl⟩ := List.mem_map.mp ht
  exact comma_notMem_pieceText hs

/-- `grep -c` counts the pieces. -/
theorem pieceCount_specText (rs : List PortRange) : pieceCount (specText s rs) = rs.length := by
  rcases eq_or_ne rs [] with rfl | hrs
  · rfl
  · rw [pieceCount, splitOn_specText hs hrs, List.countP_map, List.countP_eq_length.mpr]
    intro x _
    simpa using pieceText_ne_nil hs x.lo x.hi

theorem pieceSize_pieceText (x : PortRange) : pieceSize (pieceText s x.lo x.hi) = x.size := by
  obtain ⟨lo, hi, hle⟩ := x
  have hdash : ∀ t, Spelled t → '-' ∉ t := fun t ht => Configurator.dash_notMem_of_digits ht.2
  have hlo := spelled_awkText hs lo
  have hhi := spelled_decimal hi
  rw [pieceSize, if_neg (pieceText_ne_nil hs _ _), pieceText, PortRange.size]
  dsimp only
  by_cases heq : lo = hi
  · rw [if_pos heq, List.splitOn_eq_singleton (hdash _ hlo)]
    dsimp only
    omega
  · rw [if_neg heq, List.splitOn_append_cons_self_of_not_mem (hdash _ hlo),
      List.splitOn_eq_singleton (hdash _ hhi)]
    dsimp only
    rw [fieldVal_of_spelled hlo, fieldVal_of_spelled hhi, digitsVal_awkText, digitsVal_decimal]
    omega

/-- `spec_count` counts the ports. -/
theorem specCount_specText (rs : List PortRange) :
    specCount (specText s rs) = (rs.map PortRange.size).sum := by
  rcases eq_or_ne rs [] with rfl | hrs
  · rfl
  rw [specCount, splitOn_specText hs hrs, List.map_map]
  clear hrs
  induction rs with
  | nil => rfl
  | cons x rs ih =>
      rw [List.map_cons, List.sum_cons, List.map_cons, List.sum_cons, Nat.cast_add, ← ih]
      exact congrArg (· + _) (pieceSize_pieceText hs x)

/-- The proxy reads the pieces. -/
theorem portToken_pieceText {x : PortRange} (h1 : 1 ≤ x.lo) (h2 : x.hi ≤ 65535) :
    PortToken (pieceText s x.lo x.hi) x := by
  obtain ⟨lo, hi, hle⟩ := x
  dsimp only at h1 h2
  have hlo : PortNum (awkText s lo) lo := by
    have hnum := portNum_of_spelled (spelled_awkText hs lo)
    rw [digitsVal_awkText] at hnum
    exact hnum h1 (hle.trans h2)
  have hhi : PortNum (decimal hi) hi := by
    have hnum := portNum_of_spelled (spelled_decimal hi)
    rw [digitsVal_decimal] at hnum
    exact hnum (h1.trans hle) h2
  rw [pieceText]
  dsimp only
  split
  · rename_i heq
    obtain rfl := heq
    exact .single hlo
  · exact .range hlo hhi hle

theorem portList_specText {rs : List PortRange} (hrs : rs ≠ [])
    (h : ∀ x ∈ rs, 1 ≤ x.lo ∧ x.hi ≤ 65535) : PortList (specText s rs) rs := by
  induction rs with
  | nil => exact absurd rfl hrs
  | cons x rs ih =>
      obtain ⟨h1, h2⟩ := h x List.mem_cons_self
      have hx := portToken_pieceText hs h1 h2
      cases rs with
      | nil =>
          rw [specText_singleton]
          exact .last hx
      | cons y rs =>
          rw [specText_cons_cons]
          exact .cons hx (ih (List.cons_ne_nil y rs) fun z hz => h z (List.mem_cons_of_mem x hz))

end

/-! ### The scan -/

/-- Where the open piece of the scan begins, or would. -/
def AwkScan.openAt (st : AwkScan) : ℕ := st.a.getD st.p

/-- The scan has listed `rs` and an open piece: the free ports from `s` up to `p`, with a busy
port behind each of the ranges. -/
structure ScanOk (busy : List ℕ) (s : List Char) (st : AwkScan) (rs : List PortRange) :
    Prop where
  out : st.out = specText s rs
  le : digitsVal s ≤ st.p
  a_lt : ∀ a ∈ st.a, a < st.p
  ports : rs.flatMap PortRange.portNumbers ++ List.range' st.openAt (st.p - st.openAt) =
    (List.range' (digitsVal s) (st.p - digitsVal s)).filter fun p => p ∉ busy
  got : st.got =
    ((List.range' (digitsVal s) (st.p - digitsVal s)).filter fun p => p ∉ busy).length
  behind : ∀ x ∈ rs, x.hi + 1 ∈ busy ∧ x.hi + 1 < st.openAt
  apart : rs.Pairwise fun x y => x.hi + 1 < y.lo

theorem scanOk_start (busy : List ℕ) (s : List Char) :
    ScanOk busy s ⟨digitsVal s, 0, [], none⟩ [] := by
  constructor <;> simp [AwkScan.openAt]

theorem filter_range'_concat (busy : List ℕ) {s p : ℕ} (h : s ≤ p) :
    (List.range' s (p + 1 - s)).filter (fun q => q ∉ busy) =
      (List.range' s (p - s)).filter (fun q => q ∉ busy) ++ if p ∈ busy then [] else [p] := by
  rw [show p + 1 - s = p - s + 1 by omega, List.range'_1_concat, List.filter_append,
    show s + (p - s) = p by omega]
  split
  · rename_i hp
    simp [hp]
  · rename_i hp
    simp [hp]

/-- The pieces of a scan that stands at `p`, the open one included. -/
structure ScanPieces (busy : List ℕ) (s p : ℕ) (rs : List PortRange) : Prop where
  ports : rs.flatMap PortRange.portNumbers =
    (List.range' s (p - s)).filter fun q => q ∉ busy
  behind : ∀ x ∈ rs, x.hi + 1 ∈ busy ∧ x.hi + 1 < p ∨ x.hi + 1 = p
  apart : rs.Pairwise fun x y => x.hi + 1 ∈ busy ∧ x.hi + 1 < y.lo

theorem ScanOk.closed {busy : List ℕ} {s : List Char} (hs : Spelled s) {st : AwkScan}
    {rs : List PortRange} (h : ScanOk busy s st rs) :
    ∃ rs', st.closed s = specText s rs' ∧ ScanPieces busy (digitsVal s) st.p rs' := by
  obtain ⟨p, got, out, a⟩ := st
  obtain ⟨rfl, -, ha, hports, -, hbehind, hapart⟩ := h
  have hapart' : rs.Pairwise fun x y => x.hi + 1 ∈ busy ∧ x.hi + 1 < y.lo :=
    hapart.imp_of_mem fun hx _ hlt => ⟨(hbehind _ hx).1, hlt⟩
  cases a with
  | none =>
      refine ⟨rs, rfl, ?_, fun x hx => Or.inl (hbehind x hx), hapart'⟩
      simpa [AwkScan.openAt] using hports
  | some a =>
      have hap : a < p := ha a rfl
      refine ⟨rs ++ [⟨a, p - 1, by omega⟩], ?_, ?_, fun x hx => ?_, ?_⟩
      · rw [AwkScan.closed, specText_concat hs]
      · rw [List.flatMap_append, ← hports, List.flatMap_singleton, PortRange.portNumbers,
          PortRange.size]
        congr 2
        change p - 1 - a + 1 = p - a
        omega
      · rcases List.mem_append.mp hx with hx | hx
        · exact Or.inl ⟨(hbehind x hx).1, (hbehind x hx).2.trans hap⟩
        · obtain rfl := List.mem_singleton.mp hx
          exact Or.inr (by dsimp only; omega)
      · refine List.pairwise_append.mpr ⟨hapart', List.pairwise_singleton _ _, fun x hx y hy => ?_⟩
        obtain rfl := List.mem_singleton.mp hy
        exact hbehind x hx

/-- What the scan looks up is found where it is busy and written that way. -/
theorem any_decimal_eq_iff {busy : List ℕ} {s : List Char} {p : ℕ} :
    busy.any (decimal · = awkText s p) = true ↔ p ∈ seenBusy busy s := by
  rw [seenBusy, List.mem_filter, List.any_eq_true]
  constructor
  · rintro ⟨q, hq, heq⟩
    replace heq := of_decide_eq_true heq
    obtain rfl : q = p := by rw [← digitsVal_awkText s p, ← heq, digitsVal_decimal]
    exact ⟨hq, decide_eq_true heq.symm⟩
  · rintro ⟨hp, heq⟩
    exact ⟨p, hp, decide_eq_true (of_decide_eq_true heq).symm⟩

theorem AwkScan.next_eq (busy : List ℕ) (s : List Char) (st : AwkScan) :
    st.next busy s =
      if st.p ∈ seenBusy busy s then { st with p := st.p + 1, out := st.closed s, a := none }
      else { st with p := st.p + 1, got := st.got + 1, a := some (st.a.getD st.p) } := by
  simp only [AwkScan.next, any_decimal_eq_iff]

/-- **One pass of the loop.** -/
theorem ScanOk.next {busy : List ℕ} {s : List Char} (hs : Spelled s) {st : AwkScan}
    {rs : List PortRange} (h : ScanOk (seenBusy busy s) s st rs) :
    ∃ rs', ScanOk (seenBusy busy s) s (st.next busy s) rs' := by
  rw [AwkScan.next_eq]
  generalize seenBusy busy s = busy at h ⊢
  have hfilter := filter_range'_concat busy h.le
  by_cases hp : st.p ∈ busy
  · rw [if_pos hp] at hfilter ⊢
    rw [List.append_nil] at hfilter
    obtain ⟨rs', htext, hrs'⟩ := h.closed hs
    refine ⟨rs', htext, Nat.le_succ_of_le h.le, (fun _ ha => nomatch ha), ?_, ?_, ?_, ?_⟩
    · change rs'.flatMap PortRange.portNumbers ++
        List.range' (st.p + 1) (st.p + 1 - (st.p + 1)) = _
      rw [Nat.sub_self, List.range'_zero, List.append_nil, hrs'.ports, ← hfilter]
    · rw [hfilter]
      exact h.got
    · intro x hx
      rcases hrs'.behind x hx with ⟨hbusy, hlt⟩ | heq
      · exact ⟨hbusy, Nat.lt_succ_of_lt hlt⟩
      · exact ⟨heq ▸ hp, heq ▸ Nat.lt_succ_self st.p⟩
    · exact hrs'.apart.imp fun hxy => hxy.2
  · rw [if_neg hp] at hfilter ⊢
    have hopen : st.openAt ≤ st.p := by
      rw [AwkScan.openAt]
      cases ha : st.a with
      | none => exact le_rfl
      | some a => exact (h.a_lt a ha).le
    refine ⟨rs, h.out, Nat.le_succ_of_le h.le, fun a ha => ?_, ?_, ?_, h.behind, h.apart⟩
    · obtain rfl := Option.some.inj ha
      exact Nat.lt_succ_of_le hopen
    · change rs.flatMap PortRange.portNumbers ++ List.range' st.openAt (st.p + 1 - st.openAt) = _
      rw [hfilter, ← h.ports, show st.p + 1 - st.openAt = st.p - st.openAt + 1 by omega,
        List.range'_1_concat, show st.openAt + (st.p - st.openAt) = st.p by omega,
        List.append_assoc]
    · rw [hfilter, List.length_append, ← h.got]
      rfl

/-- The loop, up to its end: at `hi`, or with as many ports as it wants. -/
theorem exists_scanOk_scanLoop {busy : List ℕ} {c : ℤ} {s : List Char} (hs : Spelled s) (n : ℕ)
    {st : AwkScan} {rs : List PortRange} (h : ScanOk (seenBusy busy s) s st rs)
    (hgot : st.got ≤ c.toNat) :
    ∃ rs', ScanOk (seenBusy busy s) s (scanLoop busy c s n st) rs' ∧
      (scanLoop busy c s n st).got ≤ c.toNat ∧ (scanLoop busy c s n st).p ≤ st.p + n ∧
      ((scanLoop busy c s n st).p = st.p + n ∨ (scanLoop busy c s n st).got = c.toNat) := by
  induction n generalizing st rs with
  | zero => exact ⟨rs, h, hgot, le_rfl, Or.inl rfl⟩
  | succ n ih =>
      rw [scanLoop]
      by_cases hc : (st.got : ℤ) < c
      · rw [if_pos hc]
        obtain ⟨rs', hrs'⟩ := h.next hs
        have hstep : (st.next busy s).p = st.p + 1 := by
          rw [AwkScan.next]
          split <;> rfl
        have hmore : (st.next busy s).got ≤ c.toNat := by
          rw [AwkScan.next]
          split
          · exact hgot
          · dsimp only
            omega
        obtain ⟨rs'', hrs'', hgot', hle, hend⟩ := ih hrs' hmore
        rw [hstep] at hle hend
        refine ⟨rs'', hrs'', hgot', by omega, hend.imp_left fun h => by omega⟩
      · rw [if_neg hc]
        exact ⟨rs, h, hgot, by omega, Or.inr (by omega)⟩

/-- **The scan of one start.** It prints the first free ports in pieces, with a busy port
behind every piece but the last. -/
theorem scanText_spec (busy : List ℕ) (c : ℤ) (hi : ℕ) {s : List Char} (hs : Spelled s) :
    ∃ rs, scanText busy c hi s = specText s rs ∧
      rs.flatMap PortRange.portNumbers = firstFree (seenBusy busy s) c hi (digitsVal s) ∧
      rs.Pairwise fun x y => x.hi + 1 ∈ seenBusy busy s ∧ x.hi + 1 < y.lo := by
  obtain ⟨rs, hrs, hgot, hle, hend⟩ := exists_scanOk_scanLoop hs (hi + 1 - digitsVal s)
    (scanOk_start (seenBusy busy s) s) (Nat.zero_le c.toNat)
  obtain ⟨rs', htext, hpieces⟩ := hrs.closed hs
  refine ⟨rs', htext, ?_, hpieces.apart⟩
  rw [hpieces.ports, firstFree]
  rw [hrs.got] at hgot hend
  have hp := hrs.le
  generalize (scanLoop busy c s (hi + 1 - digitsVal s) ⟨digitsVal s, 0, [], none⟩).p = p
    at hle hend hgot hp ⊢
  dsimp only at hle hend
  generalize digitsVal s = s at hle hend hgot hp ⊢
  -- what lies between the end of the scan and the upper bound
  have hsplit : List.range' s (hi + 1 - s) =
      List.range' s (p - s) ++ List.range' p (s + (hi + 1 - s) - p) := by
    rw [show List.range' p (s + (hi + 1 - s) - p) =
      List.range' (s + (p - s)) (s + (hi + 1 - s) - p) by congr 1; omega,
      List.range'_append_1, show p - s + (s + (hi + 1 - s) - p) = hi + 1 - s by omega]
  rw [hsplit, List.filter_append]
  rcases hend with hend | hend
  · rw [show s + (hi + 1 - s) - p = 0 by omega, List.range'_zero, List.filter_nil,
      List.append_nil, List.take_of_length_le hgot]
  · rw [← hend, List.take_left]

/-! ### Which ports are taken -/

theorem PortRange.mem_portNumbers {x : PortRange} {p : ℕ} :
    p ∈ x.portNumbers ↔ x.lo ≤ p ∧ p ≤ x.hi := by
  have hle := x.le
  rw [PortRange.portNumbers, PortRange.size, List.mem_range'_1]
  omega

theorem PortRange.length_portNumbers (x : PortRange) : x.portNumbers.length = x.size :=
  List.length_range'

/-- A port is taken when it is free and fewer than `c` before it are. -/
theorem mem_firstFree {busy : List ℕ} {c : ℤ} {hi s r : ℕ} :
    r ∈ firstFree busy c hi s ↔ s ≤ r ∧ r ≤ hi ∧ r ∉ busy ∧
      ((List.range' s (r - s)).countP (fun x => x ∉ busy) : ℤ) < c := by
  by_cases hr : s ≤ r ∧ r ≤ hi ∧ r ∉ busy
  · obtain ⟨hsr, hrhi, hbusy⟩ := hr
    have hsplit : List.range' s (hi + 1 - s) =
        List.range' s (r - s) ++ r :: List.range' (r + 1) (hi - r) := by
      rw [← List.range'_succ, show List.range' r (hi - r + 1) =
        List.range' (s + (r - s)) (hi - r + 1) by congr 1; omega, List.range'_append_1,
        show r - s + (hi - r + 1) = hi + 1 - s by omega]
    rw [firstFree, hsplit, List.filter_append, List.filter_cons_of_pos (by simpa using hbusy),
      List.countP_eq_length_filter]
    generalize hfront : (List.range' s (r - s)).filter (fun x => x ∉ busy) = front
    have hnot : r ∉ front := by
      intro hmem
      rw [← hfront, List.mem_filter, List.mem_range'_1] at hmem
      omega
    rw [List.take_append, List.mem_append]
    have htake : r ∉ front.take c.toNat := fun h => hnot (List.mem_of_mem_take h)
    rcases Nat.lt_or_ge front.length c.toNat with hlt | hge
    · obtain ⟨k, hk⟩ : ∃ k, c.toNat - front.length = k + 1 := ⟨c.toNat - front.length - 1, by omega⟩
      rw [hk, List.take_succ_cons]
      exact iff_of_true (Or.inr List.mem_cons_self) ⟨hsr, hrhi, hbusy, by omega⟩
    · rw [Nat.sub_eq_zero_of_le hge, List.take_zero]
      exact iff_of_false (by simp [htake]) fun h => by omega
  · refine iff_of_false (fun h => hr ?_) fun h => hr ⟨h.1, h.2.1, h.2.2.1⟩
    have hmem := List.mem_of_mem_take h
    rw [List.mem_filter, List.mem_range'_1] at hmem
    exact ⟨by omega, by omega, by simpa using hmem.2⟩

variable {inp : PickInput}

theorem taken_eq_nil_iff {s : List Char} : inp.taken s = [] ↔ NoneFree inp s := by
  rw [PickInput.taken, firstFree, List.take_eq_nil_iff, List.filter_eq_nil_iff, NoneFree]
  refine or_congr Int.toNat_eq_zero ?_
  constructor
  · intro h p hsp hphi
    simpa using h p (List.mem_range'_1.mpr ⟨hsp, by omega⟩)
  · intro h p hp
    have := List.mem_range'_1.mp hp
    simpa using h p (by omega) (by omega)

/-- The ports taken, by the pieces they come in. -/
theorem mem_firstFree_iff_of_flatMap {busy : List ℕ} {c : ℤ} {hi s : ℕ} {rs : List PortRange}
    (hports : rs.flatMap PortRange.portNumbers = firstFree busy c hi s) {p : ℕ} :
    p ∈ firstFree busy c hi s ↔ ∃ x ∈ rs, x.lo ≤ p ∧ p ≤ x.hi := by
  rw [← hports, List.mem_flatMap]
  simp only [PortRange.mem_portNumbers]

/-- A piece begins with the start, or behind a busy port. -/
theorem begins_of_mem {busy : List ℕ} {c : ℤ} {hi s : ℕ} {rs : List PortRange}
    (hports : rs.flatMap PortRange.portNumbers = firstFree busy c hi s)
    (hapart : rs.Pairwise fun x y => x.hi + 1 ∈ busy ∧ x.hi + 1 < y.lo) {x : PortRange}
    (hx : x ∈ rs) : x.lo = s ∨ x.lo - 1 ∈ busy := by
  have hmem : ∀ {p}, p ∈ firstFree busy c hi s ↔ ∃ y ∈ rs, y.lo ≤ p ∧ p ≤ y.hi :=
    mem_firstFree_iff_of_flatMap hports
  obtain ⟨hsx, hxhi, -, hcount⟩ := mem_firstFree.mp (hmem.mpr ⟨x, hx, le_rfl, x.le⟩)
  by_contra hnot
  obtain ⟨hne, hfree⟩ := not_or.mp hnot
  -- the port before it would be taken too, and stand in a piece of its own
  have htaken : x.lo - 1 ∈ firstFree busy c hi s := by
    refine mem_firstFree.mpr ⟨by omega, by omega, hfree, lt_of_le_of_lt ?_ hcount⟩
    refine Int.ofNat_le.mpr (List.Sublist.countP_le ?_)
    exact List.range'_sublist_right.mpr (by omega)
  obtain ⟨y, hy, hylo, hyhi⟩ := hmem.mp htaken
  have hxle := x.le
  have hpair := List.pairwise_iff_getElem.mp hapart
  obtain ⟨i, hi, rfl⟩ := List.getElem_of_mem hx
  obtain ⟨j, hj, rfl⟩ := List.getElem_of_mem hy
  rcases Nat.lt_trichotomy i j with hij | rfl | hij
  · have := (hpair i j hi hj hij).2
    omega
  · omega
  · have := (hpair j i hj hi hij).2
    omega

/-- As many pieces as ports that begin one. -/
theorem countP_begins {busy : List ℕ} {c : ℤ} {hi s : ℕ} {rs : List PortRange}
    (hports : rs.flatMap PortRange.portNumbers = firstFree busy c hi s)
    (hapart : rs.Pairwise fun x y => x.hi + 1 ∈ busy ∧ x.hi + 1 < y.lo) :
    (firstFree busy c hi s).countP (fun p => p = s ∨ p - 1 ∈ busy) = rs.length := by
  have hone : ∀ x ∈ rs, x.portNumbers.countP (fun p => p = s ∨ p - 1 ∈ busy) = 1 := by
    intro x hx
    have hrest : (List.range' (x.lo + 1) (x.hi - x.lo)).countP
        (fun p => p = s ∨ p - 1 ∈ busy) = 0 := by
      refine List.countP_eq_zero.mpr fun p hp => ?_
      have hrange := List.mem_range'_1.mp hp
      have hxle := x.le
      have hmem : ∀ {q}, x.lo ≤ q → q ≤ x.hi → q ∈ firstFree busy c hi s := fun hlo hhi =>
        (mem_firstFree_iff_of_flatMap hports).mpr ⟨x, hx, hlo, hhi⟩
      have hsx := (mem_firstFree.mp (hmem le_rfl hxle)).1
      have hfree := (mem_firstFree.mp (hmem (q := p - 1) (by omega) (by omega))).2.2.1
      have hne : p ≠ s := by omega
      simpa using ⟨hne, hfree⟩
    rw [PortRange.portNumbers, PortRange.size, List.range'_succ,
      List.countP_cons_of_pos (by simpa using begins_of_mem hports hapart hx), hrest]
  have hones : rs.map (List.countP (fun p => p = s ∨ p - 1 ∈ busy) ∘ PortRange.portNumbers) =
      rs.map fun _ => 1 := List.map_congr_left hone
  rw [← hports, List.countP_flatMap, hones, List.map_const', List.sum_replicate_nat,
    Nat.mul_one]

/-- No piece is printed where no port is taken. -/
theorem pieceCount_eq_zero_iff {s : List Char} (hs : Spelled s) :
    pieceCount (scanText inp.busy inp.c inp.hi s) = 0 ↔ NoneFree inp s := by
  obtain ⟨rs, htext, hports, -⟩ := scanText_spec inp.busy inp.c inp.hi hs
  rw [htext, pieceCount_specText hs, List.length_eq_zero_iff, ← taken_eq_nil_iff,
    PickInput.taken, ← hports, List.flatMap_eq_nil_iff]
  constructor
  · rintro rfl
    exact fun x hx => nomatch hx
  · intro h
    refine List.eq_nil_iff_forall_not_mem.mpr fun x hx => ?_
    have hnil := h x hx
    have hlo : x.lo ∈ x.portNumbers := PortRange.mem_portNumbers.mpr ⟨le_rfl, x.le⟩
    rw [hnil] at hlo
    exact List.not_mem_nil hlo

/-- More than one is printed where a busy port lies between the ports taken. -/
theorem one_lt_pieceCount_iff {s : List Char} (hs : Spelled s) :
    1 < pieceCount (scanText inp.busy inp.c inp.hi s) ↔ InPieces inp s := by
  obtain ⟨rs, htext, hports, hapart⟩ := scanText_spec inp.busy inp.c inp.hi hs
  rw [htext, pieceCount_specText hs, InPieces]
  generalize seenBusy inp.busy s = busy at hports hapart ⊢
  generalize digitsVal s = s at hports ⊢
  have hmem : ∀ {p}, p ∈ firstFree busy inp.c inp.hi s ↔ ∃ x ∈ rs, x.lo ≤ p ∧ p ≤ x.hi :=
    mem_firstFree_iff_of_flatMap hports
  constructor
  · intro hlen
    obtain ⟨x, y, rs, rfl⟩ : ∃ x y rs', rs = x :: y :: rs' := by
      match rs, hlen with
      | x :: y :: rs', _ => exact ⟨x, y, rs', rfl⟩
    obtain ⟨hbusy, hlt⟩ := List.rel_of_pairwise_cons hapart (List.mem_cons_self (a := y))
    obtain ⟨hsx, -, hfree, -⟩ :=
      mem_firstFree.mp (hmem.mpr ⟨x, by simp, x.le, le_rfl⟩)
    obtain ⟨-, hyhi, hyfree, hcount⟩ :=
      mem_firstFree.mp (hmem.mpr ⟨y, by simp, le_rfl, y.le⟩)
    exact ⟨x.hi, x.hi + 1, y.lo, hsx, Nat.lt_succ_self _, hlt, hyhi, hfree, hbusy, hyfree, hcount⟩
  · rintro ⟨p, q, r, hsp, hpq, hqr, hrhi, hp, hq, hr, hcount⟩
    have hrtaken := mem_firstFree.mpr ⟨by omega, hrhi, hr, hcount⟩
    have hptaken : p ∈ firstFree busy inp.c inp.hi s := by
      refine mem_firstFree.mpr ⟨hsp, by omega, hp, lt_of_le_of_lt ?_ hcount⟩
      refine Int.ofNat_le.mpr (List.Sublist.countP_le ?_)
      exact List.range'_sublist_right.mpr (by omega)
    obtain ⟨x, hx, hxp⟩ := hmem.mp hptaken
    obtain ⟨y, hy, hyr⟩ := hmem.mp hrtaken
    by_contra hlen
    -- in a single piece the port between them would be taken too
    obtain rfl : x = y := by
      match rs, hx, hy, hlen with
      | [z], hx, hy, _ => rw [List.mem_singleton.mp hx, List.mem_singleton.mp hy]
      | _ :: _ :: _, _, _, hlen => exact absurd (by simp) hlen
    exact (mem_firstFree.mp (hmem.mpr ⟨x, hx, by omega, by omega⟩)).2.2.1 hq

/-! ### The tries -/

/-- What the loop ends with is the spec of one of its starts, or what it began with. -/
theorem pickLoop_cases (ss : List (List Char)) (best : List Char × ℕ) :
    pickLoop inp ss best = best ∨ ∃ s ∈ ss, pickLoop inp ss best =
      (scanText inp.busy inp.c inp.hi s, pieceCount (scanText inp.busy inp.c inp.hi s)) := by
  induction ss generalizing best with
  | nil => exact Or.inl rfl
  | cons s ss ih =>
      rw [pickLoop]
      have hkeep : ∀ spec n, (if n < best.2 then (spec, n) else best) = best ∨
          (if n < best.2 then (spec, n) else best) = (spec, n) := by
        intro spec n
        split
        · exact Or.inr rfl
        · exact Or.inl rfl
      have hbest := hkeep (scanText inp.busy inp.c inp.hi s)
        (pieceCount (scanText inp.busy inp.c inp.hi s))
      split
      · exact hbest.imp_right fun h => ⟨s, List.mem_cons_self, h⟩
      · rcases ih (if pieceCount (scanText inp.busy inp.c inp.hi s) < best.2 then
            (scanText inp.busy inp.c inp.hi s, pieceCount (scanText inp.busy inp.c inp.hi s))
            else best) with h | ⟨t, ht, h⟩
        · rw [h]
          exact hbest.imp_right fun h => ⟨s, List.mem_cons_self, h⟩
        · exact Or.inr ⟨t, List.mem_cons_of_mem s ht, h⟩

/-- **The tries end empty** exactly when one of them takes no port, and those before it come in
pieces. -/
theorem pickLoop_snd_eq_zero_iff {ss : List (List Char)} (hss : ∀ s ∈ ss, Spelled s)
    {best : List Char × ℕ} (hbest : 0 < best.2) :
    (pickLoop inp ss best).2 = 0 ↔ ∃ pre s post, ss = pre ++ s :: post ∧
      (∀ t ∈ pre, inp.start = none ∧ InPieces inp t) ∧ NoneFree inp s := by
  induction ss generalizing best with
  | nil =>
      refine iff_of_false hbest.ne' ?_
      rintro ⟨pre, s, post, h, -⟩
      exact List.append_ne_nil_of_right_ne_nil pre (List.cons_ne_nil s post) h.symm
  | cons s ss ih =>
      have hs := hss s List.mem_cons_self
      have ih := fun {best} => @ih (fun t ht => hss t (List.mem_cons_of_mem s ht)) best
      rw [pickLoop]
      by_cases hzero : NoneFree inp s
      · rw [(pieceCount_eq_zero_iff hs).mpr hzero, if_pos hbest, if_pos (Or.inl (Nat.zero_le 1))]
        exact iff_of_true rfl ⟨[], s, ss, rfl, fun t ht => absurd ht List.not_mem_nil, hzero⟩
      have hpos := Nat.pos_of_ne_zero ((pieceCount_eq_zero_iff hs).not.mpr hzero)
      have hbest' : 0 < (if pieceCount (scanText inp.busy inp.c inp.hi s) < best.2 then
          (scanText inp.busy inp.c inp.hi s, pieceCount (scanText inp.busy inp.c inp.hi s))
          else best).2 := by
        split
        · exact hpos
        · exact hbest
      by_cases hstop : pieceCount (scanText inp.busy inp.c inp.hi s) ≤ 1 ∨ inp.start.isSome = true
      · rw [if_pos hstop]
        refine iff_of_false hbest'.ne' ?_
        rintro ⟨pre, t, post, h, hpre, ht⟩
        cases pre with
        | nil =>
            obtain ⟨rfl, -⟩ := List.cons.inj h
            exact hzero ht
        | cons u pre =>
            obtain ⟨rfl, -⟩ := List.cons.inj h
            obtain ⟨hnone, hpieces⟩ := hpre s List.mem_cons_self
            rcases hstop with hone | hsome
            · exact absurd ((one_lt_pieceCount_iff hs).mpr hpieces) (not_lt.mpr hone)
            · rw [hnone] at hsome
              contradiction
      · rw [if_neg hstop, ih hbest']
        obtain ⟨hmany, hnone⟩ := not_or.mp hstop
        have hpieces := (one_lt_pieceCount_iff hs).mp (not_le.mp hmany)
        constructor
        · rintro ⟨pre, t, post, rfl, hpre, ht⟩
          refine ⟨s :: pre, t, post, rfl, fun u hu => ?_, ht⟩
          rcases List.mem_cons.mp hu with rfl | hu
          · exact ⟨by simpa using hnone, hpieces⟩
          · exact hpre u hu
        · rintro ⟨pre, t, post, h, hpre, ht⟩
          cases pre with
          | nil =>
              obtain ⟨rfl, -⟩ := List.cons.inj h
              exact absurd ht hzero
          | cons u pre =>
              obtain ⟨rfl, hss⟩ := List.cons.inj h
              exact ⟨pre, t, post, hss, fun v hv => hpre v (List.mem_cons_of_mem s hv), ht⟩

/-- A start is a port. -/
theorem spelled_of_mem_starts {ss : List (List Char)} (hss : inp.starts = some ss) {s : List Char}
    (hs : s ∈ ss) : Spelled s ∧ 1 ≤ digitsVal s := by
  rw [PickInput.starts] at hss
  cases hstart : inp.start with
  | some t =>
      rw [hstart] at hss
      obtain rfl := Option.some.inj hss
      obtain rfl := List.eq_of_mem_replicate hs
      obtain ⟨hspelled, hpos, -⟩ := isnum_iff.mp (inp.start_isnum s hstart)
      exact ⟨hspelled, hpos⟩
  | none =>
      rw [hstart] at hss
      obtain ⟨count, -, rfl⟩ := Option.map_eq_some_iff.mp hss
      obtain ⟨i, -, rfl⟩ := List.mem_map.mp hs
      refine ⟨spelled_decimal _, ?_⟩
      rw [digitsVal_decimal]
      exact Nat.le_add_right_of_le (by decide : 1 ≤ 10000)

/-- A given start is tried again and again. -/
theorem starts_of_start {s : List Char} (hstart : inp.start = some s) :
    inp.starts = some (List.replicate 8 s) := by
  rw [PickInput.starts, hstart]

/-- A drawn one is written as numbers are. -/
theorem eq_decimal_of_mem_starts {ss : List (List Char)} (hss : inp.starts = some ss)
    (hstart : inp.start = none) {s : List Char} (hs : s ∈ ss) : s = decimal (digitsVal s) := by
  rw [PickInput.starts, hstart] at hss
  obtain ⟨count, -, rfl⟩ := Option.map_eq_some_iff.mp hss
  obtain ⟨i, -, rfl⟩ := List.mem_map.mp hs
  exact congrArg decimal (digitsVal_decimal _).symm

/-- Only a start with zeros in front is looked up in another way, where it is busy. -/
theorem seenBusy_eq {busy : List ℕ} {s : List Char}
    (h : s = decimal (digitsVal s) ∨ digitsVal s ∉ busy) : seenBusy busy s = busy := by
  rw [seenBusy, List.filter_eq_self]
  intro p hp
  refine decide_eq_true ?_
  rw [awkText]
  split
  · rename_i heq
    rcases h with h | h
    · rw [heq]
      exact h
    · exact absurd (heq ▸ hp) h
  · rfl

theorem PickInput.hi_le (inp : PickInput) : inp.hi ≤ 65535 := by
  rw [PickInput.hi]
  split
  · split
    · omega
    · exact le_rfl
  · decide

/-- A spec the proxy reads, as the ports the scan takes from `s`. -/
structure NamesTaken (inp : PickInput) (s spec : List Char) : Prop where
  ne_nil : spec ≠ []
  reads : ∃ ps, parsePortSet spec = some ps ∧ ps.r.length ≤ awgMaxPortRanges ∧
    ps.r.Pairwise (fun x y => x.hi < y.lo) ∧ ps.r.flatMap PortRange.portNumbers = inp.taken s
  specCount_eq : specCount spec = (inp.taken s).length

/-- A spec of one piece at least, and of no more than the proxy takes, is one. -/
theorem namesTaken_scanText {s : List Char} (hs : Spelled s) (hval : 1 ≤ digitsVal s)
    (hpos : pieceCount (scanText inp.busy inp.c inp.hi s) ≠ 0)
    (hmax : pieceCount (scanText inp.busy inp.c inp.hi s) ≤ maxSegments) :
    NamesTaken inp s (scanText inp.busy inp.c inp.hi s) := by
  obtain ⟨rs, htext, hports, hapart⟩ := scanText_spec inp.busy inp.c inp.hi hs
  rw [htext, pieceCount_specText hs] at hpos hmax
  have hne : rs ≠ [] := fun h => hpos (List.length_eq_zero_iff.mpr h)
  have hbounds : ∀ x ∈ rs, 1 ≤ x.lo ∧ x.hi ≤ 65535 := by
    intro x hx
    have hmem : ∀ {p}, x.lo ≤ p → p ≤ x.hi → p ∈ inp.taken s := fun hlo hhi =>
      (mem_firstFree_iff_of_flatMap hports).mpr ⟨x, hx, hlo, hhi⟩
    have hlo := (mem_firstFree.mp (hmem le_rfl x.le)).1
    have hhi := (mem_firstFree.mp (hmem x.le le_rfl)).2.1
    exact ⟨hval.trans hlo, hhi.trans inp.hi_le⟩
  have hread := parsePortSet_eq_some_iff.mpr ⟨rs, portList_specText hs hne hbounds, hmax, rfl⟩
  have hr : (rs.foldl PortSet.push .empty).r = rs := by
    rw [foldl_push_r, PortSet.empty, List.nil_append]
  refine ⟨?_, ⟨_, htext ▸ hread, ?_, ?_, ?_⟩, ?_⟩
  · rw [htext]
    exact (specText_eq_nil_iff hs).not.mpr hne
  · rw [hr]
    exact hmax
  · rw [hr]
    exact hapart.imp fun hxy => Nat.lt_of_succ_lt hxy.2
  · rw [hr]
    exact hports
  · rw [htext, specCount_specText hs, PickInput.taken, ← hports, List.length_flatMap]
    simp only [PortRange.length_portNumbers]

/-- A start that is named wrongly is a busy one that is given with zeros in front. -/
theorem seenBusy_eq_of_mem_starts {ss : List (List Char)} (hss : inp.starts = some ss)
    {s : List Char} (hs : s ∈ ss) (hstart : ¬ TakesBusyStart inp)
    (hpos : pieceCount (scanText inp.busy inp.c inp.hi s) ≠ 0)
    (hmax : pieceCount (scanText inp.busy inp.c inp.hi s) ≤ maxSegments) :
    seenBusy inp.busy s = inp.busy := by
  refine seenBusy_eq (or_iff_not_imp_left.mpr fun hzeros hbusy => hstart ?_)
  obtain ⟨hspelled, -⟩ := spelled_of_mem_starts hss hs
  have hgiven : inp.start = some s := by
    cases h : inp.start with
    | some t =>
        obtain rfl := Option.some.inj (hss.symm.trans (starts_of_start h))
        rw [List.eq_of_mem_replicate hs]
    | none => exact absurd (eq_decimal_of_mem_starts hss h hs) hzeros
  have hfree : ¬ NoneFree inp s := (pieceCount_eq_zero_iff hspelled).not.mp hpos
  obtain ⟨hc, hsome⟩ := not_or.mp hfree
  refine ⟨s, hgiven, hzeros, hbusy, ?_, not_le.mp hc, ?_⟩
  · by_contra hhi
    exact hsome fun p hsp hphi => absurd (hsp.trans hphi) hhi
  · obtain ⟨rs, htext, hports, hapart⟩ := scanText_spec inp.busy inp.c inp.hi hspelled
    rw [htext, pieceCount_specText hspelled, ← countP_begins hports hapart] at hmax
    exact hmax

/-- **A given start** is tried once. -/
theorem pickLoop_given {s : List Char} (hstart : inp.start = some s) :
    pickLoop inp (List.replicate 8 s) ([], 999) =
      let spec := scanText inp.busy inp.c inp.hi s
      if pieceCount spec < 999 then (spec, pieceCount spec) else ([], 999) := by
  have hsome : inp.start.isSome = true := by
    rw [hstart]
    rfl
  rw [List.replicate_succ, pickLoop]
  dsimp only
  rw [if_pos (Or.inr hsome)]

/-- A busy start that is not found is named. -/
theorem not_picksRight_of_takesBusyStart (h : TakesBusyStart inp) : ¬ PicksRight inp := by
  obtain ⟨s, hstart, hzeros, hbusy, hhi, hc, hpieces⟩ := h
  intro hright
  obtain ⟨hs, hval, -⟩ := isnum_iff.mp (inp.start_isnum s hstart)
  have hhidden : digitsVal s ∉ seenBusy inp.busy s := by
    intro hmem
    have heq := of_decide_eq_true (List.mem_filter.mp hmem).2
    rw [awkText, if_pos rfl] at heq
    exact hzeros heq
  have htaken : digitsVal s ∈ inp.taken s :=
    mem_firstFree.mpr ⟨le_rfl, hhi, hhidden, by simpa using hc⟩
  have hpos : pieceCount (scanText inp.busy inp.c inp.hi s) ≠ 0 := by
    rw [ne_eq, pieceCount_eq_zero_iff hs, ← taken_eq_nil_iff]
    exact List.ne_nil_of_mem htaken
  have hmax : pieceCount (scanText inp.busy inp.c inp.hi s) ≤ maxSegments := by
    obtain ⟨rs, htext, hports, hapart⟩ := scanText_spec inp.busy inp.c inp.hi hs
    rw [htext, pieceCount_specText hs, ← countP_begins hports hapart]
    exact hpieces
  have hlt : pieceCount (scanText inp.busy inp.c inp.hi s) < 999 :=
    lt_of_le_of_lt hmax (by decide)
  have hpick : pickRange inp = some (scanText inp.busy inp.c inp.hi s) := by
    rw [pickRange, starts_of_start hstart, Option.bind_eq_bind, Option.bind_some,
      pickLoop_given hstart]
    dsimp only
    rw [if_pos hlt, if_pos hmax]
  obtain ⟨ts, hts, t, ht, hnames⟩ := hright _ hpick
  obtain rfl := Option.some.inj (hts.symm.trans (starts_of_start hstart))
  obtain rfl := List.eq_of_mem_replicate ht
  obtain ⟨ps, hread, -, -, hports⟩ := hnames.reads
  obtain ⟨qs, hread', -, -, hports'⟩ := (namesTaken_scanText hs hval hpos hmax).reads
  obtain rfl := Option.some.inj (hread.symm.trans hread')
  rw [← hports', hports] at htaken
  exact (mem_firstFree.mp htaken).2.2.1 hbusy

/-- **The script picks ports that are free, in a list the proxy can read**, unless its tries
end with a start from which no port is taken, or its start has zeros in front and is busy. -/
theorem picksRight_iff (inp : PickInput) :
    PicksRight inp ↔ ¬ EndsEmpty inp ∧ ¬ TakesBusyStart inp := by
  rcases hss : inp.starts with _ | ss
  · have hfails : pickRange inp = none := by
      rw [pickRange, hss]
      rfl
    refine iff_of_true (fun spec hpick => ?_) ⟨?_, ?_⟩
    · rw [hfails] at hpick
      contradiction
    · rintro ⟨pre, s, post, h, -⟩
      rw [hss] at h
      contradiction
    · rintro ⟨s, hstart, -⟩
      rw [starts_of_start hstart] at hss
      contradiction
  have hpickRange : pickRange inp = if (pickLoop inp ss ([], 999)).2 ≤ maxSegments then
      some (pickLoop inp ss ([], 999)).1 else none := by
    rw [pickRange, hss]
    rfl
  have hzero : (pickLoop inp ss ([], 999)).2 = 0 ↔ EndsEmpty inp := by
    rw [pickLoop_snd_eq_zero_iff (fun s hs => (spelled_of_mem_starts hss hs).1) (by decide),
      EndsEmpty, hss]
    simp only [Option.some.injEq]
  have hcases : pickLoop inp ss ([], 999) = ([], 999) ∨ ∃ s ∈ ss, pickLoop inp ss ([], 999) =
      (scanText inp.busy inp.c inp.hi s, pieceCount (scanText inp.busy inp.c inp.hi s)) :=
    pickLoop_cases ss ([], 999)
  constructor
  · refine fun hright => ⟨fun hempty => ?_, fun h => not_picksRight_of_takesBusyStart h hright⟩
    have hnone := hzero.mpr hempty
    rcases hcases with h | ⟨s, hs, h⟩
    · rw [h] at hnone
      contradiction
    · rw [h] at hnone
      have hspelled := (spelled_of_mem_starts hss hs).1
      obtain ⟨rs, htext, -⟩ := scanText_spec inp.busy inp.c inp.hi hspelled
      rw [htext, pieceCount_specText hspelled, List.length_eq_zero_iff] at hnone
      have hpick : pickRange inp = some [] := by
        rw [hpickRange, h, htext, hnone]
        rfl
      obtain ⟨_, -, t, -, ht⟩ := hright [] hpick
      exact ht.ne_nil rfl
  · rintro ⟨hfull, hstart⟩ spec hpick
    have hpos := hzero.not.mpr hfull
    rw [hpickRange] at hpick
    split at hpick
    · rename_i hmax
      obtain rfl := Option.some.inj hpick
      rcases hcases with h | ⟨s, hs, h⟩
      · rw [h] at hmax
        exact absurd hmax (by decide)
      · rw [h] at hpos hmax ⊢
        obtain ⟨hspelled, hval⟩ := spelled_of_mem_starts hss hs
        have hnames := namesTaken_scanText hspelled hval hpos hmax
        have hseen : inp.taken s = firstFree inp.busy inp.c inp.hi (digitsVal s) := by
          rw [PickInput.taken, seenBusy_eq_of_mem_starts hss hs hstart hpos hmax]
        refine ⟨ss, hss, s, hs, hnames.ne_nil, rfl, ?_, ?_⟩
        · rw [← hseen]
          exact hnames.reads
        · rw [← hseen]
          exact hnames.specCount_eq
    · contradiction

/-- A start beyond the upper bound. -/
def startBeyond : PickInput where
  count := ['2']
  start := some "40000".toList
  eph := 32768
  busy := []
  random := fun _ => (0, 0)
  count_digits := List.forall_mem_singleton.mpr rfl
  two_le_count := by decide
  start_isnum := by
    intro s hs
    obtain rfl := Option.some.inj hs
    decide

/-- The scan does not begin, and the script goes on with an empty spec. -/
theorem not_picksRight_startBeyond : ¬ PicksRight startBeyond := by
  intro h
  obtain ⟨_, -, s, -, hs⟩ := h [] (by decide)
  exact hs.ne_nil rfl

/-- A busy start, with a zero in front. -/
def startZero : PickInput where
  count := ['2']
  start := some "020000".toList
  eph := 32768
  busy := [20000]
  random := fun _ => (0, 0)
  count_digits := List.forall_mem_singleton.mpr rfl
  two_le_count := by decide
  start_isnum := by
    intro s hs
    obtain rfl := Option.some.inj hs
    decide

example : pickRange startZero = some "020000-20001".toList := by decide +kernel

end AwgProxy
