import AwgProxy.Lib.Ecma

/-!
# Lists of Ports

The port half of `AWG_REMOTE` may name a whole set, `443,20150-20299`. Two programs read
it: the proxy, character by character (`parse_port_set`), and the configurator that writes
it, with a regular expression for each piece (`isValidPortSpec`). The grammar both stand
for is `PortList`.

* `parsePortSet_eq_some_iff` — the proxy accepts the lists of at most 32 entries and
  returns them in order.
* `isValidPortSpec_iff` — the configurator accepts the same lists, as long as no number is
  written with more than five digits.
-/

namespace AwgProxy

open Text

/-! ### The grammar -/

/-- `AWG_MAX_PORT_RANGES`. -/
abbrev awgMaxPortRanges : ℕ := 32

/-- `port_range_t`. A reversed range is rejected by both programs, so the order of the
bounds is part of the type. -/
structure PortRange where
  /-- The smallest port. -/
  lo : ℕ
  /-- The largest port. -/
  hi : ℕ
  /-- The bounds are in order. -/
  le : lo ≤ hi
  deriving DecidableEq

/-- The range of one port. -/
def PortRange.single (v : ℕ) : PortRange := ⟨v, v, le_refl v⟩

/-- The number of ports of a range. -/
def PortRange.size (x : PortRange) : ℕ := x.hi - x.lo + 1

/-- A port, written in decimal digits. -/
structure PortNum (ds : List Char) (v : ℕ) : Prop where
  /-- There is a digit. -/
  ne_nil : ds ≠ []
  /-- There is nothing but digits. -/
  digits : ∀ c ∈ ds, c.isDigit = true
  /-- Their value. -/
  val : v = digitsVal ds
  /-- Zero is no port. -/
  pos : 0 < v
  /-- A port is a number of 16 bits. -/
  le : v ≤ 65535

/-- A port, or the first and the last of a range. -/
inductive PortToken : List Char → PortRange → Prop
  /-- One port. -/
  | single {ds : List Char} {v : ℕ} (h : PortNum ds v) : PortToken ds (.single v)
  /-- A range. -/
  | range {ds es : List Char} {lo hi : ℕ} (hlo : PortNum ds lo) (hhi : PortNum es hi)
      (hle : lo ≤ hi) : PortToken (ds ++ '-' :: es) ⟨lo, hi, hle⟩

/-- Entries behind one another, with a comma between them: the text and the ranges it
lists. -/
inductive PortList : List Char → List PortRange → Prop
  /-- The last entry. -/
  | last {t : List Char} {x : PortRange} (h : PortToken t x) : PortList t [x]
  /-- An entry, with others behind it. -/
  | cons {t s : List Char} {x : PortRange} {xs : List PortRange} (h : PortToken t x)
      (hs : PortList s xs) : PortList (t ++ ',' :: s) (x :: xs)

/-- No number is written with more than five digits. -/
def ShortNumbers (s : List Char) : Prop :=
  ∀ ds, ds <:+: s → allDigits ds = true → ds.length ≤ 5

/-- An entry has digits and dashes only, and starts with a digit. -/
theorem PortToken.chars {t : List Char} {x : PortRange} (h : PortToken t x) :
    ∀ c ∈ t, c.isDigit = true ∨ c = '-' := by
  intro c hc
  cases h with
  | single h => exact Or.inl (h.digits c hc)
  | range hlo hhi hle =>
      simp only [List.mem_append, List.mem_cons] at hc
      rcases hc with hc | rfl | hc
      · exact Or.inl (hlo.digits c hc)
      · exact Or.inr rfl
      · exact Or.inl (hhi.digits c hc)

/-- A list has digits, dashes and commas only. -/
theorem PortList.chars {s : List Char} {xs : List PortRange} (h : PortList s xs) :
    ∀ c ∈ s, c.isDigit = true ∨ c = '-' ∨ c = ',' := by
  induction h with
  | last h =>
      intro c hc
      exact (h.chars c hc).imp_right Or.inl
  | cons h _ ih =>
      intro c hc
      simp only [List.mem_append, List.mem_cons] at hc
      rcases hc with hc | rfl | hc
      · exact (h.chars c hc).imp_right Or.inl
      · exact Or.inr (Or.inr rfl)
      · exact ih c hc

/-- An entry that is no number has a dash behind its first number. -/
theorem PortToken.digits_or {t : List Char} {x : PortRange} (h : PortToken t x) :
    (PortNum t x.lo ∧ x = .single x.lo) ∨
      ∃ ds r, ds ≠ [] ∧ (∀ d ∈ ds, d.isDigit = true) ∧ t = ds ++ '-' :: r := by
  cases h with
  | single h => exact Or.inl ⟨h, rfl⟩
  | range hlo hhi hle => exact Or.inr ⟨_, _, hlo.ne_nil, hlo.digits, rfl⟩

/-- A list that is no number has a dash or a comma behind its first number. -/
theorem PortList.digits_or {s : List Char} {xs : List PortRange} (h : PortList s xs) :
    (∃ v, PortNum s v ∧ xs = [.single v]) ∨
      ∃ ds c r, ds ≠ [] ∧ (∀ d ∈ ds, d.isDigit = true) ∧ (c = '-' ∨ c = ',') ∧
        s = ds ++ c :: r := by
  cases h with
  | last h =>
      rcases h.digits_or with ⟨hnum, hx⟩ | ⟨ds, r, hne, hds, hs⟩
      · exact Or.inl ⟨_, hnum, by rw [← hx]⟩
      · exact Or.inr ⟨ds, '-', r, hne, hds, Or.inl rfl, hs⟩
  | @cons t s x xs h hs =>
      refine Or.inr ?_
      rcases h.digits_or with ⟨hnum, -⟩ | ⟨ds, r, hne, hds, rfl⟩
      · exact ⟨t, ',', s, hnum.ne_nil, hnum.digits, Or.inr rfl, rfl⟩
      · exact ⟨ds, '-', r ++ ',' :: s, hne, hds, Or.inl rfl, by simp⟩

/-! ### The proxy -/

/-- `portset_t`: the ranges and the number of their ports. -/
structure PortSet where
  /-- The ranges, in the order they are written in. -/
  r : List PortRange
  /-- The number of ports. -/
  total : ℕ
  /-- The number of ports matches the ranges. -/
  total_eq : total = (r.map PortRange.size).sum

/-- No range yet. -/
def PortSet.empty : PortSet := ⟨[], 0, rfl⟩

/-- A range more. -/
def PortSet.push (ps : PortSet) (x : PortRange) : PortSet where
  r := ps.r ++ [x]
  total := ps.total + x.size
  total_eq := by simp [ps.total_eq]

theorem foldl_push_r (xs : List PortRange) (ps : PortSet) :
    (xs.foldl PortSet.push ps).r = ps.r ++ xs := by
  induction xs generalizing ps with
  | nil => simp
  | cons x xs ih => simp [ih, PortSet.push]

/-- The loop of `parse_port_num`: the value, the number of digits and the rest. -/
def portNumLoop (v digits : ℕ) : List Char → Option (ℕ × ℕ × List Char)
  | [] => some (v, digits, [])
  | c :: q =>
      if c.isDigit then
        let v := 10 * v + (c.toNat - '0'.toNat)
        if 65535 < v then none else portNumLoop v (digits + 1) q
      else some (v, digits, c :: q)

/-- `parse_port_num`. -/
def parsePortNum (q : List Char) : Option (ℕ × List Char) :=
  match portNumLoop 0 0 q with
  | none => none
  | some (v, digits, q) => if digits = 0 ∨ v = 0 then none else some (v, q)

/-- One pass of the loop of `parse_port_set`, up to the store. -/
def parsePortToken (q : List Char) : Option (PortRange × List Char) :=
  match parsePortNum q with
  | none => none
  | some (lo, '-' :: q) =>
      match parsePortNum q with
      | none => none
      | some (hi, q) => if h : lo ≤ hi then some (⟨lo, hi, h⟩, q) else none
  | some (lo, q) => some (.single lo, q)

/-- The loop of `parse_port_set`, with the entries there is room for. -/
def parsePortSetLoop : ℕ → PortSet → List Char → Option PortSet
  | 0, _, _ => none
  | n + 1, ps, q =>
      match parsePortToken q with
      | none => none
      | some (x, []) => some (ps.push x)
      | some (x, c :: q) => if c = ',' then parsePortSetLoop n (ps.push x) q else none

/-- `parse_port_set`. -/
def parsePortSet (s : List Char) : Option PortSet :=
  parsePortSetLoop awgMaxPortRanges .empty s

/-- The loop reads the digits, unless their value is too large. -/
theorem portNumLoop_append {ds r : List Char} (hds : ∀ c ∈ ds, c.isDigit = true)
    (hr : ∀ c ∈ r.head?, c.isDigit = false) {v : ℕ} (hv : v ≤ 65535) (digits : ℕ) :
    portNumLoop v digits (ds ++ r) =
      if Nat.ofDigitChars 10 ds v ≤ 65535 then
        some (Nat.ofDigitChars 10 ds v, digits + ds.length, r)
      else none := by
  induction ds generalizing v digits with
  | nil =>
      cases r with
      | nil => simp [portNumLoop, hv]
      | cons c r => simp [portNumLoop, hv, hr c (by simp)]
  | cons d ds ih =>
      have hd : d.isDigit = true := hds d (by simp)
      rw [List.cons_append, portNumLoop, if_pos hd, Nat.ofDigitChars_cons]
      by_cases hbig : 65535 < 10 * v + (d.toNat - '0'.toNat)
      · have hle := le_ofDigitChars ds (10 * v + (d.toNat - '0'.toNat))
        rw [if_pos hbig, if_neg (by omega)]
      · rw [if_neg hbig, ih (fun c hc => hds c (by simp [hc])) (by omega)]
        simp [Nat.add_assoc, Nat.add_comm 1]

theorem parsePortNum_append {ds r : List Char} (hds : ∀ c ∈ ds, c.isDigit = true)
    (hr : ∀ c ∈ r.head?, c.isDigit = false) :
    parsePortNum (ds ++ r) =
      if ds ≠ [] ∧ 0 < digitsVal ds ∧ digitsVal ds ≤ 65535 then some (digitsVal ds, r)
      else none := by
  rw [parsePortNum, portNumLoop_append hds hr (by omega), ← digitsVal]
  by_cases hle : digitsVal ds ≤ 65535
  · simp only [if_pos hle, Nat.zero_add, List.length_eq_zero_iff]
    by_cases hne : ds = []
    · simp [hne]
    · by_cases hpos : digitsVal ds = 0
      · simp [hpos]
      · simp [hne, hpos, hle, Nat.pos_of_ne_zero hpos]
  · simp [hle]

/-- The number in front, and the rest behind it. -/
theorem parsePortNum_eq_some_iff {q r : List Char} {v : ℕ} :
    parsePortNum q = some (v, r) ↔
      ∃ ds, PortNum ds v ∧ q = ds ++ r ∧ ∀ c ∈ r.head?, c.isDigit = false := by
  constructor
  · intro h
    obtain ⟨ds, r', rfl, hds, hr'⟩ := exists_eq_digits_append q
    rw [parsePortNum_append hds hr'] at h
    split at h
    · next hnum =>
        cases h
        exact ⟨ds, ⟨hnum.1, hds, rfl, hnum.2.1, hnum.2.2⟩, rfl, hr'⟩
    · cases h
  · rintro ⟨ds, ⟨hne, hds, rfl, hpos, hle⟩, rfl, hr⟩
    rw [parsePortNum_append hds hr, if_pos ⟨hne, hpos, hle⟩]

/-- What is read as an entry is one. -/
theorem portToken_of_parsePortToken {q r : List Char} {x : PortRange}
    (h : parsePortToken q = some (x, r)) : ∃ t, PortToken t x ∧ q = t ++ r := by
  unfold parsePortToken at h
  split at h
  · cases h
  · next lo q' hlo =>
      obtain ⟨ds, hds, rfl, -⟩ := parsePortNum_eq_some_iff.mp hlo
      split at h
      · cases h
      · next hi q'' hhi =>
          obtain ⟨es, hes, rfl, -⟩ := parsePortNum_eq_some_iff.mp hhi
          split at h
          · next hle =>
              cases h
              exact ⟨ds ++ '-' :: es, .range hds hes hle, by simp⟩
          · cases h
  · next lo q' _ hlo =>
      obtain ⟨ds, hds, rfl, -⟩ := parsePortNum_eq_some_iff.mp hlo
      cases h
      exact ⟨ds, .single hds, rfl⟩

/-- An entry is read up to its end. -/
theorem parsePortToken_append {t r : List Char} {x : PortRange} (h : PortToken t x)
    (hr : ∀ c ∈ r.head?, c.isDigit = false ∧ c ≠ '-') :
    parsePortToken (t ++ r) = some (x, r) := by
  cases h with
  | @single ds v h =>
      have hnum : parsePortNum (t ++ r) = some (v, r) :=
        parsePortNum_eq_some_iff.mpr ⟨t, h, rfl, fun c hc => (hr c hc).1⟩
      unfold parsePortToken
      rw [hnum]
      split
      · next h => cases h
      · next h =>
          obtain ⟨rfl, rfl⟩ := Prod.mk.inj (Option.some.inj h)
          exact absurd rfl (hr '-' (by simp)).2
      · next h =>
          cases h
          rfl
  | @range ds es lo hi hlo hhi hle =>
      have hfst : parsePortNum (ds ++ '-' :: es ++ r) = some (lo, '-' :: (es ++ r)) :=
        parsePortNum_eq_some_iff.mpr ⟨ds, hlo, by simp, by simp⟩
      have hsnd : parsePortNum (es ++ r) = some (hi, r) :=
        parsePortNum_eq_some_iff.mpr ⟨es, hhi, rfl, fun c hc => (hr c hc).1⟩
      unfold parsePortToken
      rw [hfst]
      simp only [hsnd, dif_pos hle]

/-- What the loop accepts is a list, and its entries are stored in order. -/
theorem portList_of_parsePortSetLoop {n : ℕ} {ps ps' : PortSet} {q : List Char}
    (h : parsePortSetLoop n ps q = some ps') :
    ∃ xs, PortList q xs ∧ xs.length ≤ n ∧ ps' = xs.foldl PortSet.push ps := by
  induction n generalizing ps q with
  | zero => cases h
  | succ n ih =>
      unfold parsePortSetLoop at h
      split at h
      · cases h
      · next x hx =>
          obtain ⟨t, ht, rfl⟩ := portToken_of_parsePortToken hx
          cases h
          rw [List.append_nil]
          exact ⟨[x], .last ht, by simp, rfl⟩
      · next x c q' hx =>
          obtain ⟨t, ht, rfl⟩ := portToken_of_parsePortToken hx
          split at h
          · next hc =>
              obtain ⟨xs, hxs, hlen, hps⟩ := ih h
              rw [hc]
              exact ⟨x :: xs, .cons ht hxs, by simpa using hlen, hps⟩
          · cases h

/-- A list is accepted where there is room for it. -/
theorem parsePortSetLoop_of_portList {n : ℕ} {q : List Char} {xs : List PortRange}
    (h : PortList q xs) (hlen : xs.length ≤ n) (ps : PortSet) :
    parsePortSetLoop n ps q = some (xs.foldl PortSet.push ps) := by
  induction h generalizing n ps with
  | @last t x h =>
      have hread := parsePortToken_append (r := []) h (by simp)
      rw [List.append_nil] at hread
      cases n with
      | zero => simp at hlen
      | succ n => simp [parsePortSetLoop, hread]
  | @cons t s x xs h hs ih =>
      have hread := parsePortToken_append (r := ',' :: s) h (by simp)
      cases n with
      | zero => simp at hlen
      | succ n => simpa [parsePortSetLoop, hread] using ih (by simpa using hlen) (ps.push x)

/-- `parse_port_set` accepts the lists of at most 32 entries. -/
theorem parsePortSet_eq_some_iff {s : List Char} {ps : PortSet} :
    parsePortSet s = some ps ↔
      ∃ xs, PortList s xs ∧ xs.length ≤ awgMaxPortRanges ∧ ps = xs.foldl PortSet.push .empty := by
  constructor
  · exact portList_of_parsePortSetLoop
  · rintro ⟨xs, hxs, hlen, rfl⟩
    exact parsePortSetLoop_of_portList hxs hlen .empty

/-- The ranges of an accepted list are those written. -/
theorem portList_of_parsePortSet {s : List Char} {ps : PortSet}
    (h : parsePortSet s = some ps) : PortList s ps.r := by
  obtain ⟨xs, hxs, -, rfl⟩ := parsePortSet_eq_some_iff.mp h
  rwa [foldl_push_r, PortSet.empty, List.nil_append]

/-- A text lists one sequence of ranges. -/
theorem PortList.unique {s : List Char} {xs ys : List PortRange} (hx : PortList s xs)
    (hy : PortList s ys) : xs = ys := by
  have hreadx := parsePortSetLoop_of_portList hx (le_max_left _ ys.length) .empty
  have hready := parsePortSetLoop_of_portList hy (le_max_right xs.length _) .empty
  have heq := Option.some.inj (hreadx.symm.trans hready)
  simpa [foldl_push_r, PortSet.empty] using congrArg PortSet.r heq

/-! ### The configurator -/

namespace Configurator

open Ecma

/-- `\d{lo,hi}`, the whole text. -/
def isDigits (lo hi : ℕ) (s : List Char) : Bool :=
  lo ≤ s.length && s.length ≤ hi && allDigits s

/-- The groups of `^(\d{1,5})(?:-(\d{1,5}))?$`. -/
def portTokenMatch? (t : List Char) : Option (List Char × Option (List Char)) :=
  match splitFirst? '-' t with
  | none => if isDigits 1 5 t then some (t, none) else none
  | some (a, b) => if isDigits 1 5 a && isDigits 1 5 b then some (a, some b) else none

/-- One pass of the loop of `isValidPortSpec`. -/
def isValidPortToken (t : List Char) : Bool :=
  match portTokenMatch? t with
  | none => false
  | some (m₁, m₂) =>
      let lo := number m₁
      let hi := m₂.elim lo number
      !(lo.lt (.finite 1) || (Number.finite 65535).lt hi || hi.lt lo)

/-- `isValidPortSpec`. -/
def isValidPortSpec (s : List Char) : Bool :=
  let toks := s.splitOn ','
  toks.length ≤ 32 && toks.all isValidPortToken

theorem isDigits_iff {lo hi : ℕ} {s : List Char} :
    isDigits lo hi s = true ↔
      (lo ≤ s.length ∧ s.length ≤ hi) ∧ ∀ c ∈ s, c.isDigit = true := by
  simp [isDigits]

/-- A number of at most five digits is converted without rounding. -/
theorem number_of_isDigits {s : List Char} (h : isDigits 1 5 s = true) :
    number s = .finite (digitsVal s : ℕ) := by
  obtain ⟨⟨hpos, hlen⟩, hds⟩ := isDigits_iff.mp h
  have hne : s ≠ [] := List.ne_nil_of_length_pos hpos
  have hlt : digitsVal s < 2 ^ 53 := calc
    digitsVal s < 10 ^ s.length := digitsVal_lt hds
    _ ≤ 10 ^ 5 := Nat.pow_le_pow_right (by norm_num) hlen
    _ < 2 ^ 53 := by norm_num
  rw [number_digits hne hds, natNumber_of_lt hlt]

/-- A digit or a dash is no comma. -/
theorem comma_notMem_of_portToken {t : List Char} {x : PortRange} (h : PortToken t x) :
    ',' ∉ t := by
  intro hc
  rcases h.chars ',' hc with h | h
  · cases h
  · exact absurd h (by decide)

/-- No dash among digits. -/
theorem dash_notMem_of_digits {ds : List Char} (hds : ∀ c ∈ ds, c.isDigit = true) :
    '-' ∉ ds := by
  intro hc
  cases hds '-' hc

/-- The numbers of a text are those of its pieces. -/
theorem shortNumbers_append {a b : List Char} {c : Char} (hc : c.isDigit = false) :
    ShortNumbers (a ++ c :: b) ↔ ShortNumbers a ∧ ShortNumbers b := by
  constructor
  · intro h
    refine ⟨fun ds hds => h ds (hds.trans ?_), fun ds hds => h ds (hds.trans ?_)⟩
    · exact (List.prefix_append a (c :: b)).isInfix
    · exact ((List.suffix_cons c b).trans (List.suffix_append a (c :: b))).isInfix
  · rintro ⟨ha, hb⟩ ds hds hdig
    have hnot : c ∉ ds := by
      intro hmem
      rw [allDigits_iff.mp hdig c hmem] at hc
      cases hc
    rcases List.infix_append_iff.mp hds with h | h | ⟨u, v, rfl, hu, hv⟩
    · exact ha ds h hdig
    · rcases List.infix_cons_iff.mp h with h | h
      · rcases List.prefix_cons_iff.mp h with rfl | ⟨t, rfl, -⟩
        · simp
        · simp at hnot
      · exact hb ds h hdig
    · rcases List.prefix_cons_iff.mp hv with rfl | ⟨t, rfl, -⟩
      · rw [List.append_nil] at hdig ⊢
        exact ha u hu.isInfix hdig
      · simp at hnot

theorem shortNumbers_of_length {s : List Char} (h : s.length ≤ 5) : ShortNumbers s :=
  fun _ hds _ => hds.length_le.trans h

/-- The digits of a short number. -/
theorem isDigits_of_portNum {s : List Char} {v : ℕ} (h : PortNum s v) (hs : ShortNumbers s) :
    isDigits 1 5 s = true :=
  isDigits_iff.mpr ⟨⟨List.length_pos_iff.mpr h.ne_nil,
    hs s (List.infix_refl s) (allDigits_iff.mpr h.digits)⟩, h.digits⟩

/-- What is accepted as an entry is one, with short numbers. -/
theorem isValidPortToken_iff {t : List Char} :
    isValidPortToken t = true ↔ (∃ x, PortToken t x) ∧ ShortNumbers t := by
  constructor
  · intro h
    unfold isValidPortToken at h
    split at h
    · cases h
    next m₁ m₂ hmatch =>
    unfold portTokenMatch? at hmatch
    split at hmatch
    · -- one port
      split at hmatch
      next hdig =>
        obtain ⟨⟨hpos, hlen⟩, hds⟩ := isDigits_iff.mp hdig
        cases hmatch
        rw [number_of_isDigits hdig] at h
        simp only [Option.elim_none, Number.lt, Bool.not_eq_true', Bool.or_eq_false_iff,
          decide_eq_false_iff_not, not_lt] at h
        refine ⟨⟨_, .single ⟨List.ne_nil_of_length_pos hpos, hds, rfl, ?_, ?_⟩⟩,
          shortNumbers_of_length hlen⟩
        · exact_mod_cast h.1.1
        · exact_mod_cast h.1.2
      next => cases hmatch
    · -- a range
      next a b hcut =>
      obtain ⟨rfl, ha⟩ := splitFirst?_eq_some_iff.mp hcut
      split at hmatch
      next hdig =>
        simp only [Bool.and_eq_true] at hdig
        obtain ⟨⟨hapos, halen⟩, hads⟩ := isDigits_iff.mp hdig.1
        obtain ⟨⟨hbpos, hblen⟩, hbds⟩ := isDigits_iff.mp hdig.2
        cases hmatch
        simp only [Option.elim_some, number_of_isDigits hdig.1, number_of_isDigits hdig.2,
          Number.lt, Bool.not_eq_true', Bool.or_eq_false_iff,
          decide_eq_false_iff_not, not_lt] at h
        obtain ⟨⟨hlo, hhi⟩, hle⟩ := h
        have hlo : 1 ≤ digitsVal m₁ := by exact_mod_cast hlo
        have hhi : digitsVal b ≤ 65535 := by exact_mod_cast hhi
        have hle : digitsVal m₁ ≤ digitsVal b := by exact_mod_cast hle
        refine ⟨⟨_, .range ⟨List.ne_nil_of_length_pos hapos, hads, rfl, by omega, by omega⟩
          ⟨List.ne_nil_of_length_pos hbpos, hbds, rfl, by omega, by omega⟩ hle⟩, ?_⟩
        exact (shortNumbers_append rfl).mpr
          ⟨shortNumbers_of_length halen, shortNumbers_of_length hblen⟩
      next => cases hmatch
  · rintro ⟨⟨x, hx⟩, hshort⟩
    cases hx with
    | single h =>
        have hdig := isDigits_of_portNum h hshort
        have hcut : splitFirst? '-' t = none :=
          splitFirst?_eq_none_iff.mpr (dash_notMem_of_digits h.digits)
        have hpos : 1 ≤ digitsVal t := h.val ▸ h.pos
        have hle : digitsVal t ≤ 65535 := h.val ▸ h.le
        simp only [isValidPortToken, portTokenMatch?, hcut, hdig, if_true, Option.elim_none,
          number_of_isDigits hdig, Number.lt, Bool.not_eq_true', Bool.or_eq_false_iff,
          decide_eq_false_iff_not, not_lt]
        exact ⟨⟨by exact_mod_cast hpos, by exact_mod_cast hle⟩, le_refl _⟩
    | @range ds es lo hi hlo hhi hle =>
        obtain ⟨hsd, hse⟩ := (shortNumbers_append rfl).mp hshort
        have hdig := isDigits_of_portNum hlo hsd
        have hdig' := isDigits_of_portNum hhi hse
        have hcut : splitFirst? '-' (ds ++ '-' :: es) = some (ds, es) :=
          splitFirst?_append (dash_notMem_of_digits hlo.digits)
        have hpos : 1 ≤ digitsVal ds := hlo.val ▸ hlo.pos
        have hhi' : digitsVal es ≤ 65535 := hhi.val ▸ hhi.le
        have hle' : digitsVal ds ≤ digitsVal es := hlo.val ▸ hhi.val ▸ hle
        simp only [isValidPortToken, portTokenMatch?, hcut, hdig, hdig', Bool.and_self, if_true,
          Option.elim_some, number_of_isDigits hdig, number_of_isDigits hdig', Number.lt,
          Bool.not_eq_true', Bool.or_eq_false_iff, decide_eq_false_iff_not, not_lt]
        exact ⟨⟨by exact_mod_cast hpos, by exact_mod_cast hhi'⟩, by exact_mod_cast hle'⟩

/-- Accepted pieces make a list. -/
theorem exists_portList_of_pieces {ts : List (List Char)} (hne : ts ≠ [])
    (h : ∀ t ∈ ts, isValidPortToken t = true) :
    ∃ xs, PortList ([','].intercalate ts) xs ∧ xs.length = ts.length ∧
      ShortNumbers ([','].intercalate ts) := by
  induction ts with
  | nil => exact absurd rfl hne
  | cons t ts ih =>
      obtain ⟨⟨x, hx⟩, hshort⟩ := isValidPortToken_iff.mp (h t (by simp))
      cases ts with
      | nil => exact ⟨[x], by simpa using .last hx, rfl, by simpa using hshort⟩
      | cons u ts =>
          obtain ⟨xs, hxs, hlen, hshorts⟩ := ih (by simp) fun t ht => h t (by simp [ht])
          rw [List.intercalate_cons_cons, List.append_assoc, List.singleton_append]
          exact ⟨x :: xs, .cons hx hxs, by simpa using hlen,
            (shortNumbers_append rfl).mpr ⟨hshort, hshorts⟩⟩

/-- The pieces of a list are its entries. -/
theorem pieces_of_portList {s : List Char} {xs : List PortRange} (h : PortList s xs)
    (hshort : ShortNumbers s) :
    (s.splitOn ',').length = xs.length ∧ ∀ t ∈ s.splitOn ',', isValidPortToken t = true := by
  induction h with
  | @last t x h =>
      rw [List.splitOn_eq_singleton (comma_notMem_of_portToken h)]
      simp [isValidPortToken_iff.mpr ⟨⟨x, h⟩, hshort⟩]
  | @cons t s x xs h hs ih =>
      obtain ⟨hshortt, hshorts⟩ := (shortNumbers_append rfl).mp hshort
      obtain ⟨hlen, hall⟩ := ih hshorts
      rw [List.splitOn_append_cons_self_of_not_mem (comma_notMem_of_portToken h)]
      refine ⟨by simp [hlen], fun u hu => ?_⟩
      rcases List.mem_cons.mp hu with rfl | hu
      · exact isValidPortToken_iff.mpr ⟨⟨x, h⟩, hshortt⟩
      · exact hall u hu

/-- `isValidPortSpec` accepts the lists of at most 32 entries with short numbers. -/
theorem isValidPortSpec_iff {s : List Char} :
    isValidPortSpec s = true ↔
      (∃ xs, PortList s xs ∧ xs.length ≤ awgMaxPortRanges) ∧ ShortNumbers s := by
  simp only [isValidPortSpec, Bool.and_eq_true, decide_eq_true_eq, List.all_eq_true]
  constructor
  · rintro ⟨hlen, hall⟩
    obtain ⟨xs, hxs, hxlen, hshort⟩ := exists_portList_of_pieces (List.splitOn_ne_nil ',' s) hall
    rw [List.intercalate_splitOn] at hxs hshort
    exact ⟨⟨xs, hxs, hxlen.trans_le hlen⟩, hshort⟩
  · rintro ⟨⟨xs, hxs, hlen⟩, hshort⟩
    obtain ⟨hpieces, hall⟩ := pieces_of_portList hxs hshort
    exact ⟨hpieces.trans_le hlen, hall⟩

/-- What the configurator accepts, the proxy reads as written. -/
theorem parsePortSet_of_isValidPortSpec {s : List Char} (h : isValidPortSpec s = true) :
    ∃ ps, parsePortSet s = some ps ∧ PortList s ps.r := by
  obtain ⟨⟨xs, hxs, hlen⟩, -⟩ := isValidPortSpec_iff.mp h
  have hread := parsePortSet_eq_some_iff.mpr ⟨xs, hxs, hlen, rfl⟩
  exact ⟨_, hread, portList_of_parsePortSet hread⟩

/-- What the proxy accepts, the configurator does, when no number is too long. -/
theorem isValidPortSpec_of_parsePortSet {s : List Char} {ps : PortSet}
    (h : parsePortSet s = some ps) (hshort : ShortNumbers s) : isValidPortSpec s = true := by
  obtain ⟨xs, hxs, hlen, -⟩ := parsePortSet_eq_some_iff.mp h
  exact isValidPortSpec_iff.mpr ⟨⟨xs, hxs, hlen⟩, hshort⟩

end Configurator

end AwgProxy
