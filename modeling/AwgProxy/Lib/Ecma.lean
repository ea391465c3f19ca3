import AwgProxy.Lib.Double
import AwgProxy.Lib.Text

/-!
# Numbers of ECMAScript Texts

What `String.prototype.trim` and the conversion `Number(s)` of ECMAScript compute, for a
text as the list of its code points: the white space of the language, decimal literals
with sign, fraction and exponent, the literals of radix 2, 8 and 16, and `Infinity`, each
rounded to double precision. A zero has no sign here, no comparison sees one.

* `number_digits` — decimal digits convert to their value.
* `number_eq_nan_of_digits` — digits with something behind them that continues no numeric
  literal convert to `NaN`.
* `natNumber_le_iff`, `lt_natNumber_iff` — comparisons with a small bound see no rounding.
* `lt_of_codeUnits_lt` — a text of small code units has no other code points.
-/

namespace Ecma

/-- `WhiteSpace` and `LineTerminator`. -/
def isSpace (c : Char) : Bool :=
  let n := c.toNat
  (0x09 ≤ n && n ≤ 0x0D) || n == 0x20 || n == 0xA0 || n == 0x1680 ||
    (0x2000 ≤ n && n ≤ 0x200A) || n == 0x2028 || n == 0x2029 || n == 0x202F || n == 0x205F ||
    n == 0x3000 || n == 0xFEFF

/-- `String.prototype.trim`. -/
def trim (s : List Char) : List Char :=
  Text.trim isSpace s

/-- A digit is no white space. -/
theorem isSpace_of_isDigit {c : Char} (h : c.isDigit = true) : isSpace c = false := by
  have hn : 48 ≤ c.toNat ∧ c.toNat ≤ 57 := Char.isDigit_iff_toNat.mp h
  unfold isSpace
  generalize c.toNat = n at hn ⊢
  simp only [Bool.or_eq_false_iff, Bool.and_eq_false_iff, decide_eq_false_iff_not,
    beq_eq_false_iff_ne]
  omega

theorem exists_eq_trim (s : List Char) :
    ∃ a b, (∀ x ∈ a, isSpace x = true) ∧ (∀ x ∈ b, isSpace x = true) ∧ s = a ++ (trim s ++ b) :=
  Text.exists_eq_trim isSpace s

theorem trim_trim (s : List Char) : trim (trim s) = trim s :=
  Text.trim_trim isSpace s

theorem trim_sublist (s : List Char) : (trim s).Sublist s :=
  (List.rdropWhile_prefix isSpace _).sublist.trans (List.dropWhile_sublist isSpace)

/-- Trimming before a filter changes nothing behind it. -/
theorem trim_filter_trim (f : Char → Bool) (s : List Char) :
    trim ((trim s).filter f) = trim (s.filter f) := by
  obtain ⟨a, b, ha, hb, hs⟩ := exists_eq_trim s
  have hfilter : s.filter f = a.filter f ++ ((trim s).filter f ++ b.filter f) := by
    conv_lhs => rw [hs]
    simp
  rw [hfilter]
  exact (Text.trim_append (fun x hx => ha x (List.mem_of_mem_filter hx))
    fun x hx => hb x (List.mem_of_mem_filter hx)).symm

/-- What is no white space survives. -/
theorem mem_trim {c : Char} {s : List Char} (hc : isSpace c = false) (h : c ∈ s) :
    c ∈ trim s := by
  obtain ⟨a, b, ha, hb, hs⟩ := exists_eq_trim s
  rw [hs] at h
  simp only [List.mem_append] at h
  rcases h with h | h | h
  · rw [ha c h] at hc
    cases hc
  · exact h
  · rw [hb c h] at hc
    cases hc

/-- White space in front would be trimmed. -/
theorem eq_nil_of_trim_append {a s : List Char} (ha : ∀ x ∈ a, isSpace x = true)
    (h : trim (a ++ s) = a ++ s) : a = [] := by
  cases a with
  | nil => rfl
  | cons x a =>
      have hx := (Text.trim_eq_self_iff.mp h).1 x (by simp)
      rw [ha x (by simp)] at hx
      cases hx

/-- A number value. -/
inductive Number
  /-- `NaN`. -/
  | nan
  /-- The infinity of a sign. -/
  | infinity (neg : Bool)
  /-- A finite number. -/
  | finite (q : ℚ)
  deriving DecidableEq

/-- `<`. -/
def Number.lt : Number → Number → Bool
  | .finite a, .finite b => a < b
  | .infinity true, .finite _ => true
  | .finite _, .infinity false => true
  | .infinity s, .infinity t => s && !t
  | _, _ => false

/-- `<=`. -/
def Number.le : Number → Number → Bool
  | .finite a, .finite b => a ≤ b
  | .infinity true, .finite _ => true
  | .finite _, .infinity false => true
  | .infinity s, .infinity t => s || !t
  | _, _ => false

/-- `RoundMVResult`, with the sign of the literal. -/
def roundMV (neg : Bool) (q : ℚ) : Number :=
  (Double.ofRat q).elim (.infinity neg) fun x => .finite (if neg then -x else x)

/-- The sign a decimal literal may start with. -/
def signed : List Char → Bool × List Char
  | '+' :: s => (false, s)
  | '-' :: s => (true, s)
  | s => (false, s)

/-- `ExponentPart`, or nothing. -/
def exponentPart? : List Char → Option ℤ
  | [] => some 0
  | c :: s =>
      let (neg, ds) := signed s
      if (c = 'e' ∨ c = 'E') ∧ ds ≠ [] ∧ Text.allDigits ds then
        some (if neg then -(Text.digitsVal ds : ℤ) else Text.digitsVal ds)
      else none

/-- `StrUnsignedDecimalLiteral` without `Infinity`. -/
def decimal? (s : List Char) : Option ℚ :=
  let ip := s.takeWhile Char.isDigit
  let tail := s.dropWhile Char.isDigit
  let (fp, tail) := match tail with
    | '.' :: r => (r.takeWhile Char.isDigit, r.dropWhile Char.isDigit)
    | _ => ([], tail)
  if ip = [] ∧ fp = [] then none
  else (exponentPart? tail).map fun e =>
    (Text.digitsVal (ip ++ fp) : ℚ) * 10 ^ (e - (fp.length : ℤ))

/-- `StrDecimalLiteral`. -/
def decimalLiteral (s : List Char) : Number :=
  let (neg, u) := signed s
  if u = "Infinity".toList then .infinity neg
  else
    match decimal? u with
    | some q => roundMV neg q
    | none => .nan

/-- The radix a letter behind a leading zero stands for. -/
def radixOf? (c : Char) : Option ℕ :=
  if c = 'x' ∨ c = 'X' then some 16
  else if c = 'o' ∨ c = 'O' then some 8
  else if c = 'b' ∨ c = 'B' then some 2
  else none

/-- The value of a digit of radix 16, and 16 for any other character. -/
def hexVal (c : Char) : ℕ :=
  if c.isDigit then c.toNat - '0'.toNat
  else if 'a' ≤ c ∧ c ≤ 'f' then c.toNat - 'a'.toNat + 10
  else if 'A' ≤ c ∧ c ≤ 'F' then c.toNat - 'A'.toNat + 10
  else 16

/-- `NonDecimalIntegerLiteral` behind its radix. -/
def radixLiteral (b : ℕ) (ds : List Char) : Number :=
  if ds ≠ [] ∧ ds.all (hexVal · < b) then
    roundMV false ((ds.foldl (fun v c => v * b + hexVal c) 0 : ℕ) : ℚ)
  else .nan

/-- `StringNumericLiteral`, trimmed. -/
def numericLiteral : List Char → Number
  | [] => .finite 0
  | '0' :: c :: ds =>
      match radixOf? c with
      | some b => radixLiteral b ds
      | none => decimalLiteral ('0' :: c :: ds)
  | s => decimalLiteral s

/-- `Number(s)`. -/
def number (s : List Char) : Number :=
  numericLiteral (trim s)

/-- The number a natural number is stored as. -/
def natNumber (n : ℕ) : Number :=
  roundMV false n

theorem natNumber_of_lt {n : ℕ} (hn : n < 2 ^ 53) : natNumber n = .finite n := by
  simp [natNumber, roundMV, Double.ofRat_natCast hn]

/-- A small bound is checked without rounding. -/
theorem natNumber_le_iff {m n : ℕ} (hm : m < 2 ^ 53) :
    (natNumber n).le (.finite m) = true ↔ n ≤ m := by
  rw [natNumber, roundMV]
  cases hx : Double.ofRat (n : ℚ) with
  | some x => simpa [Number.le] using Double.ofRat_natCast_le_iff hm hx
  | none =>
      have hn : 2 ^ 53 ≤ n := by
        by_contra hlt
        rw [Double.ofRat_natCast (not_le.mp hlt)] at hx
        cases hx
      simp only [Option.elim_none, Number.le, Bool.false_eq_true, false_iff]
      omega

theorem lt_natNumber_iff {m n : ℕ} (hm : m < 2 ^ 53) :
    (Number.finite m).lt (natNumber n) = true ↔ m < n := by
  have h : (Number.finite m).lt (natNumber n) = !(natNumber n).le (.finite m) := by
    rw [natNumber, roundMV]
    cases Double.ofRat (n : ℚ) with
    | some x =>
        rw [Bool.eq_iff_iff]
        simp [Number.lt, Number.le]
    | none => rfl
  rw [h, Bool.not_eq_true', Bool.eq_false_iff, Ne, natNumber_le_iff hm, not_le]

/-- `ToUint32`. -/
def toUint32 : Number → ℕ
  | .finite q => (q.num.tdiv q.den % 4294967296).toNat
  | _ => 0

theorem toUint32_lt (x : Number) : toUint32 x < 4294967296 := by
  cases x with
  | finite q =>
      have hlt := Int.emod_lt_of_pos (q.num.tdiv q.den) (by norm_num : (0 : ℤ) < 4294967296)
      rw [toUint32]
      omega
  | nan => exact Nat.zero_lt_succ _
  | infinity neg => exact Nat.zero_lt_succ _

theorem toUint32_natCast (n : ℕ) : toUint32 (.finite (n : ℚ)) = n % 4294967296 := by
  rw [toUint32, Rat.num_natCast, Rat.den_natCast, Int.natCast_one, Int.tdiv_one]
  exact Int.toNat_natCast (n % 4294967296)

/-- What may stand behind the digits a numeric literal starts with. -/
def continues (c : Char) : Bool :=
  c.isDigit || isSpace c || c = '.' || c = 'e' || c = 'E' || (radixOf? c).isSome

/-- A digit is no letter of a radix. -/
theorem radixOf?_of_isDigit {c : Char} (h : c.isDigit = true) : radixOf? c = none := by
  unfold radixOf?
  split
  · next hc => rcases hc with rfl | rfl <;> cases h
  split
  · next hc => rcases hc with rfl | rfl <;> cases h
  split
  · next hc => rcases hc with rfl | rfl <;> cases h
  rfl

/-- No sign stands before a digit. -/
theorem signed_of_isDigit {d : Char} (hd : d.isDigit = true) (s : List Char) :
    signed (d :: s) = (false, d :: s) := by
  unfold signed
  split
  · next h =>
      rw [(List.cons.inj h).1] at hd
      cases hd
  · next h =>
      rw [(List.cons.inj h).1] at hd
      cases hd
  · rfl

/-- A text that starts with a digit is a decimal literal, unless a radix follows. -/
theorem numericLiteral_of_isDigit {d : Char} {s : List Char} (hd : d.isDigit = true)
    (hs : ∀ c ∈ s.head?, radixOf? c = none) :
    numericLiteral (d :: s) =
      match decimal? (d :: s) with
      | some q => roundMV false q
      | none => .nan := by
  have hinf : d :: s ≠ "Infinity".toList := by
    intro h
    rw [(List.cons.inj h).1] at hd
    cases hd
  have hlit : numericLiteral (d :: s) = decimalLiteral (d :: s) := by
    unfold numericLiteral
    split
    · next h => cases h
    · next c ds h =>
        obtain ⟨-, rfl⟩ := List.cons.inj h
        rw [hs c (by simp), h]
    · rfl
  rw [hlit, decimalLiteral, signed_of_isDigit hd]
  simp only [if_neg hinf]

/-- Decimal digits convert to their value. -/
theorem number_digits {ds : List Char} (hne : ds ≠ []) (hds : ∀ c ∈ ds, c.isDigit = true) :
    number ds = natNumber (Text.digitsVal ds) := by
  obtain ⟨d, s, rfl⟩ := List.exists_cons_of_ne_nil hne
  have htrim : trim (d :: s) = d :: s := by
    refine Text.trim_eq_self_iff.mpr ⟨?_, ?_⟩
    · intro x hx
      exact isSpace_of_isDigit (hds x (List.mem_of_mem_head? hx))
    · intro x hx
      exact isSpace_of_isDigit (hds x (List.mem_of_mem_getLast? hx))
  have hradix : ∀ c ∈ s.head?, radixOf? c = none := by
    intro c hc
    exact radixOf?_of_isDigit (hds c (by simp [List.mem_of_mem_head? hc]))
  have htake : (d :: s).takeWhile Char.isDigit = d :: s := List.takeWhile_eq_self_iff.mpr hds
  have hdrop : (d :: s).dropWhile Char.isDigit = [] := List.dropWhile_eq_nil_iff.mpr hds
  rw [number, htrim, numericLiteral_of_isDigit (hds d (by simp)) hradix]
  simp [decimal?, htake, hdrop, exponentPart?, natNumber]

/-- Digits with something behind them that continues no numeric literal. -/
theorem number_eq_nan_of_digits {ds r : List Char} {c : Char} (hne : ds ≠ [])
    (hds : ∀ d ∈ ds, d.isDigit = true) (hc : continues c = false) :
    number (ds ++ c :: r) = .nan := by
  obtain ⟨d, s, rfl⟩ := List.exists_cons_of_ne_nil hne
  simp only [continues, Bool.or_eq_false_iff, decide_eq_false_iff_not, Option.isSome_eq_false_iff,
    Option.isNone_iff_eq_none] at hc
  obtain ⟨⟨⟨⟨⟨hdigit, hspace⟩, hdot⟩, he⟩, hE⟩, hradix⟩ := hc
  have hd : d.isDigit = true := hds d (by simp)
  have htrim : trim (d :: s ++ c :: r) = d :: (s ++ c :: r.rdropWhile isSpace) :=
    Text.trim_append_cons (isSpace_of_isDigit hd) hspace
  have hhead : ∀ x ∈ (s ++ c :: r.rdropWhile isSpace).head?, radixOf? x = none := by
    intro x hx
    cases s with
    | nil =>
        simp only [List.nil_append, List.head?_cons, Option.mem_some_iff] at hx
        rw [← hx]
        exact hradix
    | cons y s =>
        simp only [List.cons_append, List.head?_cons, Option.mem_some_iff] at hx
        exact radixOf?_of_isDigit (hx ▸ hds y (by simp))
  have hnone : decimal? (d :: (s ++ c :: r.rdropWhile isSpace)) = none := by
    have hhead' : ∀ x ∈ (c :: r.rdropWhile isSpace).head?, x.isDigit = false := by
      simpa using hdigit
    have hcons : d :: (s ++ c :: r.rdropWhile isSpace) = d :: s ++ c :: r.rdropWhile isSpace :=
      rfl
    have hexp : exponentPart? (c :: r.rdropWhile isSpace) = none := by
      simp [exponentPart?, he, hE]
    rw [decimal?, hcons, Text.takeWhile_digits hds hhead', Text.dropWhile_digits hds hhead']
    split
    next fp tail heq =>
      split at heq
      · next r' h => exact absurd (List.cons.inj h).1 hdot
      · obtain ⟨rfl, rfl⟩ := Prod.mk.inj heq
        simp [hexp]
  rw [number, htrim, numericLiteral_of_isDigit hd hhead, hnone]

/-! ### Strings as code units -/

/-- The code units of a code point. -/
def unitsOf (c : Char) : List ℕ :=
  if c.toNat < 0x10000 then [c.toNat]
  else [0xD800 + (c.toNat - 0x10000) / 0x400, 0xDC00 + (c.toNat - 0x10000) % 0x400]

/-- The code units of a text: what `length` counts and `charCodeAt` returns. -/
def codeUnits (s : List Char) : List ℕ :=
  s.flatMap unitsOf

/-- A code point below the surrogates is its only unit. -/
theorem unitsOf_of_lt {c : Char} (h : c.toNat < 0x10000) : unitsOf c = [c.toNat] :=
  if_pos h

/-- The units of code points below the surrogates. -/
theorem codeUnits_of_lt {s : List Char} (h : ∀ c ∈ s, c.toNat < 0x10000) :
    codeUnits s = s.map Char.toNat := by
  induction s with
  | nil => rfl
  | cons c s ih =>
      have hrest : codeUnits s = s.map Char.toNat := ih fun d hd => h d (List.mem_cons_of_mem c hd)
      rw [codeUnits, List.flatMap_cons, unitsOf_of_lt (h c List.mem_cons_self), List.map_cons]
      exact congrArg _ hrest

/-- Small units are code points of their own. -/
theorem lt_of_codeUnits_lt {s : List Char} (h : ∀ u ∈ codeUnits s, u < 256) {c : Char}
    (hc : c ∈ s) : c.toNat < 256 := by
  by_contra hcon
  by_cases hlt : c.toNat < 0x10000
  · refine hcon (h _ (List.mem_flatMap.mpr ⟨c, hc, ?_⟩))
    rw [unitsOf_of_lt hlt]
    exact List.mem_singleton.mpr rfl
  · have hhigh : 0xD800 + (c.toNat - 0x10000) / 0x400 ∈ codeUnits s := by
      refine List.mem_flatMap.mpr ⟨c, hc, ?_⟩
      rw [unitsOf, if_neg hlt]
      exact List.mem_cons_self
    have hsmall := h _ hhigh
    omega

end Ecma
