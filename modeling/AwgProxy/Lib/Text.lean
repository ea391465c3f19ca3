import Mathlib.Data.List.DropRight
import Mathlib.Data.List.TakeWhile
import Mathlib.Tactic.Ring

/-!
# Cutting Text

A text as the list of its characters: the cuts at the first and at the last occurrence of
a separator, trimming, the value of decimal digits, and the part of a text that a C string
holds. `List.splitOn` is the cut at every separator.

* `splitFirst?_eq_some_iff`, `splitLast?_eq_some_iff` — a cut, from both sides.
* `exists_eq_trim`, `trim_append` — what trimming takes away, and that nothing else
  matters.
* `trim_eq_self_iff` — a text no trimming changes.
* `length_splitOn`, `notMem_of_mem_splitOn` — the number of pieces, and what is in none of them.
* `decimal_digitsVal`, `digitsVal_decimal` — numbers and the digits they are written in.
-/

namespace Text

section Cuts

variable {α : Type*} [DecidableEq α] {c : α} {s a b : List α}

/-- What stands before the first `c` and what stands behind it. -/
def splitFirst? (c : α) : List α → Option (List α × List α)
  | [] => none
  | d :: s => if d = c then some ([], s) else (splitFirst? c s).map fun p => (d :: p.1, p.2)

/-- What stands before the last `c` and what stands behind it. -/
def splitLast? (c : α) : List α → Option (List α × List α)
  | [] => none
  | d :: s =>
      match splitLast? c s with
      | some (a, b) => some (d :: a, b)
      | none => if d = c then some ([], s) else none

theorem splitFirst?_eq_none_iff : splitFirst? c s = none ↔ c ∉ s := by
  induction s with
  | nil => simp [splitFirst?]
  | cons d s ih =>
      by_cases hd : d = c
      · simp [splitFirst?, hd]
      · simp [splitFirst?, hd, ih, Ne.symm hd]

theorem splitLast?_eq_none_iff : splitLast? c s = none ↔ c ∉ s := by
  induction s with
  | nil => simp [splitLast?]
  | cons d s ih =>
      simp only [splitLast?]
      cases hs : splitLast? c s with
      | some p => simp [← ih, hs]
      | none =>
          have hmem : c ∉ s := ih.mp hs
          by_cases hd : d = c
          · simp [hd]
          · simp [hd, hmem, Ne.symm hd]

theorem splitFirst?_append (ha : c ∉ a) : splitFirst? c (a ++ c :: b) = some (a, b) := by
  induction a with
  | nil => simp [splitFirst?]
  | cons d a ih =>
      simp only [List.mem_cons, not_or] at ha
      simp [splitFirst?, Ne.symm ha.1, ih ha.2]

theorem splitLast?_append (hb : c ∉ b) : splitLast? c (a ++ c :: b) = some (a, b) := by
  induction a with
  | nil => simp [splitLast?, splitLast?_eq_none_iff.mpr hb]
  | cons d a ih => simp [splitLast?, ih]

/-- The cut at the first separator. -/
theorem splitFirst?_eq_some_iff :
    splitFirst? c s = some (a, b) ↔ s = a ++ c :: b ∧ c ∉ a := by
  refine ⟨fun h => ?_, fun h => by rw [h.1, splitFirst?_append h.2]⟩
  have hmem : c ∈ s := by
    by_contra hc
    rw [splitFirst?_eq_none_iff.mpr hc] at h
    cases h
  obtain ⟨a', b', hs, ha'⟩ := List.eq_append_cons_of_mem hmem
  rw [hs, splitFirst?_append ha'] at h
  cases h
  exact ⟨hs, ha'⟩

/-- The cut at the last separator. -/
theorem splitLast?_eq_some_iff :
    splitLast? c s = some (a, b) ↔ s = a ++ c :: b ∧ c ∉ b := by
  refine ⟨fun h => ?_, fun h => by rw [h.1, splitLast?_append h.2]⟩
  have hmem : c ∈ s.reverse := by
    by_contra hc
    rw [splitLast?_eq_none_iff.mpr (by simpa using hc)] at h
    cases h
  obtain ⟨b', a', hs, hb'⟩ := List.eq_append_cons_of_mem hmem
  have hs' : s = a'.reverse ++ c :: b'.reverse := by
    rw [← List.reverse_reverse s, hs]
    simp
  rw [hs', splitLast?_append (by simpa using hb')] at h
  cases h
  exact ⟨hs', by simpa using hb'⟩

/-- There is one first separator, and one last. -/
theorem append_cons_inj {a' b' : List α} (ha : c ∉ a) (ha' : c ∉ a')
    (h : a ++ c :: b = a' ++ c :: b') : a = a' ∧ b = b' := by
  have hcut := splitFirst?_append (b := b) ha
  rw [h, splitFirst?_append ha', Option.some.injEq, Prod.mk.injEq] at hcut
  exact ⟨hcut.1.symm, hcut.2.symm⟩

theorem append_cons_inj_last {a' b' : List α} (hb : c ∉ b) (hb' : c ∉ b')
    (h : a ++ c :: b = a' ++ c :: b') : a = a' ∧ b = b' := by
  have hcut := splitLast?_append (a := a) hb
  rw [h, splitLast?_append hb', Option.some.injEq, Prod.mk.injEq] at hcut
  exact ⟨hcut.1.symm, hcut.2.symm⟩

/-- A separator more is a piece more. -/
theorem length_splitOn : (s.splitOn c).length = s.count c + 1 := by
  induction s with
  | nil => simp
  | cons d s ih =>
      rw [List.splitOn_cons_eq_if_modifyHead]
      by_cases hd : d = c
      · simp [hd, ih]
      · simp [hd, ih]

/-- No piece has a separator. -/
theorem notMem_of_mem_splitOn : ∀ t ∈ s.splitOn c, c ∉ t := by
  induction s with
  | nil => simp
  | cons d s ih =>
      rw [List.splitOn_cons_eq_if_modifyHead]
      obtain ⟨t, ts, hts⟩ := List.exists_cons_of_ne_nil (List.splitOn_ne_nil c s)
      rw [hts] at ih ⊢
      by_cases hd : d = c
      · simpa [hd] using ih
      · obtain ⟨ht, hts⟩ := List.forall_mem_cons.mp ih
        simpa [hd, ht, Ne.symm hd] using hts

/-- A text is short when its pieces are. -/
theorem length_le_of_splitOn {k m : ℕ} (hk : (s.splitOn c).length ≤ k)
    (hm : ∀ p ∈ s.splitOn c, p.length ≤ m) : s.length ≤ k * (m + 1) := by
  have hpieces : ∀ ps : List (List α), (∀ p ∈ ps, p.length ≤ m) →
      ([c].intercalate ps).length ≤ ps.length * (m + 1) := by
    intro ps hps
    induction ps with
    | nil => exact Nat.zero_le _
    | cons p ps ih =>
        have hp := hps p List.mem_cons_self
        have hrest := ih fun q hq => hps q (List.mem_cons_of_mem p hq)
        rw [List.length_cons, Nat.succ_mul]
        cases ps with
        | nil =>
            rw [List.intercalate_singleton]
            omega
        | cons q ps =>
            rw [List.intercalate_cons_cons, List.length_append, List.length_append,
              List.length_singleton]
            omega
  calc s.length = ([c].intercalate (s.splitOn c)).length := by rw [List.intercalate_splitOn]
    _ ≤ (s.splitOn c).length * (m + 1) := hpieces _ hm
    _ ≤ k * (m + 1) := Nat.mul_le_mul_right _ hk

/-- A character of a text is a separator or one of a piece. -/
theorem mem_splitOn {x : α} (hx : x ∈ s) : x = c ∨ ∃ p ∈ s.splitOn c, x ∈ p := by
  have hpieces : ∀ ps : List (List α), x ∈ [c].intercalate ps → x = c ∨ ∃ p ∈ ps, x ∈ p := by
    intro ps hps
    induction ps with
    | nil => contradiction
    | cons p ps ih =>
        cases ps with
        | nil =>
            rw [List.intercalate_singleton] at hps
            exact Or.inr ⟨p, List.mem_cons_self, hps⟩
        | cons q ps =>
            rw [List.intercalate_cons_cons, List.mem_append, List.mem_append,
              List.mem_singleton] at hps
            rcases hps with (hp | rfl) | hrest
            · exact Or.inr ⟨p, List.mem_cons_self, hp⟩
            · exact Or.inl rfl
            · exact (ih hrest).imp_right fun ⟨r, hr, hxr⟩ => ⟨r, List.mem_cons_of_mem p hr, hxr⟩
  refine hpieces _ ?_
  rw [List.intercalate_splitOn]
  exact hx

end Cuts

section Trim

variable {α : Type*} {p : α → Bool} {s a b : List α}

/-- The text without what satisfies `p` on either side. -/
def trim (p : α → Bool) (s : List α) : List α :=
  (s.dropWhile p).rdropWhile p

theorem rdropWhile_append_cons {c : α} (hc : p c = false) :
    (a ++ c :: b).rdropWhile p = a ++ c :: b.rdropWhile p := by
  induction b using List.reverseRecOn with
  | nil =>
      rw [List.rdropWhile_concat_neg p a c (by simp [hc]), List.rdropWhile_nil]
  | append_singleton b d ih =>
      by_cases hd : p d = true
      · rw [← List.cons_append, ← List.append_assoc, List.rdropWhile_concat_pos p _ d hd, ih,
          List.rdropWhile_concat_pos p b d hd]
      · rw [← List.cons_append, ← List.append_assoc, List.rdropWhile_concat_neg p _ d hd,
          List.rdropWhile_concat_neg p b d hd]
        simp

/-- What is trimmed away satisfies `p`. -/
theorem exists_eq_trim (p : α → Bool) (s : List α) :
    ∃ a b, (∀ x ∈ a, p x) ∧ (∀ x ∈ b, p x) ∧ s = a ++ (trim p s ++ b) := by
  refine ⟨s.takeWhile p, (s.dropWhile p).rtakeWhile p, fun x hx => List.mem_takeWhile_imp hx,
    fun x hx => List.mem_rtakeWhile_imp hx, ?_⟩
  rw [trim, List.rdropWhile_append_rtakeWhile, List.takeWhile_append_dropWhile]

theorem mem_of_mem_trim {x : α} (h : x ∈ trim p s) : x ∈ s := by
  obtain ⟨a, b, -, -, hs⟩ := exists_eq_trim p s
  rw [hs]
  simp [h]

/-- Nothing that would be trimmed stands at either end. -/
theorem trim_eq_self_iff :
    trim p s = s ↔ (∀ x ∈ s.head?, p x = false) ∧ ∀ x ∈ s.getLast?, p x = false := by
  cases s with
  | nil => simp [trim]
  | cons d s =>
      constructor
      · intro h
        have hhead : p d = false := by
          by_contra hd
          rw [Bool.not_eq_false] at hd
          have hlen := congrArg List.length h
          have hle := (List.rdropWhile_prefix p (l := (d :: s).dropWhile p)).length_le
          have hle' := (List.dropWhile_sublist (l := s) p).length_le
          rw [trim, List.dropWhile_cons_of_pos hd] at hlen
          rw [List.dropWhile_cons_of_pos hd] at hle
          simp only [List.length_cons] at hlen
          omega
        refine ⟨by simpa using hhead, ?_⟩
        rw [trim, List.dropWhile_cons_of_neg (by simp [hhead]), List.rdropWhile_eq_self_iff] at h
        intro x hx
        rw [List.getLast?_eq_getLast_of_ne_nil (List.cons_ne_nil d s)] at hx
        simpa [← Option.mem_some.mp hx] using h (List.cons_ne_nil d s)
      · rintro ⟨hhead, hlast⟩
        have hd : p d = false := by simpa using hhead
        rw [trim, List.dropWhile_cons_of_neg (by simp [hd]), List.rdropWhile_eq_self_iff]
        intro hl
        simp [hlast _ (List.getLast?_eq_getLast_of_ne_nil hl)]

/-- What surrounds a text and would be trimmed does not matter. -/
theorem trim_append (ha : ∀ x ∈ a, p x) (hb : ∀ x ∈ b, p x) :
    trim p (a ++ (s ++ b)) = trim p s := by
  rw [trim, List.dropWhile_append_of_pos ha]
  by_cases hs : ∀ x ∈ s, p x
  · have hleft : (s ++ b).dropWhile p = [] := by
      rw [List.dropWhile_eq_nil_iff]
      intro x hx
      rcases List.mem_append.mp hx with hx | hx
      · exact hs x hx
      · exact hb x hx
    have hright : s.dropWhile p = [] := List.dropWhile_eq_nil_iff.mpr hs
    rw [hleft, trim, hright]
  · have hne : (s.dropWhile p).isEmpty = false := by
      simpa [List.dropWhile_eq_nil_iff] using hs
    rw [List.dropWhile_append, hne, if_neg (by simp), trim]
    clear hne hs ha
    generalize s.dropWhile p = t
    induction b using List.reverseRecOn with
    | nil => simp
    | append_singleton b d ih =>
        rw [← List.append_assoc, List.rdropWhile_concat_pos p _ d (hb d (by simp))]
        exact ih fun x hx => hb x (by simp [hx])

theorem trim_trim (p : α → Bool) (s : List α) : trim p (trim p s) = trim p s := by
  obtain ⟨a, b, ha, hb, hs⟩ := exists_eq_trim p s
  have h := trim_append (s := trim p s) ha hb
  rw [← hs] at h
  exact h.symm

/-- A text with an end of its own on the left keeps what stands before the last character
that is not trimmed. -/
theorem trim_append_cons {c d : α} (hd : p d = false) (hc : p c = false) :
    trim p (d :: a ++ c :: b) = d :: a ++ c :: b.rdropWhile p := by
  rw [trim, List.cons_append, List.dropWhile_cons_of_neg (by simp [hd]), ← List.cons_append,
    rdropWhile_append_cons hc]

end Trim

section Digits

/-- Nothing but decimal digits. -/
def allDigits (s : List Char) : Bool :=
  s.all Char.isDigit

@[simp] theorem allDigits_iff {s : List Char} :
    allDigits s = true ↔ ∀ c ∈ s, c.isDigit = true := by
  simp [allDigits]

/-- The value of decimal digits. -/
def digitsVal (s : List Char) : ℕ :=
  Nat.ofDigitChars 10 s 0

/-- More digits make no smaller number. -/
theorem le_ofDigitChars (ds : List Char) (v : ℕ) : v ≤ Nat.ofDigitChars 10 ds v := by
  rw [Nat.ofDigitChars_eq_ofDigitChars_zero]
  calc v ≤ 10 ^ ds.length * v := Nat.le_mul_of_pos_left v (Nat.pow_pos (by omega))
    _ ≤ 10 ^ ds.length * v + Nat.ofDigitChars 10 ds 0 := Nat.le_add_right _ _

/-- A text is the digits it starts with and the rest. -/
theorem takeWhile_digits {ds r : List Char} (hds : ∀ c ∈ ds, c.isDigit = true)
    (hr : ∀ c ∈ r.head?, c.isDigit = false) : (ds ++ r).takeWhile Char.isDigit = ds := by
  rw [List.takeWhile_append_of_pos hds]
  cases r with
  | nil => simp
  | cons c r => simp [hr c (by simp)]

theorem dropWhile_digits {ds r : List Char} (hds : ∀ c ∈ ds, c.isDigit = true)
    (hr : ∀ c ∈ r.head?, c.isDigit = false) : (ds ++ r).dropWhile Char.isDigit = r := by
  rw [List.dropWhile_append_of_pos hds]
  cases r with
  | nil => simp
  | cons c r => simp [hr c (by simp)]

/-- Behind the digits a text starts with stands no digit. -/
theorem head?_dropWhile_digits (s : List Char) :
    ∀ c ∈ (s.dropWhile Char.isDigit).head?, c.isDigit = false := by
  intro c hc
  have h := List.head?_dropWhile_not Char.isDigit s
  rw [Option.mem_def.mp hc] at h
  simpa using h

/-- A text is the digits it starts with and a rest that starts with none. -/
theorem exists_eq_digits_append (s : List Char) :
    ∃ ds r, s = ds ++ r ∧ (∀ c ∈ ds, c.isDigit = true) ∧ ∀ c ∈ r.head?, c.isDigit = false :=
  ⟨_, _, List.takeWhile_append_dropWhile.symm, fun _ h => List.mem_takeWhile_imp h,
    head?_dropWhile_digits s⟩

/-- Digits bound their value. -/
theorem digitsVal_lt {ds : List Char} (hds : ∀ c ∈ ds, c.isDigit = true) :
    digitsVal ds < 10 ^ ds.length := by
  induction ds with
  | nil => simp [digitsVal]
  | cons d ds ih =>
      have hd : 48 ≤ d.toNat ∧ d.toNat ≤ 57 := Char.isDigit_iff_toNat.mp (hds d (by simp))
      have htail : digitsVal ds < 10 ^ ds.length := ih fun c hc => hds c (by simp [hc])
      have hzero : '0'.toNat = 48 := rfl
      have hmul : 10 ^ ds.length * (d.toNat - 48) ≤ 10 ^ ds.length * 9 :=
        Nat.mul_le_mul_left _ (by omega)
      rw [digitsVal] at htail ⊢
      rw [Nat.ofDigitChars_cons, Nat.ofDigitChars_eq_ofDigitChars_zero, hzero, List.length_cons,
        Nat.pow_succ]
      simp only [Nat.mul_zero, Nat.zero_add]
      omega

/-- A number in decimal digits. -/
def decimal (n : ℕ) : List Char :=
  Nat.toDigits 10 n

@[simp] theorem digitsVal_decimal (n : ℕ) : digitsVal (decimal n) = n :=
  Nat.ofDigitChars_ten_toDigits

theorem decimal_ne_nil (n : ℕ) : decimal n ≠ [] :=
  Nat.toDigits_ne_nil

theorem isDigit_of_mem_decimal {n : ℕ} : ∀ c ∈ decimal n, c.isDigit = true :=
  fun _ hc => Nat.isDigit_of_mem_toDigits (by omega) (by omega) hc

/-- Two numbers of the same digits are the same. -/
theorem decimal_inj {m n : ℕ} : decimal m = decimal n ↔ m = n :=
  ⟨fun h => by rw [← digitsVal_decimal m, h, digitsVal_decimal], fun h => by rw [h]⟩

/-- Only the zero starts with a zero. -/
def NoLeadingZero (ds : List Char) : Prop :=
  ds.head? = some '0' → ds.length = 1

instance (ds : List Char) : Decidable (NoLeadingZero ds) :=
  inferInstanceAs (Decidable (_ → _))

/-- A positive number does not start with a zero. -/
theorem head?_decimal_ne {n : ℕ} (hn : 0 < n) : (decimal n).head? ≠ some '0' := by
  induction n using Nat.strong_induction_on with
  | _ n ih =>
      rw [decimal, Nat.toDigits_eq_if (by omega)]
      split
      · rename_i hlt
        have hchar : ∀ m < 10, 0 < m → [Nat.digitChar m].head? ≠ some '0' := by decide
        exact hchar n hlt hn
      · rename_i hge
        rw [List.head?_append_of_ne_nil _ Nat.toDigits_ne_nil]
        exact ih (n / 10) (by omega) (by omega)

theorem noLeadingZero_decimal (n : ℕ) : NoLeadingZero (decimal n) := by
  intro h
  rcases Nat.eq_zero_or_pos n with rfl | hn
  · rfl
  · exact absurd h (head?_decimal_ne hn)

/-- A digit is the digit of its value. -/
theorem decimal_of_isDigit {c : Char} (hc : c.isDigit = true) :
    decimal (c.toNat - '0'.toNat) = [c] := by
  have hbounds : 48 ≤ c.toNat ∧ c.toNat ≤ 57 := Char.isDigit_iff_toNat.mp hc
  have hzero : '0'.toNat = 48 := rfl
  have hchar : ∀ m < 10, Nat.digitChar m = Char.ofNat (48 + m) := by decide
  rw [hzero, decimal, Nat.toDigits_of_lt_base (by omega), hchar _ (by omega),
    Nat.add_sub_cancel' hbounds.1, Char.ofNat_toNat]

/-- Digits without a leading zero are the digits of their value. -/
theorem decimal_digitsVal {ds : List Char} (hne : ds ≠ []) (hds : ∀ c ∈ ds, c.isDigit = true)
    (hz : NoLeadingZero ds) : decimal (digitsVal ds) = ds := by
  induction ds using List.reverseRecOn with
  | nil => exact absurd rfl hne
  | append_singleton l d ih =>
      have hd := decimal_of_isDigit (hds d (List.mem_append_right l (List.mem_singleton.mpr rfl)))
      by_cases hl : l = []
      · subst hl
        rw [List.nil_append, digitsVal, Nat.ofDigitChars_cons, Nat.mul_zero, Nat.zero_add,
          Nat.ofDigitChars_nil, hd]
      · have hhead : l.head? ≠ some '0' := by
          intro h
          have hlen := hz (by rw [List.head?_append_of_ne_nil _ hl, h])
          rw [List.length_append, List.length_singleton, Nat.add_eq_right] at hlen
          exact hl (List.eq_nil_of_length_eq_zero hlen)
        have hl' := ih hl (fun c hc => hds c (List.mem_append_left _ hc)) fun h => absurd h hhead
        -- in front of the last digit stands no zero
        have hpos : 0 < digitsVal l := by
          refine Nat.pos_of_ne_zero fun h0 => hhead ?_
          rw [← hl', h0]
          rfl
        have hdigit : d.toNat - '0'.toNat < 10 := by
          have hbounds : 48 ≤ d.toNat ∧ d.toNat ≤ 57 := Char.isDigit_iff_toNat.mp
            (hds d (List.mem_append_right l (List.mem_singleton.mpr rfl)))
          have hzero : '0'.toNat = 48 := rfl
          omega
        have hval : digitsVal (l ++ [d]) = 10 * digitsVal l + (d.toNat - '0'.toNat) := by
          rw [digitsVal, Nat.ofDigitChars_append, Nat.ofDigitChars_cons, Nat.ofDigitChars_nil]
          rfl
        rw [hval, decimal, ← Nat.toDigits_append_toDigits (by omega) hpos hdigit]
        exact congrArg₂ _ hl' hd

end Digits

/-- Lower case, by code points. -/
theorem toNat_toLower (c : Char) :
    c.toLower.toNat = if 65 ≤ c.toNat ∧ c.toNat ≤ 90 then c.toNat + 32 else c.toNat := by
  have hbounds : ('A'.val ≤ c.val ∧ c.val ≤ 'Z'.val) ↔ 65 ≤ c.toNat ∧ c.toNat ≤ 90 := by
    simp only [UInt32.le_iff_toNat_le]
    exact Iff.rfl
  unfold Char.toLower
  split
  next h =>
    rw [if_pos (hbounds.mp h)]
    have hle := (hbounds.mp h).2
    change (c.val + 32).toNat = c.val.toNat + 32
    change c.val.toNat ≤ 90 at hle
    rw [UInt32.toNat_add]
    have h32 : (32 : UInt32).toNat = 32 := rfl
    exact Nat.mod_eq_of_lt (by omega)
  next h => rw [if_neg fun hc => h (hbounds.mpr hc)]

section CStrings

/-- A C string: what stands before the first NUL. -/
def cString (s : List Char) : List Char :=
  s.takeWhile (· ≠ '\x00')

theorem cString_eq_self {s : List Char} (h : '\x00' ∉ s) : cString s = s := by
  rw [cString, List.takeWhile_eq_self_iff]
  intro c hc
  simpa using fun heq : c = '\x00' => h (heq ▸ hc)

theorem nul_notMem_cString (s : List Char) : '\x00' ∉ cString s := by
  intro h
  simpa using List.mem_takeWhile_imp h

theorem cString_append {a b : List Char} (h : '\x00' ∉ a) :
    cString (a ++ b) = a ++ cString b := by
  rw [cString, List.takeWhile_append_of_pos]
  · rfl
  · intro c hc
    simpa using fun heq : c = '\x00' => h (heq ▸ hc)

theorem mem_of_mem_cString {c : Char} {s : List Char} (h : c ∈ cString s) : c ∈ s :=
  (List.takeWhile_prefix _).subset h

/-- A text is its C string, and a NUL with the rest where there is one. -/
theorem eq_cString_or (s : List Char) : s = cString s ∨ ∃ r, s = cString s ++ '\x00' :: r := by
  by_cases h : '\x00' ∈ s
  · obtain ⟨a, b, rfl, ha⟩ := List.eq_append_cons_of_mem h
    refine Or.inr ⟨b, ?_⟩
    rw [cString_append ha]
    simp [cString]
  · exact Or.inl (cString_eq_self h).symm

/-- What stands behind a NUL is not read. -/
theorem cString_of_mem {a b : List Char} (ha : '\x00' ∈ a) : cString (a ++ b) = cString a := by
  obtain ⟨u, v, rfl, hu⟩ := List.eq_append_cons_of_mem ha
  rw [List.append_assoc, cString_append hu, cString_append hu]
  simp [cString]

end CStrings

end Text
