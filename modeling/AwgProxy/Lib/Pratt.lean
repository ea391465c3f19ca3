import Mathlib.Data.List.Prime
import Mathlib.Data.Nat.Size
import Mathlib.NumberTheory.LucasPrimality

/-!
# Powers to a Modulus, and Large Primes

Square and multiply as the loop that it is (`powLoop`), with what it computes
(`powLoop_modEq`), and the primality of a number from the powers of one of its residues
(`prime_of_certifies`): a check that can be computed, given the primes that the predecessor of
the number is the product of. A chain of certificates that goes down to two needs nothing more
(`prime_of_certifiesAll`).
-/

/-- The loop of square and multiply: `r · b ^ e` to the modulus `m`, for an exponent of no more
than so many bits. -/
def powLoop (m : ℕ) : ℕ → ℕ → ℕ → ℕ → ℕ
  | 0, r, _, _ => r
  | fuel + 1, r, b, e =>
      if e = 0 then r
      else powLoop m fuel (if e % 2 = 1 then r * b % m else r) (b * b % m) (e / 2)

/-- The loop has time for every bit of the exponent. -/
theorem powLoop_modEq (m : ℕ) {fuel e : ℕ} (r b : ℕ) (he : e < 2 ^ fuel) :
    powLoop m fuel r b e ≡ r * b ^ e [MOD m] := by
  induction fuel generalizing r b e with
  | zero =>
      obtain rfl : e = 0 := by omega
      rw [powLoop, pow_zero, mul_one]
  | succ fuel ih =>
      rw [powLoop]
      split_ifs with hzero hodd
      · rw [hzero, pow_zero, mul_one]
      · have hsplit : r * b ^ e = r * b * (b * b) ^ (e / 2) := by
          conv_lhs => rw [← Nat.div_add_mod e 2, hodd, pow_succ, pow_mul, sq]
          ring
        rw [hsplit]
        refine (ih _ _ (by omega)).trans ?_
        exact (Nat.mod_modEq _ m).mul ((Nat.mod_modEq _ m).pow _)
      · have hsplit : r * b ^ e = r * (b * b) ^ (e / 2) := by
          conv_lhs => rw [← Nat.div_add_mod e 2, Nat.mod_two_ne_one.mp hodd, add_zero, pow_mul, sq]
        rw [hsplit]
        refine (ih _ _ (by omega)).trans ?_
        exact (Nat.ModEq.refl r).mul ((Nat.mod_modEq _ m).pow _)

/-- A residue stays one. -/
theorem powLoop_lt {m : ℕ} (fuel : ℕ) {r : ℕ} (b e : ℕ) (hr : r < m) :
    powLoop m fuel r b e < m := by
  induction fuel generalizing r b e with
  | zero => exact hr
  | succ fuel ih =>
      rw [powLoop]
      split_ifs
      · exact hr
      · exact ih _ _ (Nat.mod_lt _ (by omega))
      · exact ih _ _ hr

/-- `a ^ e` to the modulus `m`. -/
def powMod (m a e : ℕ) : ℕ := powLoop m e.size 1 a e

theorem powMod_eq {m : ℕ} (hm : 1 < m) (a e : ℕ) : powMod m a e = a ^ e % m := by
  have hmod := powLoop_modEq m 1 a (Nat.lt_size_self e)
  rw [one_mul] at hmod
  rw [← hmod, powMod, Nat.mod_eq_of_lt (powLoop_lt _ _ _ hm)]

/-- The numbers `qs` make up `p - 1`, and no power of `a` below that one is `1`. -/
def certifies (p a : ℕ) (qs : List ℕ) : Bool :=
  decide (1 < p) && qs.prod == p - 1 && powMod p a (p - 1) == 1 &&
    qs.all fun q => powMod p a ((p - 1) / q) != 1

/-- **A certified number is prime**, given that the numbers its predecessor comes from are. -/
theorem prime_of_certifies {p : ℕ} (a : ℕ) (qs : List ℕ) (h : certifies p a qs = true)
    (hqs : qs.Forall Nat.Prime) : p.Prime := by
  simp only [certifies, Bool.and_eq_true, decide_eq_true_eq, beq_iff_eq, List.all_eq_true,
    bne_iff_ne] at h
  obtain ⟨⟨⟨hp, hprod⟩, hone⟩, hne⟩ := h
  have hpow : ∀ e, (a : ZMod p) ^ e = 1 ↔ powMod p a e = 1 := by
    intro e
    rw [powMod_eq hp, ← Nat.cast_pow, ← Nat.cast_one, ZMod.natCast_eq_natCast_iff',
      Nat.mod_eq_of_lt hp]
  refine lucas_primality p a ((hpow _).mpr hone) fun q hq hdvd => ?_
  rw [← hprod] at hdvd
  obtain ⟨q', hq', hdvd'⟩ := (Prime.dvd_prod_iff hq.prime).mp hdvd
  obtain rfl :=
    (Nat.prime_dvd_prime_iff_eq hq (List.forall_iff_forall_mem.mp hqs q' hq')).mp hdvd'
  exact fun heq => hne q hq' ((hpow _).mp heq)

/-- Each number of the list, with its residue and the factors of its predecessor, is certified
by numbers that come after it. -/
def certifiesAll : List (ℕ × ℕ × List ℕ) → Bool
  | [] => true
  | (p, a, qs) :: cs => certifies p a qs && qs.all (cs.map Prod.fst).contains && certifiesAll cs

/-- **A certified chain is one of primes.** -/
theorem prime_of_certifiesAll {cs : List (ℕ × ℕ × List ℕ)} (h : certifiesAll cs = true) :
    (cs.map Prod.fst).Forall Nat.Prime := by
  induction cs with
  | nil => trivial
  | cons c cs ih =>
      obtain ⟨p, a, qs⟩ := c
      simp only [certifiesAll, Bool.and_eq_true, List.all_eq_true, List.contains_iff_mem] at h
      obtain ⟨⟨hp, hqs⟩, hcs⟩ := h
      have hprimes := ih hcs
      have hfactors : qs.Forall Nat.Prime :=
        List.forall_iff_forall_mem.mpr fun q hq =>
          List.forall_iff_forall_mem.mp hprimes q (hqs q hq)
      exact (List.forall_cons _ _ _).mpr ⟨prime_of_certifies a qs hp hfactors, hprimes⟩
