import AwgProxy.Validate

/-!
# base64 on the Page

`btoa` as the browser has it, and the letters a share link uses in place of those a URL gives
another meaning: `-` and `_` for `+` and `/`, and no `=` at the end. The page puts the letters
and the padding back before it decodes (`fromUrlSafe`).

* `atob_btoa` — decoding undoes encoding.
* `fromUrlSafe_toUrlSafe` — a text of `btoa` survives the way through a URL.
-/

namespace AwgProxy

namespace Configurator

/-! ### Encoding -/

/-- The base64 character of a value. -/
def sextetChar (n : ℕ) : Char :=
  if n < 26 then Char.ofNat ('A'.toNat + n)
  else if n < 52 then Char.ofNat ('a'.toNat + (n - 26))
  else if n < 62 then Char.ofNat ('0'.toNat + (n - 52))
  else if n = 62 then '+'
  else '/'

/-- Bytes, three at a time; an incomplete group is filled with zero bits. -/
def splitSextets : Bytes → List ℕ
  | a :: b :: c :: s =>
      a.toNat / 4 :: (a.toNat % 4 * 16 + b.toNat / 16) :: (b.toNat % 16 * 4 + c.toNat / 64) ::
        c.toNat % 64 :: splitSextets s
  | [a, b] => [a.toNat / 4, a.toNat % 4 * 16 + b.toNat / 16, b.toNat % 16 * 4]
  | [a] => [a.toNat / 4, a.toNat % 4 * 16]
  | [] => []

/-- `=` up to a length that is a multiple of four. -/
def padTo4 (s : List Char) : List Char :=
  s ++ List.replicate ((4 - s.length % 4) % 4) '='

/-- `btoa`. -/
def btoa (b : Bytes) : List Char :=
  padTo4 ((splitSextets b).map sextetChar)

/-- The letter a URL has for a base64 character. -/
def urlChar (c : Char) : Char :=
  if c = '+' then '-' else if c = '/' then '_' else c

/-- The base64 character behind a letter of a URL. -/
def plainChar (c : Char) : Char :=
  if c = '-' then '+' else if c = '_' then '/' else c

/-- The letters of a URL, without the padding. -/
def toUrlSafe (s : List Char) : List Char :=
  (s.map urlChar).rdropWhile (· = '=')

/-- The base64 characters again, and the padding. -/
def fromUrlSafe (s : List Char) : List Char :=
  padTo4 (s.map plainChar)

/-! ### The characters -/

/-- What `btoa` writes for a group. -/
theorem sextetChar_spec : ∀ n < 64, sextet? (sextetChar n) = some n ∧ sextetChar n ≠ '=' ∧
    sextetChar n ≠ '\t' ∧ sextetChar n ≠ '\n' ∧ sextetChar n ≠ '\x0c' ∧ sextetChar n ≠ '\r' ∧
    sextetChar n ≠ ' ' := by
  decide

/-- What a URL has for it. -/
theorem urlChar_sextetChar : ∀ n < 64, plainChar (urlChar (sextetChar n)) = sextetChar n ∧
    urlChar (sextetChar n) ≠ '=' := by
  decide

/-- The values of the groups are values of characters. -/
theorem lt_of_mem_splitSextets {b : Bytes} {n : ℕ} (h : n ∈ splitSextets b) : n < 64 := by
  fun_induction splitSextets b with
  | case1 a b c s ih =>
      have ha := a.toNat_lt
      have hb := b.toNat_lt
      have hc := c.toNat_lt
      simp only [List.mem_cons] at h
      rcases h with rfl | rfl | rfl | rfl | h
      · omega
      · omega
      · omega
      · omega
      · exact ih h
  | case2 a b =>
      have ha := a.toNat_lt
      have hb := b.toNat_lt
      simp only [List.mem_cons, List.not_mem_nil, or_false] at h
      omega
  | case3 a =>
      have ha := a.toNat_lt
      simp only [List.mem_cons, List.not_mem_nil, or_false] at h
      omega
  | case4 => contradiction

/-- Groups of three bytes are put together again. -/
theorem joinSextets_splitSextets (b : Bytes) : joinSextets (splitSextets b) = b := by
  have hbyte : ∀ (x : UInt8) (n : ℕ), n % 256 = x.toNat → UInt8.ofNat n = x := fun x n h =>
    UInt8.toNat_inj.mp (UInt8.toNat_ofNat.trans h)
  fun_induction splitSextets b with
  | case1 a b c s ih =>
      have ha := a.toNat_lt
      have hb := b.toNat_lt
      have hc := c.toNat_lt
      rw [joinSextets, ih, hbyte a _ (by omega), hbyte b _ (by omega), hbyte c _ (by omega)]
  | case2 a b =>
      have ha := a.toNat_lt
      have hb := b.toNat_lt
      rw [joinSextets, hbyte a _ (by omega), hbyte b _ (by omega)]
  | case3 a =>
      have ha := a.toNat_lt
      rw [joinSextets, hbyte a _ (by omega)]
  | case4 => rfl

/-- No group leaves a single value. -/
theorem length_splitSextets_mod (b : Bytes) : (splitSextets b).length % 4 ≠ 1 := by
  fun_induction splitSextets b with
  | case1 a b c s ih =>
      simp only [List.length_cons]
      omega
  | case2 a b => exact nofun
  | case3 a => exact nofun
  | case4 => exact nofun

/-! ### Decoding -/

/-- The values of characters of values. -/
theorem mapM_sextet?_map {ns : List ℕ} (h : ∀ n ∈ ns, n < 64) :
    (ns.map sextetChar).mapM sextet? = some ns := by
  induction ns with
  | nil => rfl
  | cons n ns ih =>
      have hn := (sextetChar_spec n (h n List.mem_cons_self)).1
      rw [List.map_cons, List.mapM_cons, hn, ih fun m hm => h m (List.mem_cons_of_mem n hm)]
      rfl

/-- The padding is what is taken off again. -/
theorem stripPadding_padTo4 {s : List Char} (hs : s.getLast? ≠ some '=') (hlen : s.length % 4 ≠ 1) :
    stripPadding (padTo4 s) = s := by
  have hp : (4 - s.length % 4) % 4 = 0 ∨ (4 - s.length % 4) % 4 = 1 ∨
      (4 - s.length % 4) % 4 = 2 := by
    omega
  rw [padTo4]
  rcases hp with hp | hp | hp
  · rw [hp, List.replicate_zero, List.append_nil, stripPadding, if_neg hs]
  · rw [hp, List.replicate_one, stripPadding, List.getLast?_concat, if_pos rfl,
      List.dropLast_concat, if_neg hs]
  · have htwo : s ++ List.replicate 2 '=' = s ++ ['='] ++ ['='] := by
      rw [List.append_assoc]
      rfl
    rw [hp, htwo, stripPadding, List.getLast?_concat, if_pos rfl, List.dropLast_concat,
      List.getLast?_concat, if_pos rfl, List.dropLast_concat]

/-- The padded length. -/
theorem length_padTo4_mod (s : List Char) : (padTo4 s).length % 4 = 0 := by
  rw [padTo4, List.length_append, List.length_replicate]
  omega

/-- What `btoa` writes in front of the padding. -/
theorem exists_sextetChar {b : Bytes} {c : Char} (hc : c ∈ (splitSextets b).map sextetChar) :
    ∃ n < 64, sextetChar n = c := by
  obtain ⟨n, hn, rfl⟩ := List.mem_map.mp hc
  exact ⟨n, lt_of_mem_splitSextets hn, rfl⟩

/-- It does not end with a `=`. -/
theorem getLast?_sextetChar (b : Bytes) :
    ((splitSextets b).map sextetChar).getLast? ≠ some '=' := by
  intro h
  obtain ⟨n, hn, hc⟩ := exists_sextetChar (List.mem_of_mem_getLast? h)
  exact (sextetChar_spec n hn).2.1 hc

/-- **Decoding undoes encoding.** -/
theorem atob_btoa (b : Bytes) : atob? (btoa b) = some b := by
  have hkeep : (btoa b).filter
      (fun c => c ≠ '\t' ∧ c ≠ '\n' ∧ c ≠ '\x0c' ∧ c ≠ '\r' ∧ c ≠ ' ') = btoa b := by
    refine List.filter_eq_self.mpr fun c hc => decide_eq_true ?_
    rcases List.mem_append.mp hc with hc | hc
    · obtain ⟨n, hn, rfl⟩ := exists_sextetChar hc
      exact (sextetChar_spec n hn).2.2
    · rw [List.eq_of_mem_replicate hc]
      decide
  have hmod : ((splitSextets b).map sextetChar).length % 4 ≠ 1 := by
    rw [List.length_map]
    exact length_splitSextets_mod b
  have hlen : (btoa b).length % 4 = 0 := length_padTo4_mod _
  rw [atob?, hkeep, if_pos hlen, btoa, stripPadding_padTo4 (getLast?_sextetChar b) hmod,
    if_neg hmod, mapM_sextet?_map fun n hn => lt_of_mem_splitSextets hn, Option.map_some,
    joinSextets_splitSextets]

/-- Padding is dropped from the end. -/
theorem rdropWhile_padding {s : List Char} (h : ∀ c ∈ s, c ≠ '=') (k : ℕ) :
    (s ++ List.replicate k '=').rdropWhile (· = '=') = s := by
  induction k with
  | zero =>
      rw [List.replicate_zero, List.append_nil, List.rdropWhile_eq_self_iff]
      exact fun hne hlast => h _ (List.getLast_mem hne) (of_decide_eq_true hlast)
  | succ k ih =>
      rw [List.replicate_succ', ← List.append_assoc, List.rdropWhile_concat_pos _ _ _ rfl, ih]

/-- **A text of `btoa` survives the way through a URL.** -/
theorem fromUrlSafe_toUrlSafe (b : Bytes) : fromUrlSafe (toUrlSafe (btoa b)) = btoa b := by
  have hswap : ∀ c ∈ (splitSextets b).map sextetChar, plainChar (urlChar c) = c := by
    intro c hc
    obtain ⟨n, hn, rfl⟩ := exists_sextetChar hc
    exact (urlChar_sextetChar n hn).1
  have hlast : ∀ c ∈ ((splitSextets b).map sextetChar).map urlChar, c ≠ '=' := by
    intro c hc
    obtain ⟨d, hd, rfl⟩ := List.mem_map.mp hc
    obtain ⟨n, hn, rfl⟩ := exists_sextetChar hd
    exact (urlChar_sextetChar n hn).2
  have hpad : ∀ k, (List.replicate k '=').map urlChar = List.replicate k '=' := fun k => by
    rw [List.map_replicate]
    rfl
  have hurl : toUrlSafe (btoa b) = ((splitSextets b).map sextetChar).map urlChar := by
    rw [toUrlSafe, btoa, padTo4, List.map_append, hpad, rdropWhile_padding hlast]
  have hback : (((splitSextets b).map sextetChar).map urlChar).map plainChar =
      (splitSextets b).map sextetChar := by
    rw [List.map_map]
    exact (List.map_congr_left hswap).trans (List.map_id _)
  rw [hurl, fromUrlSafe, hback, btoa]

end Configurator

end AwgProxy
