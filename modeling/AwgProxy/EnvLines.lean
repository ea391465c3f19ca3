import AwgProxy.Deployment
import AwgProxy.ProfileGen

/-!
# Parameters in an Environment

The configurator writes drawn parameters as the variables of a container: the first stage and the
stages behind it under the names `main` looks for. A number that is zero is not written, nor are
templates there are none of.

* `lookup_s2sObfEnvLines` — what is found of a stage is what was drawn of it, under its names and
  under no other stage's.
* `SetsStage.exists_stageWritten_iff` — it is read when it is a stage the proxy accepts.
-/

namespace AwgProxy

open Configurator Text

namespace Configurator

/-! ### The lines -/

/-- A number that is set unless it is zero. -/
def addNonzero (key : String) (v : ℕ) : List (String × List Char) :=
  if v = 0 then [] else [(key, decimal v)]

/-- The templates, numbered from one. -/
def addCps (pfx : String) (cps : Option (List (List Char))) : List (String × List Char) :=
  (cps.getD []).zipIdx.map fun c => (pfx ++ "I" ++ toString (c.2 + 1), c.1)

/-- The lines of a stage of the chain. -/
def fbEnvLines (pfx : String) (st : ObfLevel) : List (String × List Char) :=
  [(pfx ++ "S1", decimal st.s1), (pfx ++ "S2", decimal st.s2)] ++ addNonzero (pfx ++ "S3") st.s3 ++
    addNonzero (pfx ++ "S4") st.s4 ++ [(pfx ++ "H1", st.h1), (pfx ++ "H2", st.h2),
    (pfx ++ "H3", st.h3), (pfx ++ "H4", st.h4)] ++ addCps pfx st.cps

/-- `s2sObfEnvLines`: the variables and their values. -/
def s2sObfEnvLines (ap : AwgParams) : List (String × List Char) :=
  [("AWG_JC", decimal ap.jc), ("AWG_JMIN", decimal ap.jmin), ("AWG_JMAX", decimal ap.jmax),
    ("AWG_S1", decimal ap.s1), ("AWG_S2", decimal ap.s2)] ++ addNonzero "AWG_S3" ap.s3 ++
    addNonzero "AWG_S4" ap.s4 ++ [("AWG_H1", ap.h1), ("AWG_H2", ap.h2), ("AWG_H3", ap.h3),
    ("AWG_H4", ap.h4)] ++
    (if ap.hpKey = [] then [] else [("AWG_HEADER_PROTECTION_KEY", ap.hpKey)]) ++
    addCps "AWG_" ap.cps ++
    ap.chain.zipIdx.flatMap fun st =>
      fbEnvLines ("AWG_FB" ++ (if st.2 = 0 then "" else toString (st.2 + 1)) ++ "_") st.1

end Configurator

/-! ### Names -/

/-- The variables that are no stage's. -/
def plainVars : List String :=
  ["AWG_LISTEN", "AWG_REMOTE", "AWG_MODE", "AWG_DNS", "AWG_NO_DF", "AWG_JC", "AWG_JMIN", "AWG_JMAX",
    "AWG_HEADER_PROTECTION_KEY", "AWG_SERVER_PUB", "AWG_CLIENT_PUB", "AWG_DISABLE_COOKIES"]

/-- Names of different stages, or with different ends, differ. -/
theorem fbName_inj : ∀ j < awgMaxProfiles, ∀ k < awgMaxProfiles, ∀ s ∈ stageSuffixes,
    ∀ s' ∈ stageSuffixes, fbName j s = fbName k s' → j = k ∧ s = s' := by
  decide +kernel

/-- No stage has one of the other names. -/
theorem fbName_notMem_plainVars : ∀ k < awgMaxProfiles, ∀ s ∈ stageSuffixes,
    fbName k s ∉ plainVars := by
  decide +kernel

/-- The names of the lines of a chain are those the stages are read by. -/
theorem fbName_succ (i : ℕ) (s : String) :
    "AWG_FB" ++ (if i = 0 then "" else toString (i + 1)) ++ "_" ++ s = fbName (i + 1) s := by
  rw [fbName, if_neg (Nat.succ_ne_zero i)]
  rcases Nat.eq_zero_or_pos i with rfl | hi
  · rfl
  · rw [if_neg (by omega), if_pos (by omega)]

/-! ### What is set -/

/-- The variables of a stage, by the ends of their names. -/
def stageVars (o : ObfLevel) : List (String × List Char) :=
  fbEnvLines "" o

theorem addCps_map (pfx : String) (cps : Option (List (List Char))) :
    addCps pfx cps = (addCps "" cps).map fun v => (pfx ++ v.1, v.2) := by
  simp [addCps, Function.comp_def, String.append_assoc]

theorem addNonzero_map (pfx key : String) (v : ℕ) :
    addNonzero (pfx ++ key) v = (addNonzero key v).map fun v => (pfx ++ v.1, v.2) := by
  rw [addNonzero, addNonzero]
  split <;> rfl

theorem fbEnvLines_map (pfx : String) (o : ObfLevel) :
    fbEnvLines pfx o = (stageVars o).map fun v => (pfx ++ v.1, v.2) := by
  rw [stageVars, fbEnvLines, fbEnvLines, addCps_map pfx, addNonzero_map, addNonzero_map]
  simp

/-- A stage has a template for each of the ends it may have. -/
def FewTemplates (o : ObfLevel) : Prop :=
  (o.cps.getD []).length ≤ awgCpsCount

/-- The ends of the names of templates. -/
def templateSuffixes : List String := ["I1", "I2", "I3", "I4", "I5"]

theorem mem_of_mem_addCps {o : ObfLevel} (ho : FewTemplates o) :
    ∀ v ∈ addCps "" o.cps, v.1 ∈ templateSuffixes ∧ v.2 ∈ o.cps.getD [] := by
  have hnumber : ∀ i < awgCpsCount, "" ++ "I" ++ toString (i + 1) ∈ templateSuffixes := by
    decide +kernel
  intro v hv
  obtain ⟨c, hc, rfl⟩ := List.mem_map.mp hv
  obtain ⟨hlt, hget⟩ := List.mem_zipIdx' hc
  exact ⟨hnumber c.2 (lt_of_lt_of_le hlt ho), hget ▸ List.getElem_mem hlt⟩

theorem mem_stageSuffixes_of_mem_addNonzero {key : String} (hkey : key ∈ stageSuffixes) {n : ℕ} :
    ∀ v ∈ addNonzero key n, v.1 ∈ stageSuffixes := by
  intro v hv
  rw [addNonzero] at hv
  split at hv
  · cases hv
  · obtain rfl := List.mem_singleton.mp hv
    exact hkey

theorem mem_stageSuffixes_of_mem_stageVars {o : ObfLevel} (ho : FewTemplates o) :
    ∀ v ∈ stageVars o, v.1 ∈ stageSuffixes := by
  intro v hv
  rw [stageVars, fbEnvLines, List.mem_append, List.mem_append, List.mem_append, List.mem_append]
    at hv
  rcases hv with (((hv | hv) | hv) | hv) | hv
  · simp only [List.mem_cons, List.not_mem_nil, or_false] at hv
    rcases hv with rfl | rfl <;> simp [stageSuffixes]
  · exact mem_stageSuffixes_of_mem_addNonzero (by decide) v hv
  · exact mem_stageSuffixes_of_mem_addNonzero (by decide) v hv
  · simp only [List.mem_cons, List.not_mem_nil, or_false] at hv
    rcases hv with rfl | rfl | rfl | rfl <;> simp [stageSuffixes]
  · have hsub : templateSuffixes ⊆ stageSuffixes := by decide
    exact hsub (mem_of_mem_addCps ho v hv).1

/-- A stage is looked up by the ends of its names. -/
theorem lookup_fbName {vars : List (String × List Char)} (hvars : ∀ v ∈ vars, v.1 ∈ stageSuffixes)
    {j k : ℕ} (hj : j < awgMaxProfiles) (hk : k < awgMaxProfiles) {suffix : String}
    (hs : suffix ∈ stageSuffixes) :
    (vars.map fun v => (fbName j v.1, v.2)).lookup (fbName k suffix) =
      if k = j then vars.lookup suffix else none := by
  induction vars with
  | nil => split <;> rfl
  | cons v vars ih =>
      obtain ⟨hv, hvars⟩ := List.forall_mem_cons.mp hvars
      rw [List.map_cons, List.lookup_cons, List.lookup_cons, ih hvars]
      by_cases heq : k = j ∧ suffix = v.1
      · obtain ⟨rfl, rfl⟩ := heq
        simp
      · have hne : ¬ fbName k suffix = fbName j v.1 :=
          fun h => heq (fbName_inj k hk j hj suffix hs v.1 hv h)
        rw [beq_false_of_ne hne]
        by_cases hkj : k = j
        · rw [if_pos hkj, if_pos hkj, beq_false_of_ne fun h => heq ⟨hkj, h⟩]
        · rw [if_neg hkj, if_neg hkj]

/-- The stages behind the first are looked up one after the other. -/
theorem lookup_chain {chain : List ObfLevel} (hcps : ∀ o ∈ chain, FewTemplates o) {n k : ℕ}
    (hlen : n + chain.length < awgMaxProfiles) (hk : k < awgMaxProfiles) {suffix : String}
    (hs : suffix ∈ stageSuffixes) :
    ((chain.zipIdx n).flatMap fun st => fbEnvLines
        ("AWG_FB" ++ (if st.2 = 0 then "" else toString (st.2 + 1)) ++ "_") st.1).lookup
        (fbName k suffix) =
      if k ≤ n then none
      else (chain[k - (n + 1)]?).bind fun o => (stageVars o).lookup suffix := by
  induction chain generalizing n with
  | nil => split <;> rfl
  | cons st chain ih =>
      obtain ⟨hst, hcps⟩ := List.forall_mem_cons.mp hcps
      rw [List.length_cons] at hlen
      rw [List.zipIdx_cons, List.flatMap_cons, List.lookup_append, ih hcps (by omega),
        fbEnvLines_map]
      simp only [fbName_succ]
      rw [lookup_fbName (mem_stageSuffixes_of_mem_stageVars hst) (by omega) hk hs]
      rcases Nat.lt_trichotomy k (n + 1) with hlt | rfl | hgt
      · rw [if_neg (by omega), if_pos (by omega), if_pos (by omega), Option.none_or]
      · rw [if_pos rfl, if_pos le_rfl, if_neg (by omega), Option.or_none, Nat.sub_self]
        rfl
      · obtain ⟨i, rfl⟩ : ∃ i, k = n + 1 + 1 + i := ⟨k - (n + 1 + 1), by omega⟩
        rw [if_neg (by omega), if_neg (by omega), if_neg (by omega), Option.none_or,
          show n + 1 + 1 + i - (n + 1 + 1) = i by omega,
          show n + 1 + 1 + i - (n + 1) = i + 1 by omega, List.getElem?_cons_succ]

/-- Nothing is looked up under a name that is not set. -/
theorem lookup_eq_none_of_notMem {vars : List (String × List Char)} {name : String}
    (h : ∀ v ∈ vars, name ≠ v.1) : vars.lookup name = none :=
  List.lookup_eq_none_iff.mpr fun v hv => bne_iff_ne.mpr (h v hv)

/-- A stage has none of the other variables. -/
theorem lookup_plainVars {vars : List (String × List Char)}
    (hvars : ∀ v ∈ vars, v.1 ∈ stageSuffixes) {j : ℕ} (hj : j < awgMaxProfiles) {name : String}
    (hname : name ∈ plainVars) : (vars.map fun v => (fbName j v.1, v.2)).lookup name = none := by
  refine lookup_eq_none_of_notMem fun v hv heq => ?_
  obtain ⟨w, hw, rfl⟩ := List.mem_map.mp hv
  rw [heq] at hname
  exact fbName_notMem_plainVars j hj w.1 (hvars w hw) hname

/-- The lines, with those of the first stage around the header protection key. -/
theorem s2sObfEnvLines_eq (ap : AwgParams) : ∃ front templates,
    front ++ templates = (stageVars ap.toObfLevel).map (fun v => (fbName 0 v.1, v.2)) ∧
      s2sObfEnvLines ap =
        [("AWG_JC", decimal ap.jc), ("AWG_JMIN", decimal ap.jmin), ("AWG_JMAX", decimal ap.jmax)] ++
        (front ++ ((if ap.hpKey = [] then [] else [("AWG_HEADER_PROTECTION_KEY", ap.hpKey)]) ++
        (templates ++ ap.chain.zipIdx.flatMap fun st => fbEnvLines
          ("AWG_FB" ++ (if st.2 = 0 then "" else toString (st.2 + 1)) ++ "_") st.1))) := by
  refine ⟨[("AWG_S1", decimal ap.s1), ("AWG_S2", decimal ap.s2)] ++ addNonzero "AWG_S3" ap.s3 ++
    addNonzero "AWG_S4" ap.s4 ++ [("AWG_H1", ap.h1), ("AWG_H2", ap.h2), ("AWG_H3", ap.h3),
    ("AWG_H4", ap.h4)], addCps "AWG_" ap.cps, ?_, ?_⟩
  · exact fbEnvLines_map "AWG_" ap.toObfLevel
  · simp only [s2sObfEnvLines, List.append_assoc]
    rfl

/-- A chain there is room for, with templates there is room for. -/
structure Roomy (ap : AwgParams) : Prop where
  length : ap.chain.length < awgMaxProfiles
  templates : ∀ o ∈ ap.stages, FewTemplates o

section

variable {ap : AwgParams}

/-- **The stages are looked up** as they were drawn. -/
theorem lookup_s2sObfEnvLines (hroom : Roomy ap) {k : ℕ} (hk : k < awgMaxProfiles)
    {suffix : String} (hs : suffix ∈ stageSuffixes) :
    (s2sObfEnvLines ap).lookup (fbName k suffix) =
      (ap.stages[k]?).bind fun o => (stageVars o).lookup suffix := by
  obtain ⟨hfirst, hchain⟩ := List.forall_mem_cons.mp hroom.templates
  obtain ⟨front, templates, hstage, heq⟩ := s2sObfEnvLines_eq ap
  have hplain := fbName_notMem_plainVars k hk suffix hs
  have hjunk : ([("AWG_JC", decimal ap.jc), ("AWG_JMIN", decimal ap.jmin),
      ("AWG_JMAX", decimal ap.jmax)] : List (String × List Char)).lookup (fbName k suffix) =
      none := by
    refine lookup_eq_none_of_notMem fun v hv heq => hplain ?_
    rw [heq]
    simp only [List.mem_cons, List.not_mem_nil, or_false] at hv
    rcases hv with rfl | rfl | rfl <;> simp [plainVars]
  have hkey : (if ap.hpKey = [] then [] else
      [("AWG_HEADER_PROTECTION_KEY", ap.hpKey)]).lookup (fbName k suffix) = none := by
    refine lookup_eq_none_of_notMem fun v hv heq => hplain ?_
    rw [heq]
    split at hv
    · cases hv
    · obtain rfl := List.mem_singleton.mp hv
      simp [plainVars]
  have hone := lookup_fbName (mem_stageSuffixes_of_mem_stageVars hfirst) (by decide) hk hs
    (j := 0)
  rw [← hstage, List.lookup_append] at hone
  rw [heq, List.lookup_append, List.lookup_append, List.lookup_append, List.lookup_append, hjunk,
    hkey, Option.none_or, Option.none_or, ← Option.or_assoc, hone,
    lookup_chain hchain (by rw [Nat.zero_add]; exact hroom.length) hk hs]
  cases k with
  | zero => rw [if_pos rfl, if_pos le_rfl, Option.or_none]; rfl
  | succ k =>
      rw [if_neg (Nat.succ_ne_zero k), if_neg (by omega), Option.none_or]
      rfl

/-- The other variables are looked up past the stages. -/
theorem lookup_s2sObfEnvLines_plain (hroom : Roomy ap) {name : String}
    (hname : name ∈ plainVars) :
    (s2sObfEnvLines ap).lookup name =
      ([("AWG_JC", decimal ap.jc), ("AWG_JMIN", decimal ap.jmin), ("AWG_JMAX", decimal ap.jmax)] ++
        if ap.hpKey = [] then [] else [("AWG_HEADER_PROTECTION_KEY", ap.hpKey)]).lookup name := by
  obtain ⟨hfirst, hchain⟩ := List.forall_mem_cons.mp hroom.templates
  obtain ⟨front, templates, hstage, heq⟩ := s2sObfEnvLines_eq ap
  have hone := lookup_plainVars (mem_stageSuffixes_of_mem_stageVars hfirst)
    (by decide : 0 < awgMaxProfiles) hname
  rw [← hstage, List.lookup_append, Option.or_eq_none_iff] at hone
  have hrest : (ap.chain.zipIdx.flatMap fun st => fbEnvLines
      ("AWG_FB" ++ (if st.2 = 0 then "" else toString (st.2 + 1)) ++ "_") st.1).lookup name =
      none := by
    refine lookup_eq_none_of_notMem fun v hv heq => ?_
    obtain ⟨st, hst, hv⟩ := List.mem_flatMap.mp hv
    rw [fbEnvLines_map] at hv
    obtain ⟨w, hw, rfl⟩ := List.mem_map.mp hv
    obtain ⟨hlt, ho⟩ := List.mem_zipIdx' hst
    have hsuffix := mem_stageSuffixes_of_mem_stageVars
      (hchain st.1 (ho ▸ List.getElem_mem hlt)) w hw
    refine fbName_notMem_plainVars (st.2 + 1) (by have := hroom.length; omega) w.1 hsuffix ?_
    rw [← fbName_succ]
    rwa [heq] at hname
  rw [heq, List.lookup_append, List.lookup_append, List.lookup_append, List.lookup_append, hone.1,
    hone.2, hrest, Option.none_or, Option.or_none, Option.or_none, List.lookup_append]

end

/-! ### What is read of a stage -/

theorem lookup_addNonzero (name key : String) (v : ℕ) : (addNonzero key v).lookup name =
    if v = 0 then none else if name = key then some (decimal v) else none := by
  rw [addNonzero]
  split
  · rfl
  · by_cases heq : name = key
    · rw [heq, List.lookup_cons_self, if_pos rfl]
    · rw [List.lookup_cons, beq_false_of_ne heq, if_neg heq]
      rfl

section

variable {o : ObfLevel}

theorem lookup_addCps (ho : FewTemplates o) {name : String} (hname : name ∉ templateSuffixes) :
    (addCps "" o.cps).lookup name = none :=
  lookup_eq_none_of_notMem fun v hv heq => hname (heq ▸ (mem_of_mem_addCps ho v hv).1)

/-- What is looked up of a stage, by the ends of the names. -/
theorem lookup_stageVars (ho : FewTemplates o) :
    (stageVars o).lookup "S1" = some (decimal o.s1) ∧
      (stageVars o).lookup "S2" = some (decimal o.s2) ∧
      (stageVars o).lookup "S3" = (if o.s3 = 0 then none else some (decimal o.s3)) ∧
      (stageVars o).lookup "S4" = (if o.s4 = 0 then none else some (decimal o.s4)) ∧
      (stageVars o).lookup "HP" = none ∧ (stageVars o).lookup "RANDOM_TRAILERS" = none ∧
      (stageVars o).lookup "H1" = some o.h1 ∧ (stageVars o).lookup "H2" = some o.h2 ∧
      (stageVars o).lookup "H3" = some o.h3 ∧ (stageVars o).lookup "H4" = some o.h4 := by
  have hcps : ∀ name ∉ templateSuffixes, (addCps "" o.cps).lookup name = none :=
    fun name => lookup_addCps ho
  simp [stageVars, fbEnvLines, List.lookup_append, lookup_addNonzero, List.lookup_cons,
    hcps, templateSuffixes]

/-- A template that is looked up is one of the stage. -/
theorem mem_of_lookup_stageVars (ho : FewTemplates o) {name : String}
    (hname : name ∈ templateSuffixes) {t : List Char}
    (h : (stageVars o).lookup name = some t) : t ∈ o.cps.getD [] := by
  have hcps : (addCps "" o.cps).lookup name = some t := by
    rw [← h]
    simp only [templateSuffixes, List.mem_cons, List.not_mem_nil, or_false] at hname
    rcases hname with rfl | rfl | rfl | rfl | rfl <;>
      simp [stageVars, fbEnvLines, List.lookup_append, lookup_addNonzero, List.lookup_cons]
  obtain ⟨l₁, l₂, heq, -⟩ := List.lookup_eq_some_iff.mp hcps
  refine (mem_of_mem_addCps ho (name, t) ?_).2
  rw [heq]
  exact List.mem_append_right l₁ List.mem_cons_self

/-- What every drawn stage is, whether its headers are apart or not. -/
structure Drawn (o : ObfLevel) : Prop where
  few : FewTemplates o
  sizes : o.s1 ≤ 150 ∧ o.s2 ≤ 150 ∧ o.s3 ≤ 100 ∧ o.s4 ≤ 16
  key : o.hpKey ≠ [] → 12 ≤ o.s1 ∧ 12 ≤ o.s2 ∧ 12 ≤ o.s3 ∧ 12 ≤ o.s4
  headers : ∀ s ∈ [o.h1, o.h2, o.h3, o.h4], s ≠ [] ∧ ∃ r, parseHrange s = some r
  templates : ∀ t ∈ o.cps.getD [], ∃ tpl, cpsParse t = some tpl

/-- A number is read as it was written. -/
theorem parseIntStr?_decimal {n : ℕ} (hn : n ≤ intMax) :
    parseIntStr? (decimal n) = some (n : ℤ) := by
  have hread := parseIntStr?_digits (isDigit_of_mem_decimal (n := n))
  rwa [cString_digits isDigit_of_mem_decimal, digitsVal_decimal, if_pos hn] at hread

variable {h : Host} {k : ℕ} {hpKeySet : Bool} {pr : AwgProfile}

/-- The variables of a stage are set as they were drawn. -/
def SetsStage (h : Host) (k : ℕ) (o : ObfLevel) : Prop :=
  ∀ suffix ∈ stageSuffixes,
    h.value (fbName k suffix) = ((stageVars o).lookup suffix).filter (· ≠ [])

theorem SetsStage.numbers (hset : SetsStage h k o) {suffix : String} (hs : suffix ∈ stageSuffixes)
    {n : ℕ} (hn : n ≤ intMax) (hlook : (stageVars o).lookup suffix = some (decimal n)) :
    h.Numbers (fbName k suffix) n := by
  refine ⟨decimal n, ?_, parseIntStr?_decimal hn⟩
  rw [hset suffix hs, hlook, Option.filter_some_pos (by simpa using decimal_ne_nil n)]

theorem SetsStage.readInt_eq (hset : SetsStage h k o) {suffix : String}
    (hs : suffix ∈ stageSuffixes) {n : ℕ} (hn : n ≤ intMax)
    (hlook : (stageVars o).lookup suffix = if n = 0 then none else some (decimal n)) :
    readInt h (fbName k suffix) = .ok (n : ℤ) := by
  by_cases hzero : n = 0
  · subst hzero
    rw [readInt, hset suffix hs, hlook, if_pos rfl]
    rfl
  · rw [if_neg hzero] at hlook
    obtain ⟨s, hs, hv⟩ := hset.numbers hs hn hlook
    rw [readInt, hs]
    exact parseIntStr_eq_ok_iff.mpr hv

theorem SetsStage.ranges_iff (hset : SetsStage h k o) {suffix : String}
    (hs : suffix ∈ stageSuffixes) {s : List Char} (hne : s ≠ [])
    (hlook : (stageVars o).lookup suffix = some s) {r : HRange} :
    h.Ranges (fbName k suffix) r ↔ parseHrange s = some r := by
  rw [Host.Ranges, hset suffix hs, hlook, Option.filter_some_pos (by simpa using hne)]
  simp

theorem SetsStage.exists_cps (hset : SetsStage h k o) (hd : Drawn o) :
    ∃ cps, loadCpsStage h k = .ok cps := by
  have hread : ∀ name ∈ templateSuffixes, ∃ t, readCps h (fbName k name) = .ok t := by
    intro name hname
    have hs : name ∈ stageSuffixes := (by decide : templateSuffixes ⊆ stageSuffixes) hname
    rw [readCps, hset name hs]
    cases hlook : (stageVars o).lookup name with
    | none => exact ⟨none, rfl⟩
    | some t =>
        obtain ⟨tpl, htpl⟩ := hd.templates t (mem_of_lookup_stageVars hd.few hname hlook)
        by_cases hne : t = []
        · exact ⟨none, by rw [hne]; rfl⟩
        · rw [Option.filter_some_pos (by simpa using hne)]
          exact ⟨some tpl, by simp only [htpl]⟩
  obtain ⟨i1, h1⟩ := hread "I1" (by decide)
  obtain ⟨i2, h2⟩ := hread "I2" (by decide)
  obtain ⟨i3, h3⟩ := hread "I3" (by decide)
  obtain ⟨i4, h4⟩ := hread "I4" (by decide)
  obtain ⟨i5, h5⟩ := hread "I5" (by decide)
  exact ⟨![i1, i2, i3, i4, i5], by rw [loadCpsStage, h1, h2, h3, h4, h5]; rfl⟩

/-- What is written of a drawn stage is what was drawn. -/
theorem SetsStage.readsAs (hset : SetsStage h k o) (hd : Drawn o)
    (hw : StageWritten h hpKeySet k pr) (hon : pr.hpOn = true ↔ o.hpKey ≠ []) : ReadsAs o pr := by
  obtain ⟨ls1, ls2, ls3, ls4, -, -, lh1, lh2, lh3, lh4⟩ := lookup_stageVars hd.few
  obtain ⟨b1, b2, b3, b4⟩ := hd.sizes
  have hmax : 150 ≤ intMax := by decide
  obtain ⟨e1, -⟩ := hd.headers o.h1 (by simp)
  obtain ⟨e2, -⟩ := hd.headers o.h2 (by simp)
  obtain ⟨e3, -⟩ := hd.headers o.h3 (by simp)
  obtain ⟨e4, -⟩ := hd.headers o.h4 (by simp)
  refine ⟨?_, ?_, ?_, ?_, ?_, ?_, ?_, ?_, hon⟩
  · exact hw.s1.unique (hset.numbers (by decide) (by omega) ls1)
  · exact hw.s2.unique (hset.numbers (by decide) (by omega) ls2)
  · exact Except.ok.inj (hw.s3.symm.trans (hset.readInt_eq (by decide) (by omega) ls3))
  · exact Except.ok.inj (hw.s4.symm.trans (hset.readInt_eq (by decide) (by omega) ls4))
  · exact (hset.ranges_iff (by decide) e1 lh1).mp hw.h1
  · exact (hset.ranges_iff (by decide) e2 lh2).mp hw.h2
  · exact (hset.ranges_iff (by decide) e3 lh3).mp hw.h3
  · exact (hset.ranges_iff (by decide) e4 lh4).mp hw.h4

/-- **A drawn stage is written** when it is one the proxy accepts. -/
theorem SetsStage.exists_stageWritten_iff (hset : SetsStage h k o) (hd : Drawn o)
    (hkey : k = 0 → hpKeySet = true → o.hpKey ≠ []) :
    (∃ pr, StageWritten h hpKeySet k pr) ↔ Accepts o := by
  obtain ⟨ls1, ls2, ls3, ls4, lhp, lrt, lh1, lh2, lh3, lh4⟩ := lookup_stageVars hd.few
  obtain ⟨b1, b2, b3, b4⟩ := hd.sizes
  have hmax : 150 ≤ intMax := by decide
  obtain ⟨e1, r1, p1⟩ := hd.headers o.h1 (by simp)
  obtain ⟨e2, r2, p2⟩ := hd.headers o.h2 (by simp)
  obtain ⟨e3, r3, p3⟩ := hd.headers o.h3 (by simp)
  obtain ⟨e4, r4, p4⟩ := hd.headers o.h4 (by simp)
  have hran1 := fun r => hset.ranges_iff (by decide) e1 lh1 (r := r)
  have hran2 := fun r => hset.ranges_iff (by decide) e2 lh2 (r := r)
  have hran3 := fun r => hset.ranges_iff (by decide) e3 lh3 (r := r)
  have hran4 := fun r => hset.ranges_iff (by decide) e4 lh4 (r := r)
  rw [accepts_iff p1 p2 p3 p4 hd.sizes hd.key]
  constructor
  · rintro ⟨pr, hw⟩
    obtain rfl := Option.some.inj (p1.symm.trans ((hran1 _).mp hw.h1))
    obtain rfl := Option.some.inj (p2.symm.trans ((hran2 _).mp hw.h2))
    obtain rfl := Option.some.inj (p3.symm.trans ((hran3 _).mp hw.h3))
    obtain rfl := Option.some.inj (p4.symm.trans ((hran4 _).mp hw.h4))
    have hv := hw.valid
    simp [hv.h12, hv.h13, hv.h14, hv.h23, hv.h24, hv.h34]
  · intro hpairs
    obtain ⟨cps, hcps⟩ := hset.exists_cps hd
    refine ⟨configComputeProfile { Configurator.zeroProfile with
      s1 := o.s1, s2 := o.s2, s3 := o.s3, s4 := o.s4, h1 := r1, h2 := r2, h3 := r3, h4 := r4
      cps := cps, hpOn := decide (k = 0) && hpKeySet, rt := false }, ?_⟩
    refine ⟨?_, ?_, ?_, ?_, ?_, ?_, (hran1 _).mpr p1, (hran2 _).mpr p2, (hran3 _).mpr p3,
      (hran4 _).mpr p4, hcps, ?_, rfl⟩
    · exact hset.numbers (by decide) (by omega) ls1
    · exact hset.numbers (by decide) (by omega) ls2
    · exact hset.readInt_eq (by decide) (by omega) ls3
    · exact hset.readInt_eq (by decide) (by omega) ls4
    · rw [Host.Protects]
      split
      · rename_i hk
        change (decide (k = 0) && hpKeySet) = hpKeySet
        rw [decide_eq_true hk, Bool.true_and]
      · rename_i hk
        refine ⟨0, ?_, ?_, ?_⟩
        · rw [readInt, hset "HP" (by decide), lhp]
          rfl
        · change (decide (k = 0) && hpKeySet) = _
          rw [decide_eq_false hk, Bool.false_and]
          rfl
        · change (decide (k = 0) && hpKeySet) = true → _
          rw [decide_eq_false hk, Bool.false_and]
          rintro ⟨⟩
    · rw [readBool, hset "RANDOM_TRAILERS" (by decide), lrt]
      rfl
    · simp only [List.pairwise_cons, List.mem_cons, List.not_mem_nil, or_false, forall_eq_or_imp,
        forall_eq] at hpairs
      obtain ⟨⟨h12, h13, h14⟩, ⟨h23, h24⟩, h34, -⟩ := hpairs
      refine AwgProfile.Valid.configComputeProfile ⟨?_, ?_, ?_, ?_, fun hon => ?_, h12, h13, h14,
        h23, h24, h34⟩
      · dsimp only
        omega
      · dsimp only
        omega
      · dsimp only
        omega
      · dsimp only
        omega
      · obtain ⟨hk, hset⟩ := Bool.and_eq_true_iff.mp hon
        obtain ⟨k1, k2, k3, k4⟩ := hd.key (hkey (of_decide_eq_true hk) hset)
        dsimp only
        omega

end

end AwgProxy
