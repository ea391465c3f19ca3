import Mathlib.Data.List.Induction

/-!
# Partial Machines and Guarded Runs

A `Machine σ ε` is a deterministic step function on states `σ` driven by events `ε`:
`step s e` is the next state, or `none` when the event is not enabled in `s`. A
nondeterministic system, or several threads under an arbitrary schedule, is a machine
whose event names the choice, so that a schedule is a plain list of events and a run is
its fold `run`.

Two rules carry every result about runs:

* `run_induction`: an invariant that holds at the start and survives every enabled
  step holds after every run;
* `guarded_induction`: the same when the steps are only known to preserve the
  invariant under a side condition `C`, for the runs whose steps all meet it (`Meets`,
  computed by `guarded` for a run on fixed events).

`ghost` runs a machine beside a history variable that observes its steps and never
influences them (`run_ghost_fst`, `exists_run_ghost`), so that a property which speaks of
the past can be stated on the present state.
-/

/-- A deterministic machine with partial steps. -/
structure Machine (σ ε : Type*) where
  /-- The state after the event, or `none` when the event is not enabled. -/
  step : σ → ε → Option σ

namespace Machine

variable {σ ε γ : Type*} (M : Machine σ ε)

/-- The run of a list of events, `none` as soon as one of them is not enabled. -/
def run (s : σ) : List ε → Option σ
  | [] => some s
  | e :: es => (M.step s e).bind fun s' => run s' es

@[simp] theorem run_nil (s : σ) : M.run s [] = some s := rfl

theorem run_cons (s : σ) (e : ε) (es : List ε) :
    M.run s (e :: es) = (M.step s e).bind fun s' => M.run s' es := rfl

/-- A run splits at every point of its event list. -/
theorem run_append (s : σ) (es fs : List ε) :
    M.run s (es ++ fs) = (M.run s es).bind fun s' => M.run s' fs := by
  induction es generalizing s with
  | nil => simp
  | cons e es ih =>
      simp only [List.cons_append, run_cons, Option.bind_assoc]
      exact Option.bind_congr fun s' _ => ih s'

/-- The last step of a run. -/
theorem run_concat (s : σ) (es : List ε) (e : ε) :
    M.run s (es ++ [e]) = (M.run s es).bind fun s' => M.step s' e := by
  rw [run_append]
  refine Option.bind_congr fun s' _ => ?_
  simp only [run_cons, run_nil, Option.bind_fun_some]

/-- A run followed by an enabled step is a run. -/
theorem run_concat_eq_some {s t : σ} {es : List ε} {e : ε} :
    M.run s (es ++ [e]) = some t ↔ ∃ s', M.run s es = some s' ∧ M.step s' e = some t := by
  rw [run_concat, Option.bind_eq_some_iff]

/-- Every step of the run of `es` from `s` meets `C` in the state it is taken in. -/
def Meets (C : σ → ε → Prop) (s : σ) (es : List ε) : Prop :=
  ∀ pre e post s', es = pre ++ e :: post → M.run s pre = some s' → C s' e

variable {M}

/-- An initial part of a guarded run is guarded. -/
theorem Meets.of_append {C : σ → ε → Prop} {s : σ} {es fs : List ε}
    (h : M.Meets C s (es ++ fs)) : M.Meets C s es := by
  intro pre e post s' hes hrun
  exact h pre e (post ++ fs) s' (by simp [hes]) hrun

/-- The last step of a guarded run is guarded. -/
theorem Meets.last {C : σ → ε → Prop} {s s' : σ} {es : List ε} {e : ε}
    (h : M.Meets C s (es ++ [e])) (hrun : M.run s es = some s') : C s' e :=
  h es e [] s' rfl hrun

/-- Nothing is to be met without a step. -/
theorem meets_nil (C : σ → ε → Prop) (s : σ) : M.Meets C s [] := by
  intro pre e post s' hes
  exact absurd hes (List.nil_eq_append_iff.not.mpr fun h => List.cons_ne_nil _ _ h.2)

/-- A run is guarded when its first step is, and the run from there. -/
theorem Meets.cons {C : σ → ε → Prop} {s s' : σ} {e : ε} {es : List ε} (he : C s e)
    (hs : M.step s e = some s') (h : M.Meets C s' es) : M.Meets C s (e :: es) := by
  rintro (_ | ⟨e', pre⟩) f post t hes hrun
  · obtain ⟨rfl, -⟩ := List.cons.inj hes
    obtain rfl := Option.some.inj hrun
    exact he
  · obtain ⟨rfl, htail⟩ := List.cons.inj hes
    rw [run_cons, hs, Option.bind_some] at hrun
    exact h pre f post t htail hrun

/-- A guarded run goes on as a guarded run from where it ends. -/
theorem Meets.append {C : σ → ε → Prop} {s s' : σ} {es fs : List ε} (h : M.Meets C s es)
    (hrun : M.run s es = some s') (h' : M.Meets C s' fs) : M.Meets C s (es ++ fs) := by
  induction es generalizing s with
  | nil =>
      obtain rfl := Option.some.inj hrun
      exact h'
  | cons e es ih =>
      obtain ⟨t, ht, hrun⟩ := Option.bind_eq_some_iff.mp hrun
      refine .cons (h [] e es s rfl rfl) ht (ih ?_ hrun)
      intro pre f post q hes hpre
      refine h (e :: pre) f post q (by rw [hes, List.cons_append]) ?_
      rw [run_cons, ht, Option.bind_some, hpre]

/-- The guard, looked at step by step along the run. -/
def guarded (M : Machine σ ε) (C : σ → ε → Prop) [∀ s e, Decidable (C s e)] (s : σ) :
    List ε → Bool
  | [] => true
  | e :: es => decide (C s e) && (M.step s e).all fun s' => guarded M C s' es

/-- A run on fixed events is known to be guarded by computing it. -/
theorem meets_of_guarded {C : σ → ε → Prop} [∀ s e, Decidable (C s e)] {s : σ} {es : List ε}
    (h : M.guarded C s es = true) : M.Meets C s es := by
  induction es generalizing s with
  | nil => exact meets_nil C s
  | cons e es ih =>
      obtain ⟨he, hes⟩ := Bool.and_eq_true_iff.mp h
      intro pre f post t hsplit hrun
      cases pre with
      | nil =>
          obtain ⟨rfl, -⟩ := List.cons.inj hsplit
          obtain rfl := Option.some.inj hrun
          exact of_decide_eq_true he
      | cons f' pre =>
          obtain ⟨rfl, htail⟩ := List.cons.inj hsplit
          obtain ⟨s', hs', hrun⟩ := Option.bind_eq_some_iff.mp hrun
          rw [hs', Option.all_some] at hes
          exact ih hes pre f post t htail hrun

/-- **Guarded induction.** An invariant that every step meeting `C` preserves holds after
every run whose steps all meet `C`. -/
theorem guarded_induction {C : σ → ε → Prop} {Inv : σ → Prop} {s t : σ} {es : List ε}
    (hstep : ∀ s e s', Inv s → C s e → M.step s e = some s' → Inv s')
    (h0 : Inv s) (hC : M.Meets C s es) (hrun : M.run s es = some t) : Inv t := by
  induction es using List.reverseRecOn generalizing t with
  | nil =>
      obtain rfl := Option.some.inj hrun
      exact h0
  | append_singleton es e ih =>
      obtain ⟨s', hs', ht⟩ := (run_concat_eq_some M).mp hrun
      exact hstep s' e t (ih hC.of_append hs') (hC.last hs') ht

/-- **Invariant induction.** An invariant that every step preserves holds after every
run. -/
theorem run_induction {Inv : σ → Prop} {s t : σ} {es : List ε}
    (hstep : ∀ s e s', Inv s → M.step s e = some s' → Inv s')
    (h0 : Inv s) (hrun : M.run s es = some t) : Inv t :=
  guarded_induction (C := fun _ _ => True) (fun s e s' hi _ => hstep s e s' hi) h0
    (fun _ _ _ _ _ _ => trivial) hrun

/-- Guards that agree on the steps taken, where an invariant holds, are met by the same
runs. -/
theorem meets_congr {C C' : σ → ε → Prop} {Inv : σ → Prop} {s t : σ} {es : List ε}
    (hstep : ∀ s e s', Inv s → M.step s e = some s' → Inv s') (h0 : Inv s)
    (hrun : M.run s es = some t)
    (h : ∀ s e s', Inv s → M.step s e = some s' → (C s e ↔ C' s e)) :
    M.Meets C s es ↔ M.Meets C' s es := by
  have hsame : ∀ pre e post s', es = pre ++ e :: post → M.run s pre = some s' →
      (C s' e ↔ C' s' e) := by
    rintro pre e post s' rfl hpre
    rw [run_append, hpre, Option.bind_some, run_cons, Option.bind_eq_some_iff] at hrun
    obtain ⟨s'', hs'', -⟩ := hrun
    exact h s' e s'' (run_induction hstep h0 hpre) hs''
  constructor
  · intro hC pre e post s' hes hpre
    exact (hsame pre e post s' hes hpre).mp (hC pre e post s' hes hpre)
  · intro hC pre e post s' hes hpre
    exact (hsame pre e post s' hes hpre).mpr (hC pre e post s' hes hpre)

/-- What every step keeps exactly where it meets `C` holds after the guarded runs and no
others. -/
theorem iff_meets {C : σ → ε → Prop} {Inv P : σ → Prop} {s t : σ} {es : List ε}
    (hstep : ∀ s e s', Inv s → M.step s e = some s' → Inv s' ∧ (P s' ↔ P s ∧ C s e))
    (h0 : Inv s) (hP : P s) (hrun : M.run s es = some t) : P t ↔ M.Meets C s es := by
  induction es using List.reverseRecOn generalizing t with
  | nil =>
      obtain rfl := Option.some.inj hrun
      exact iff_of_true hP (meets_nil C s)
  | append_singleton es e ih =>
      obtain ⟨s', hs', ht⟩ := (run_concat_eq_some M).mp hrun
      have hinv := run_induction (fun s e s' hi hs => (hstep s e s' hi hs).1) h0 hs'
      rw [(hstep s' e t hinv ht).2, ih hs']
      constructor
      · rintro ⟨hmeets, hC⟩
        exact hmeets.append hs' (.cons hC ht (meets_nil C t))
      · intro hmeets
        exact ⟨hmeets.of_append, hmeets.last hs'⟩

/-! ### History variables -/

variable (M)

/-- The machine run beside a history variable: `upd s e s' g` is the history after the
step from `s` to `s'` under `e`. -/
def ghost (upd : σ → ε → σ → γ → γ) : Machine (σ × γ) ε where
  step p e := (M.step p.1 e).map fun s' => (s', upd p.1 e s' p.2)

variable {M}

/-- A step of the instrumented machine is a step of the machine itself. -/
theorem step_ghost_eq_some {upd : σ → ε → σ → γ → γ} {p q : σ × γ} {e : ε} :
    (M.ghost upd).step p e = some q ↔
      M.step p.1 e = some q.1 ∧ q.2 = upd p.1 e q.1 p.2 := by
  obtain ⟨s', g'⟩ := q
  simp only [ghost, Option.map_eq_some_iff, Prod.mk.injEq]
  constructor
  · rintro ⟨_, hs, rfl, rfl⟩
    exact ⟨hs, rfl⟩
  · rintro ⟨hs, rfl⟩
    exact ⟨s', hs, rfl, rfl⟩

/-- Forgetting the history leaves a run of the machine. -/
theorem run_ghost_fst {upd : σ → ε → σ → γ → γ} {p q : σ × γ} {es : List ε}
    (h : (M.ghost upd).run p es = some q) : M.run p.1 es = some q.1 := by
  induction es using List.reverseRecOn generalizing q with
  | nil =>
      obtain rfl := Option.some.inj h
      rfl
  | append_singleton es e ih =>
      obtain ⟨q', hq', hstep⟩ := (run_concat_eq_some _).mp h
      exact (run_concat_eq_some M).mpr ⟨q'.1, ih hq', (step_ghost_eq_some.mp hstep).1⟩

/-- The history never blocks a step: every run of the machine is a run of the
instrumented one. -/
theorem exists_run_ghost {s t : σ} {es : List ε} (upd : σ → ε → σ → γ → γ) (g : γ)
    (h : M.run s es = some t) : ∃ g', (M.ghost upd).run (s, g) es = some (t, g') := by
  induction es using List.reverseRecOn generalizing t with
  | nil => exact ⟨g, by rw [run_nil, Option.some.inj h]⟩
  | append_singleton es e ih =>
      obtain ⟨s', hs', ht⟩ := (run_concat_eq_some M).mp h
      obtain ⟨g', hg'⟩ := ih hs'
      exact ⟨upd s' e t g', (run_concat_eq_some _).mpr
        ⟨(s', g'), hg', step_ghost_eq_some.mpr ⟨ht, rfl⟩⟩⟩

/-- The history does not change what a guard on the machine's own state says. -/
theorem Meets.ghost {C : σ → ε → Prop} {s : σ} {es : List ε} (h : M.Meets C s es)
    (upd : σ → ε → σ → γ → γ) (g : γ) :
    (M.ghost upd).Meets (fun p e => C p.1 e) (s, g) es := by
  intro pre e post p hes hrun
  exact h pre e post p.1 hes (run_ghost_fst hrun)

end Machine
