import Mathlib.Data.List.Basic

/-!
# Runs of step relations and of machines with outputs

Two ways a program takes step after step.  A *step relation* moves a state along
an event; a run is a list of events taken one after the other, and a predicate
that every step preserves holds at its end.  Where a function says which steps can
be taken, it computes the run.  A *machine* is a total step function that also
answers each event with an output; two machines whose states stay related, and
whose answers agree on related states, answer every list of events alike.

## Main definitions

* `Run Step s es s'` — the events `es` lead from `s` to `s'`.
* `steps step s es` — where the events `es` lead, if each of them can happen.
* `outputs step s es` — the answers of a machine to the events `es`.
* `translate step f g` — the machine with its events and answers translated.
* `finalState step s es` — the state a machine is left in.

## Main results

* `Run.invariant` — what every step preserves holds after every run.
* `Run.refines` — a run of one step relation shows as a run of another.
* `run_of_steps` — what is computed is a run.
* `outputs_translate_eq_iff` — machines answer alike if their translations do.
* `outputs_eq_of_related` — related machines answer alike.
-/

namespace Transition

variable {σ τ ε ω : Type*}

/-! ### Runs of a step relation -/

/-- `Run Step s es s'` — the events `es`, in order, lead from `s` to `s'`. -/
inductive Run (Step : σ → ε → σ → Prop) : σ → List ε → σ → Prop
  /-- Nothing happens. -/
  | nil (s : σ) : Run Step s [] s
  /-- One event, and then the others. -/
  | cons {s s' s'' : σ} {e : ε} {es : List ε} :
      Step s e s' → Run Step s' es s'' → Run Step s (e :: es) s''

variable {Step : σ → ε → σ → Prop}

/-- **What every step preserves holds after every run.** -/
theorem Run.invariant {P : σ → Prop} (hstep : ∀ s e s', P s → Step s e s' → P s')
    {s s' : σ} {es : List ε} (h : Run Step s es s') (h₀ : P s) : P s' := by
  induction h with
  | nil => exact h₀
  | cons hs _ ih => exact ih (hstep _ _ _ h₀ hs)

/-- The two-state form of `Run.invariant`: a reflexive and transitive relation
that every step respects relates the two ends of every run. -/
theorem Run.relates {R : σ → σ → Prop} (hrefl : ∀ s, R s s)
    (htrans : ∀ {a b c}, R a b → R b c → R a c) (hstep : ∀ s e s', Step s e s' → R s s')
    {s s' : σ} {es : List ε} (h : Run Step s es s') : R s s' := by
  induction h with
  | nil => exact hrefl _
  | cons hs _ ih => exact htrans (hstep _ _ _ hs) ih

/-- A step is a run of one step. -/
theorem Run.single {s s' : σ} {e : ε} (h : Step s e s') : Run Step s [e] s' := .cons h (.nil _)

/-- A run of one step relation is a run of another that takes its steps too. -/
theorem Run.mono {Step' : σ → ε → σ → Prop} {s s' : σ} {es : List ε} (h : Run Step s es s')
    (hstep : ∀ e ∈ es, ∀ s s', Step s e s' → Step' s e s') : Run Step' s es s' := by
  induction h with
  | nil => exact .nil _
  | cons hs _ ih =>
    exact .cons (hstep _ List.mem_cons_self _ _ hs)
      (ih fun e he => hstep e (List.mem_cons_of_mem _ he))

theorem Run.append {s s' s'' : σ} {es es' : List ε} (h : Run Step s es s')
    (h' : Run Step s' es' s'') : Run Step s (es ++ es') s'' := by
  induction h with
  | nil => exact h'
  | cons hs _ ih => exact .cons hs (ih h')

/-- **A run shows as a run.**  If every step, from a state with the invariant `P`,
shows in another step relation as some events in a row, so does a whole run. -/
theorem Run.refines {δ : Type*} {Step' : τ → δ → τ → Prop} {P : σ → Prop} (view : σ → τ)
    {shows : ε → List δ → Prop} (hstep : ∀ s e s', P s → Step s e s' →
      P s' ∧ ∃ ds, shows e ds ∧ Run Step' (view s) ds (view s'))
    {s s' : σ} {es : List ε} (h : Run Step s es s') (h₀ : P s) :
    ∃ dss, List.Forall₂ shows es dss ∧ Run Step' (view s) dss.flatten (view s') := by
  induction h with
  | nil => exact ⟨[], .nil, .nil _⟩
  | cons hs _ ih =>
    obtain ⟨hP, ds, hshows, hrun⟩ := hstep _ _ _ h₀ hs
    obtain ⟨dss, hall, hrest⟩ := ih hP
    exact ⟨ds :: dss, .cons hshows hall, hrun.append hrest⟩

/-- An event that shows as `d` leaves it in the run that shows. -/
theorem mem_flatten_of_shows {δ : Type*} {shows : ε → List δ → Prop} {e : ε} {d : δ}
    (hd : ∀ ds, shows e ds → d ∈ ds) {es : List ε} {dss : List (List δ)}
    (h : List.Forall₂ shows es dss) (he : e ∈ es) : d ∈ dss.flatten := by
  induction h with
  | nil => exact absurd he List.not_mem_nil
  | cons hshows _ ih =>
    rw [List.flatten_cons, List.mem_append]
    rcases List.mem_cons.mp he with rfl | he
    · exact Or.inl (hd _ hshows)
    · exact Or.inr (ih he)

/-! ### Runs that are computed -/

/-- The state after a list of events, if each of them can happen. -/
def steps (step : σ → ε → Option σ) (s : σ) (es : List ε) : Option σ := es.foldlM step s

/-- What can happen, as a step relation. -/
def Takes (step : σ → ε → Option σ) (s : σ) (e : ε) (s' : σ) : Prop := step s e = some s'

theorem steps_cons (step : σ → ε → Option σ) (s : σ) (e : ε) (es : List ε) :
    steps step s (e :: es) = (step s e).bind (steps step · es) := List.foldlM_cons

/-- **What is computed is a run.** -/
theorem run_of_steps {step : σ → ε → Option σ} {es : List ε} {s s' : σ}
    (h : steps step s es = some s') : Run (Takes step) s es s' := by
  induction es generalizing s with
  | nil =>
    obtain rfl := Option.some.inj h
    exact .nil s
  | cons e es ih =>
    rw [steps_cons] at h
    obtain ⟨s₁, hs, h⟩ := Option.bind_eq_some_iff.mp h
    exact .cons hs (ih h)

/-! ### Machines with outputs -/

/-- The answers of a machine to a list of events. -/
def outputs (step : σ → ε → σ × ω) : σ → List ε → List ω
  | _, [] => []
  | s, e :: es => (step s e).2 :: outputs step (step s e).1 es

/-- The machine `step`, asked in other words: `f` says what an event asks of it and
`g` what its answer means. -/
def translate {ε' ω' : Type*} (step : σ → ε → σ × ω) (f : ε' → ε) (g : ε' → ω → ω') :
    σ → ε' → σ × ω' :=
  fun s e => ((step s (f e)).1, g e (step s (f e)).2)

/-- The state a machine is left in by a list of events. -/
def finalState (step : σ → ε → σ × ω) (s : σ) (es : List ε) : σ :=
  es.foldl (fun s e => (step s e).1) s

@[simp] theorem outputs_nil (step : σ → ε → σ × ω) (s : σ) : outputs step s [] = [] := rfl

@[simp] theorem outputs_cons (step : σ → ε → σ × ω) (s : σ) (e : ε) (es : List ε) :
    outputs step s (e :: es) = (step s e).2 :: outputs step (step s e).1 es := rfl

/-- Part of every answer is what a machine answers that says no more. -/
theorem map_outputs {ω' : Type*} (step : σ → ε → σ × ω) (g : ω → ω') : ∀ (es : List ε) (s : σ),
    (outputs step s es).map g = outputs (translate step id fun _ => g) s es := by
  intro es
  induction es with
  | nil => exact fun _ => rfl
  | cons e es ih => exact fun s => congrArg (g (step s e).2 :: ·) (ih _)

/-- A translation goes through the same states. -/
theorem finalState_translate {ω' : Type*} (step : σ → ε → σ × ω) (g : ω → ω') (s : σ)
    (es : List ε) :
    finalState (translate step id fun _ => g) s es = finalState step s es := rfl

/-- **Nothing is lost in translation**: if the translated answers can be read back,
two machines answer alike exactly if their translations do. -/
theorem outputs_translate_eq_iff {ε' ω' : Type*} {step : σ → ε → σ × ω}
    {step' : τ → ε → τ × ω} {f : ε' → ε} {g : ε' → ω → ω'}
    (hg : ∀ e, Function.Injective (g e)) : ∀ (es : List ε') (s : σ) (t : τ),
      outputs (translate step f g) s es = outputs (translate step' f g) t es ↔
        outputs step s (es.map f) = outputs step' t (es.map f) := by
  intro es
  induction es with
  | nil => intro s t; simp
  | cons e es ih =>
    intro s t
    rw [List.map_cons, outputs_cons, outputs_cons, outputs_cons, outputs_cons,
      List.cons_eq_cons, List.cons_eq_cons]
    exact and_congr (hg e).eq_iff (ih _ _)

/-- The last answer is the one given in the last state but one. -/
theorem getLast?_outputs (step : σ → ε → σ × ω) (e : ε) : ∀ (es : List ε) (s : σ),
    (outputs step s (es ++ [e])).getLast? = some (step (finalState step s es) e).2 := by
  intro es
  induction es with
  | nil => intro s; rfl
  | cons e' es ih =>
    intro s
    rw [List.cons_append, outputs_cons, List.getLast?_cons, ih]
    rfl

/-- **Related machines answer alike.**  `R` relates the states, `ok` restricts the
events; one step from related states must answer the same and end in related
states. -/
theorem outputs_eq_of_related {step : σ → ε → σ × ω} {step' : τ → ε → τ × ω}
    {R : σ → τ → Prop} (ok : ε → Prop)
    (hstep : ∀ s t e, R s t → ok e →
      (step s e).2 = (step' t e).2 ∧ R (step s e).1 (step' t e).1) :
    ∀ (es : List ε) (s : σ) (t : τ), R s t → (∀ e ∈ es, ok e) →
      outputs step s es = outputs step' t es := by
  intro es
  induction es with
  | nil => intro s t _ _; rfl
  | cons e es ih =>
    intro s t hR hok
    obtain ⟨hout, hR'⟩ := hstep s t e hR (hok e List.mem_cons_self)
    rw [outputs_cons, outputs_cons, hout,
      ih _ _ hR' fun e' he' => hok e' (List.mem_cons_of_mem _ he')]

end Transition
