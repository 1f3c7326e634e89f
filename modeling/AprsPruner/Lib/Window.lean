import AprsPruner.Lib.Run
import Mathlib.Algebra.Notation.Defs
import Mathlib.Logic.Function.Basic

/-!
# Records that are cleared member by member

A record has a value for each of its members.  One member is updated at a time, and
now and then the record is *reset*: the members in a list are cleared, one after the
other.  What a member outside the list was updated with stays in it over every reset.

## Main definitions

* `reset cleared s` — the record `s` with the members in `cleared` cleared.
* `Event`, `Step` — updates, and passes that reset the record or leave it.
* `total s es` — the record `s` with every update of `es`, and never reset.

## Main results

* `reset_eq_zero_iff`, `reset_eq_reset_iff` — what is not cleared decides.
* `apply_of_run` — a member that is not cleared holds its total after every run.
* `reset_run_eq_iff` — **two runs end in the same record after a reset exactly if
  they have the same totals where nothing is cleared.**
-/

namespace Window

open Transition

variable {ι : Type*} [DecidableEq ι] {β : ι → Type*}

/-! ### A reset -/

section Reset

variable [∀ i, Zero (β i)] {cleared : List ι} {s t : ∀ i, β i}

/-- The record with one member cleared. -/
def clear (s : ∀ i, β i) (i : ι) : ∀ i, β i := Function.update s i 0

/-- The record with the members of a list cleared, one after the other. -/
def reset (cleared : List ι) (s : ∀ i, β i) : ∀ i, β i := cleared.foldl clear s

/-- A reset keeps what is not in its list, whatever the order of the list. -/
theorem reset_apply (cleared : List ι) (s : ∀ i, β i) (i : ι) :
    reset cleared s i = if i ∈ cleared then 0 else s i := by
  induction cleared generalizing s with
  | nil => rw [reset, List.foldl_nil, if_neg List.not_mem_nil]
  | cons j cleared ih =>
    have hstep : reset (j :: cleared) s = reset cleared (clear s j) := rfl
    rw [hstep, ih]
    rcases eq_or_ne i j with rfl | hne
    · simp [clear]
    · rw [clear, Function.update_of_ne hne]
      simp [hne]

theorem reset_of_mem {i : ι} (h : i ∈ cleared) : reset cleared s i = 0 := by
  rw [reset_apply, if_pos h]

theorem reset_of_notMem {i : ι} (h : i ∉ cleared) : reset cleared s i = s i := by
  rw [reset_apply, if_neg h]

/-- A reset clears the whole record exactly if the rest was clear before. -/
theorem reset_eq_zero_iff : (∀ i, reset cleared s i = 0) ↔ ∀ i ∉ cleared, s i = 0 := by
  constructor
  · intro h i hi
    rw [← reset_of_notMem (s := s) hi, h]
  · intro h i
    by_cases hi : i ∈ cleared
    · exact reset_of_mem hi
    · rw [reset_of_notMem hi, h i hi]

/-- Two records are the same after a reset exactly if they agree on the rest. -/
theorem reset_eq_reset_iff :
    reset cleared s = reset cleared t ↔ ∀ i ∉ cleared, s i = t i := by
  constructor
  · intro h i hi
    rw [← reset_of_notMem (s := s) hi, h, reset_of_notMem hi]
  · intro h
    funext i
    by_cases hi : i ∈ cleared
    · rw [reset_of_mem hi, reset_of_mem hi]
    · rw [reset_of_notMem hi, reset_of_notMem hi, h i hi]

end Reset

/-! ### Runs -/

/-- What happens to a record: a member is updated, or a pass is made that may reset it. -/
inductive Event (β : ι → Type*) where
  /-- A member is updated. -/
  | update (i : ι) (f : β i → β i) : Event β
  /-- A pass is made. -/
  | pass : Event β

/-- The record after an event that does not reset it. -/
def Event.apply (s : ∀ i, β i) : Event β → ∀ i, β i
  | .update i f => Function.update s i (f (s i))
  | .pass => s

/-- The record with every update, and never reset. -/
def total (s : ∀ i, β i) (es : List (Event β)) : ∀ i, β i := es.foldl Event.apply s

@[simp] theorem total_nil (s : ∀ i, β i) : total s ([] : List (Event β)) = s := rfl

@[simp] theorem total_cons (s : ∀ i, β i) (e : Event β) (es : List (Event β)) :
    total s (e :: es) = total (e.apply s) es := rfl

/-- A member's total comes from its own value. -/
theorem total_congr {s t : ∀ i, β i} {i : ι} (h : s i = t i) (es : List (Event β)) :
    total s es i = total t es i := by
  induction es generalizing s t with
  | nil => exact h
  | cons e es ih =>
    rw [total_cons, total_cons]
    apply ih
    cases e with
    | update j f =>
      rcases eq_or_ne i j with rfl | hne
      · simp [Event.apply, h]
      · simp [Event.apply, hne, h]
    | pass => exact h

variable [∀ i, Zero (β i)]

/-- An event leads from one record to the next; a pass may be due or not. -/
inductive Step (cleared : List ι) : (∀ i, β i) → Event β → (∀ i, β i) → Prop
  /-- The record is not reset. -/
  | event (s : ∀ i, β i) (e : Event β) : Step cleared s e (e.apply s)
  /-- A pass resets the record. -/
  | due (s : ∀ i, β i) : Step cleared s .pass (reset cleared s)

variable {cleared : List ι} {s s' t t' : ∀ i, β i} {es es' : List (Event β)}

/-- One step leaves a member that is not cleared to its updates. -/
theorem apply_of_step {e : Event β} (h : Step cleared s e s') {i : ι} (hi : i ∉ cleared) :
    s' i = e.apply s i := by
  cases h with
  | event => rfl
  | due => exact reset_of_notMem hi

/-- **A member that is not cleared holds its total.** -/
theorem apply_of_run (h : Run (Step cleared) s es s') {i : ι} (hi : i ∉ cleared) :
    s' i = total s es i := by
  induction h with
  | nil => rfl
  | cons hstep _ ih =>
    rw [total_cons, ih]
    exact total_congr (apply_of_step hstep hi) _

/-- A reset at the end of a run clears the whole record exactly if there is nothing in
the totals that it does not clear. -/
theorem reset_run_eq_zero_iff (h : Run (Step cleared) s es s') :
    (∀ i, reset cleared s' i = 0) ↔ ∀ i ∉ cleared, total s es i = 0 := by
  rw [reset_eq_zero_iff]
  refine forall₂_congr fun i hi => ?_
  rw [apply_of_run h hi]

/-- **Two runs end in the same record after a reset** exactly if they have the same totals
where nothing is cleared. -/
theorem reset_run_eq_iff (h : Run (Step cleared) s es s') (h' : Run (Step cleared) t es' t') :
    reset cleared s' = reset cleared t' ↔ ∀ i ∉ cleared, total s es i = total t es' i := by
  rw [reset_eq_reset_iff]
  refine forall₂_congr fun i hi => ?_
  rw [apply_of_run h hi, apply_of_run h' hi]

end Window
