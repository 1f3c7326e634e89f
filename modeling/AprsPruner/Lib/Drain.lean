import AprsPruner.Lib.Run
import Mathlib.Data.List.Basic

/-!
# Steps that run out

Some of a system's steps are its *own*, the others are its environment's.  If a
rank falls with every own step and is raised by no other, a run has only so many
own steps; and if an own step can always be taken until a goal is reached, own
steps alone lead there.

## Main definitions

* `Drains Step P own rank` — own steps use the rank up, from states with `P` on.

## Main results

* `Drains.countP_add_le` — **a run has no more own steps than the rank allows.**
* `Drains.exists_run` — own steps alone reach the goal.
-/

namespace Transition

variable {σ ε : Type*} {Step : σ → ε → σ → Prop} {P : σ → Prop} {own : ε → Bool} {rank : σ → ℕ}

/-- Every own step lowers the rank and no other step raises it, from the states
with `P`, which are not left. -/
structure Drains (Step : σ → ε → σ → Prop) (P : σ → Prop) (own : ε → Bool) (rank : σ → ℕ) :
    Prop where
  /-- No step leads out of the states. -/
  stays : ∀ s e s', P s → Step s e s' → P s'
  /-- An own step lowers the rank. -/
  falls : ∀ s e s', P s → Step s e s' → own e → rank s' < rank s
  /-- No other step raises it. -/
  keeps : ∀ s e s', P s → Step s e s' → ¬ own e → rank s' ≤ rank s

/-- **A run has no more own steps than the rank allows.** -/
theorem Drains.countP_add_le (h : Drains Step P own rank) {s s' : σ} {es : List ε}
    (hrun : Run Step s es s') (h₀ : P s) : es.countP own + rank s' ≤ rank s := by
  induction hrun with
  | nil => simp
  | @cons s s₁ _ e es hs _ ih =>
    have hrest := ih (h.stays _ _ _ h₀ hs)
    cases howns : own e with
    | true =>
      have hfalls := h.falls _ _ _ h₀ hs howns
      rw [List.countP_cons_of_pos howns]
      omega
    | false =>
      have hother : ¬ own e := by simp [howns]
      have hkeeps := h.keeps _ _ _ h₀ hs hother
      rw [List.countP_cons_of_neg hother]
      omega

/-- **Own steps alone reach the goal**, if one can be taken until then. -/
theorem Drains.exists_run (h : Drains Step P own rank) (goal : σ → Prop)
    (hprogress : ∀ s, P s → ¬ goal s → ∃ e s', own e ∧ Step s e s') {s : σ} (h₀ : P s) :
    ∃ es s', (∀ e ∈ es, own e) ∧ Run Step s es s' ∧ goal s' := by
  -- by induction on the rank
  induction hr : rank s using Nat.strongRecOn generalizing s with
  | _ r ih =>
    by_cases hgoal : goal s
    · exact ⟨[], s, by simp, .nil s, hgoal⟩
    · obtain ⟨e, s₁, howns, hs⟩ := hprogress s h₀ hgoal
      have hfalls := h.falls _ _ _ h₀ hs howns
      obtain ⟨es, s', hall, hrun, hgoal'⟩ :=
        ih (rank s₁) (hr ▸ hfalls) (h.stays _ _ _ h₀ hs) rfl
      exact ⟨e :: es, s', List.forall_mem_cons.mpr ⟨howns, hall⟩, .cons hs hrun, hgoal'⟩

end Transition
