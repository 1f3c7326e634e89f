import AprsPruner.Lib.Run
import AprsPruner.Lib.Tally
import Mathlib.Algebra.Order.Ring.Int
import Mathlib.Tactic.Linarith

/-!
# Acts that keep their distance

Some steps of a system are *acts*, and after one of them a gap has to pass on the clock
before the next.  The time before which no act can come, `ready`, is what accounts for
it: it never lies behind the clock nor more than a gap ahead of it, no step puts it
back, and an act puts it ahead by a gap.  Where a step breaks the rule, and puts `ready`
back by a gap, it is *early*.  So in a stretch of time there are at most as many acts as
gaps fit in it, and one more, and one for each early step.

## Main definitions

* `Paced step ok P now ready gap acts early` — acts keep a gap between them.

## Main results

* `Paced.add_mul_tally_le` — acts use up the time that passes.
* `Paced.tally_le` — **how many acts there are in a stretch of time.**
-/

namespace Transition

open Tally

variable {σ ε : Type*} {step : σ → ε → σ} {ok : σ → ε → Prop} {P : σ → Prop}
  {now ready : σ → ℤ} {gap : ℤ} {acts early : σ → ε → ℕ}

/-- Acts keep a gap between them, but for the early steps: `ready` says from when on an
act can come, in the states with `P`, which are not left. -/
structure Paced (step : σ → ε → σ) (ok : σ → ε → Prop) (P : σ → Prop) (now ready : σ → ℤ)
    (gap : ℤ) (acts early : σ → ε → ℕ) : Prop where
  /-- No step leads out of the states. -/
  stays : ∀ s e, P s → ok s e → P (step s e)
  /-- No act can come before now. -/
  now_le : ∀ s, P s → now s ≤ ready s
  /-- An act can come after one gap at the latest. -/
  le_now_add : ∀ s, P s → ready s ≤ now s + gap
  /-- An act puts the next one off by a gap, unless the step is early. -/
  advances : ∀ s e, P s → ok s e →
    ready s + gap * acts s e ≤ ready (step s e) + gap * early s e

variable {s s' : σ} {es : List ε}

/-- Acts use up the time that passes. -/
theorem Paced.add_mul_tally_le (h : Paced step ok P now ready gap acts early)
    (hrun : Run (fun s e s' => s' = step s e ∧ ok s e) s es s') (h₀ : P s) :
    ready s + gap * tally step acts s es ≤ ready s' + gap * tally step early s es := by
  induction hrun with
  | nil => simp [tally]
  | @cons s _ _ e es hs _ ih =>
    obtain ⟨rfl, hok⟩ := hs
    have hfirst := h.advances s e h₀ hok
    have hrest := ih (h.stays s e h₀ hok)
    simp only [tally]
    push_cast
    linarith

/-- **How many acts there are in a stretch of time**: as many as gaps fit in it, and one
more, and one for each early step. -/
theorem Paced.tally_le (h : Paced step ok P now ready gap acts early) (hgap : 0 < gap)
    (hrun : Run (fun s e s' => s' = step s e ∧ ok s e) s es s') (h₀ : P s) (h₁ : P s') :
    tally step acts s es ≤ ((now s' - now s) / gap).toNat + 1 + tally step early s es := by
  have hused := h.add_mul_tally_le hrun h₀
  have hlow := h.now_le s h₀
  have hhigh := h.le_now_add s' h₁
  have hfit : (tally step acts s es - 1 - tally step early s es : ℤ) ≤ (now s' - now s) / gap := by
    rw [Int.le_ediv_iff_mul_le hgap]
    linarith
  omega

end Transition
