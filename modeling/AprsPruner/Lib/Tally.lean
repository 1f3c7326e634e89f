import Mathlib.Algebra.BigOperators.Group.Finset.Basic
import Mathlib.Data.Int.ModEq

/-!
# Counts kept modulo a number by several parties

Several parties each keep a count, in a counter that wraps around.  When a step of
one party adds to its count, the sum over the parties grows by as much, modulo the
size of the counter; so over a run the sum grows by all that was added.

## Main definitions

* `tally step delta s es` — what the steps of a run add, all together.

## Main results

* `sum_update_modEq` — one party's count is one summand.
* `modEq_add_tally` — **a count that every step moves by `delta` is moved by a run
  by the tally.**
-/

namespace Tally

variable {ι α σ ε : Type*} {m d : ℕ}

/-- **One party's count is one summand**: if it moves by `d`, so does the sum. -/
theorem sum_update_modEq [Fintype ι] [DecidableEq ι] (count : α → ℕ) (g : ι → α) (k : ι) (x : α)
    (h : count x ≡ count (g k) + d [MOD m]) :
    ∑ j, count (Function.update g k x j) ≡ ∑ j, count (g j) + d [MOD m] := by
  have hk := Finset.mem_univ k
  have hrest : ∑ j ∈ Finset.univ.erase k, count (Function.update g k x j) =
      ∑ j ∈ Finset.univ.erase k, count (g j) :=
    Finset.sum_congr rfl fun j hj => by rw [Function.update_of_ne (Finset.ne_of_mem_erase hj)]
  rw [← Finset.add_sum_erase _ _ hk, ← Finset.add_sum_erase _ (fun j => count (g j)) hk, hrest,
    Function.update_self, Nat.add_right_comm]
  exact h.add_right _

/-- What the steps of a run add, all together. -/
def tally (step : σ → ε → σ) (delta : σ → ε → ℕ) : σ → List ε → ℕ
  | _, [] => 0
  | s, e :: es => delta s e + tally step delta (step s e) es

/-- **A count that every step moves by `delta` is moved by a run by the tally.** -/
theorem modEq_add_tally {step : σ → ε → σ} (count : σ → ℕ) {delta : σ → ε → ℕ} {ok : ε → Prop}
    (h : ∀ s e, ok e → count (step s e) ≡ count s + delta s e [MOD m]) :
    ∀ (es : List ε) (s : σ), (∀ e ∈ es, ok e) →
      count (es.foldl step s) ≡ count s + tally step delta s es [MOD m] := by
  intro es
  induction es with
  | nil => intro s _; exact Nat.ModEq.refl _
  | cons e es ih =>
    intro s hok
    have hrest := ih (step s e) fun e' he' => hok e' (List.mem_cons_of_mem _ he')
    have hfirst := h s e (hok e List.mem_cons_self)
    rw [List.foldl_cons, tally, ← Nat.add_assoc]
    exact hrest.trans (hfirst.add_right _)

/-- The exact form of `modEq_add_tally`. -/
theorem eq_add_tally {step : σ → ε → σ} (count : σ → ℕ) {delta : σ → ε → ℕ}
    (h : ∀ s e, count (step s e) = count s + delta s e) :
    ∀ (es : List ε) (s : σ), count (es.foldl step s) = count s + tally step delta s es := by
  intro es
  induction es with
  | nil => intro s; rfl
  | cons e es ih =>
    intro s
    rw [List.foldl_cons, tally, ih, h, Nat.add_assoc]

end Tally
