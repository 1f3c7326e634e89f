import AprsPruner.Lib.Run

/-!
# Machines that report now and then

Some machines collect what happens to them and report it when a report is due.  A due
event answers with what was collected since the last report, any other event is
collected and answered with nothing.  So the reports cut what happened into *batches*,
each with the event that it was reported at, and a rest that is not reported yet.

## Main definitions

* `Batch` — the events of one report, and the event that was due.
* `Cuts due next k batches pending` — the batches are cut where a report was due.
* `Batch.answers` — what the events of a batch are answered with.

## Main results

* `exists_cuts` — **a machine that collects and reports answers by batches.**
-/

namespace Transition

variable {σ ε ω κ : Type*}

/-- What one report is about: the events that were collected, and the one it was due at. -/
structure Batch (ε : Type*) where
  /-- The events collected. -/
  events : List ε
  /-- The event at which the report was due. -/
  last : ε

namespace Batch

/-- The events of a batch, the last one too. -/
def all (b : Batch ε) : List ε := b.events ++ [b.last]

/-- Nothing for what is collected, and then the report. -/
def answers (report : List ε → ε → ω) (quiet : ω) (b : Batch ε) : List ω :=
  b.events.map (fun _ => quiet) ++ [report b.events b.last]

end Batch

/-- The batches are cut where a report was due: whether it is depends on the last report,
that is on `k` at first, and on `next e` after a report at `e`. -/
inductive Cuts (due : κ → ε → Prop) (next : ε → κ) : κ → List (Batch ε) → List ε → Prop
  /-- No report is due. -/
  | pending {k : κ} {es : List ε} : (∀ e ∈ es, ¬ due k e) → Cuts due next k [] es
  /-- A report is due after the events of a batch. -/
  | report {k : κ} {b : Batch ε} {bs : List (Batch ε)} {es : List ε} :
      (∀ e ∈ b.events, ¬ due k e) → due k b.last → Cuts due next (next b.last) bs es →
        Cuts due next k (b :: bs) es

variable {due : κ → ε → Prop} {next : ε → κ}

/-- **A machine that collects and reports answers by batches.**  `R s k p` says that the
state `s` stands for the events `p`, collected since the report that `k` is of. -/
theorem exists_cuts (step : σ → ε → σ × ω) {report : List ε → ε → ω} {quiet : ω}
    (R : σ → κ → List ε → Prop)
    (hcollect : ∀ s k p e, R s k p → ¬ due k e →
      (step s e).2 = quiet ∧ R (step s e).1 k (p ++ [e]))
    (hreport : ∀ s k p e, R s k p → due k e →
      (step s e).2 = report p e ∧ R (step s e).1 (next e) []) :
    ∀ (es : List ε) (s : σ) (k : κ) (p : List ε), R s k p → (∀ e ∈ p, ¬ due k e) →
      ∃ batches pending, Cuts due next k batches pending ∧
        p ++ es = batches.flatMap Batch.all ++ pending ∧
        p.map (fun _ => quiet) ++ outputs step s es =
          batches.flatMap (Batch.answers report quiet) ++ pending.map (fun _ => quiet) ∧
        ∃ k', R (finalState step s es) k' pending := by
  intro es
  induction es with
  | nil =>
    intro s k p hR hp
    exact ⟨[], p, .pending hp, by simp, by simp, k, hR⟩
  | cons e es ih =>
    intro s k p hR hp
    by_cases hdue : due k e
    · -- the report closes the batch that was collected
      obtain ⟨hout, hR'⟩ := hreport s k p e hR hdue
      obtain ⟨batches, pending, hcuts, hes, houts, hfinal⟩ := ih _ _ [] hR' (by simp)
      refine ⟨⟨p, e⟩ :: batches, pending, .report hp hdue hcuts, ?_, ?_, hfinal⟩
      · rw [List.flatMap_cons, List.append_assoc, ← hes, Batch.all]
        simp
      · rw [List.flatMap_cons, List.append_assoc, ← houts, Batch.answers, outputs_cons, hout]
        simp
    · obtain ⟨hout, hR'⟩ := hcollect s k p e hR hdue
      have hp' : ∀ e' ∈ p ++ [e], ¬ due k e' := by
        intro e' he'
        rcases List.mem_append.mp he' with he' | he'
        · exact hp e' he'
        · rwa [List.mem_singleton.mp he']
      obtain ⟨batches, pending, hcuts, hes, houts, hfinal⟩ := ih _ _ _ hR' hp'
      refine ⟨batches, pending, hcuts, ?_, ?_, hfinal⟩
      · rw [← hes, List.append_assoc, List.singleton_append]
      · rw [← houts, outputs_cons, hout]
        simp

end Transition
