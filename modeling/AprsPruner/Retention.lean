import AprsPruner.System

/-!
# Rows are kept for as long as every worker's age says

Runs of the system in which the clock does not go back.  A worker computes its
cutoff before its `DELETE` runs, so by then the clock may be later, but the cutoff
only lies further back.  A row that is younger than every worker's age has been
younger than it all along, so no cutoff was ever past it.

## Main definitions

* `Forward` — a step during which the clock does not go back.
* `Policy` — the ages and limits are the workers' own, and no cutoff is ahead of
  the clock by less than the age.

## Main results

* `run_stock` — a run does batches to a table whose bounds lie behind the clock.
* `retention_safe` — **no row younger than every worker's age is ever deleted.**
-/

namespace AprsPruner

open BatchPrune Transition

variable {n : ℕ}

/-- A step of the system during which the clock does not go back. -/
def Forward (s : System n) (e : Event n) (s' : System n) : Prop :=
  s' = s.step e ∧ ∀ c, e = .tick c → s.now.secs ≤ c.secs

theorem Forward.now_le {s s' : System n} {e : Event n} (h : Forward s e s') :
    s.now.secs ≤ s'.now.secs := by
  obtain ⟨rfl, hclock⟩ := h
  cases e with
  | tick c => exact hclock c rfl
  | insert t r => rw [System.step]; split <;> exact le_rfl
  | work k i => exact le_rfl

theorem now_le_of_run {s s' : System n} {es : List (Event n)} (h : Run Forward s es s') :
    s.now.secs ≤ s'.now.secs :=
  h.relates (R := fun a b : System n => a.now.secs ≤ b.now.secs) (fun _ => le_rfl)
    (fun hab hbc => hab.trans hbc) fun _ _ _ => Forward.now_le

/-- Events that do not move the clock make a run. -/
theorem run_forward_after : ∀ (es : List (Event n)) (s : System n),
    (∀ e ∈ es, ∀ c, e ≠ .tick c) → Run Forward s es (s.after es) := by
  intro es
  induction es with
  | nil => intro s _; exact .nil s
  | cons e es ih =>
    intro s h
    refine .cons ⟨rfl, fun c hc => absurd hc (h e List.mem_cons_self c)⟩ ?_
    exact ih _ fun e' he' => h e' (List.mem_cons_of_mem _ he')

/-! ### The invariant -/

/-- The ages and limits are those of `workers`, and the cutoff in a query about to
run lies behind the clock by at least the age. -/
structure Policy (workers : Fin n → Worker) (s : System n) : Prop where
  /-- No age has changed. -/
  maxAge : ∀ k, (s.procs k).worker.maxAge = (workers k).maxAge
  /-- No limit has changed. -/
  maxLimit : ∀ k, (s.procs k).worker.maxLimit = (workers k).maxLimit
  /-- The cutoff of a `DELETE` that is next lies behind the clock. -/
  cutoff : ∀ k t, (s.procs k).pc.deletes = some t →
    (s.procs k).cutoff.toInt ≤ s.now.secs - ((workers k).maxAge t).toInt

variable {workers : Fin n → Worker} {s s' : System n} {es : List (Event n)} {e : Event n}

theorem policy_start (now : Clock) (db : Tables) (workers : Fin n → Worker) :
    Policy workers (.start now db workers) := by
  refine ⟨fun k => rfl, fun k => rfl, fun k t h => ?_⟩
  simp [System.start, Proc.start, Pc.deletes] at h

/-- **Every step keeps to the policy.** -/
theorem Policy.step (hage : ∀ k t, InInt ((workers k).maxAge t).toInt) (h : Policy workers s)
    (hs : Forward s e s') : Policy workers s' := by
  have hnow := hs.now_le
  obtain ⟨rfl, -⟩ := hs
  refine ⟨?_, ?_, ?_⟩
  · refine System.procs_step_induction
      (P := fun k p => p.worker.maxAge = (workers k).maxAge) h.maxAge fun k i _ => ?_
    rw [Proc.maxAge_step, h.maxAge k]
  · refine System.procs_step_induction
      (P := fun k p => p.worker.maxLimit = (workers k).maxLimit) h.maxLimit fun k i _ => ?_
    rw [Proc.maxLimit_step, h.maxLimit k]
  · refine System.procs_step_induction (P := fun k p => ∀ t, p.pc.deletes = some t →
        p.cutoff.toInt ≤ (s.step e).now.secs - ((workers k).maxAge t).toInt) ?_ ?_
    · intro k t hpc
      have hcutoff := h.cutoff k t hpc
      omega
    · -- the worker has just computed its cutoff, from a reading not ahead of the clock
      intro k i _ t hpc
      rw [Proc.cutoff_step hpc, h.maxAge k, Clock.secs_sub _ (hage k t)]
      omega

theorem policy_of_run (hage : ∀ k t, InInt ((workers k).maxAge t).toInt) (h : Run Forward s es s')
    (h₀ : Policy workers s) : Policy workers s' :=
  h.invariant (fun _ _ _ hp hs => hp.step hage hs) h₀

/-! ### What a step deletes -/

/-- **A row leaves a table only by a `DELETE`**, and is older than that worker's
age at that moment. -/
theorem Policy.lt_of_deleted (h : Policy workers s) {t : Table} {r : Row} (hr : r ∈ s.db t)
    (hgone : r ∉ (s.step e).db t) :
    ∃ k i, e = .work k i ∧ (s.procs k).pc = .delete t ∧
      r.createTs < s.now.secs - ((workers k).maxAge t).toInt := by
  have hstep := System.stock_step s e t
  generalize hafter : (s.step e).stock t = after at hstep
  have hlive : r ∉ after.live := by
    rw [← hafter]
    exact hgone
  cases hstep with
  | same => exact absurd hr hlive
  | insert r' _ => exact absurd (Finset.mem_union_left _ hr) hlive
  | delete k i R hpc hR =>
    have hin : r ∈ R := by
      by_contra hout
      exact hlive (Finset.mem_sdiff.mpr ⟨hr, hout⟩)
    refine ⟨k, i, rfl, ?_, (hR.key_lt hin).trans_le (h.cutoff k t hpc)⟩
    cases hp : (s.procs k).pc <;> simp_all [Pc.deletes]

/-- **A `DELETE` removes at most the worker's limit**, and leaves the other table
as it was. -/
theorem Policy.deleted_le (h : Policy workers s) {k : Fin n} {t : Table}
    (hpc : (s.procs k).pc = .delete t) (i : Input) :
    (s.db t \ (s.step (.work k i)).db t).card ≤ ((workers k).maxLimit t).toNat ∧
      ∀ u, u ≠ t → (s.step (.work k i)).db u = s.db u := by
  have hdeletes : (s.procs k).pc.deletes = some t := by rw [hpc]; rfl
  have hdb : (s.step (.work k i)).db = (t.deleteBefore (s.procs k).cutoff
      ((s.procs k).worker.maxLimit t) i.picker i.attempt s.db).tables :=
    Proc.step_of_delete hdeletes
  rw [hdb, ← h.maxLimit k]
  exact ⟨DBI.card_removed_le t, fun u hu => DBI.tables_deleteBefore_of_ne hu⟩

/-! ### What a run deletes -/

/-- **A run does batches to a table**, all bounded by the clock less any age that
no worker's is below. -/
theorem run_stock (hage : ∀ k t, InInt ((workers k).maxAge t).toInt) (t : Table) {m : ℤ}
    (hm : ∀ k, m ≤ ((workers k).maxAge t).toInt) (h : Run Forward s es s')
    (h₀ : Policy workers s) :
    ∃ os, Run (Step Row.createTs) (s.stock t) os (s'.stock t) ∧
      ∀ c limit R, Op.prune c limit R ∈ os → c ≤ s'.now.secs - m := by
  induction h with
  | nil s => exact ⟨[], .nil _, by simp⟩
  | @cons s s₁ s' e es hs hrun ih =>
    obtain ⟨os, hos, hbound⟩ := ih (h₀.step hage hs)
    have hnow : s.now.secs ≤ s'.now.secs := hs.now_le.trans (now_le_of_run hrun)
    obtain ⟨rfl, -⟩ := hs
    have hstep := System.stock_step s e t
    generalize (s.step e).stock t = after at hstep hos
    cases hstep with
    | same => exact ⟨os, hos, hbound⟩
    | insert r hnew =>
      refine ⟨.arrive {r} :: os, .cons ⟨hnew, rfl⟩ hos, ?_⟩
      simpa using hbound
    | delete k i R hpc hR =>
      refine ⟨.prune _ _ R :: os, .cons ⟨hR, rfl⟩ hos, ?_⟩
      intro c limit R' hmem
      rcases List.mem_cons.mp hmem with heq | hmem
      · obtain ⟨rfl, -, -⟩ := Op.prune.inj heq
        have hcutoff := h₀.cutoff k t hpc
        have hmk := hm k
        omega
      · exact hbound c limit R' hmem

/-- What a client has inserted was once in the table. -/
theorem mem_ever_of_run {t : Table} {r : Row} (h : Run Forward s es s')
    (hr : r ∈ s.ever t ∨ Event.insert t r ∈ es) : r ∈ s'.ever t := by
  induction h with
  | nil s => simpa using hr
  | @cons s s₁ s' e es hs _ ih =>
    obtain ⟨rfl, -⟩ := hs
    apply ih
    rcases hr with hr | hr
    · exact Or.inl (System.ever_step_subset s e t hr)
    · rcases List.mem_cons.mp hr with rfl | hr
      · exact Or.inl (System.mem_ever_insert s t r)
      · exact Or.inr hr

/-- **No row younger than every worker's age is ever deleted.**  In every state a
run reaches: a row leaves a table only by a worker's `DELETE` from that table, and
is then older than that worker's age; one `DELETE` removes at most the worker's
limit and leaves the other table alone; and every row of a table, there at first or
inserted, that is not older than the smallest age is still there. -/
theorem retention_safe (now : Clock) (db : Tables) (workers : Fin n → Worker)
    (hage : ∀ k t, InInt ((workers k).maxAge t).toInt) (es : List (Event n)) (s : System n)
    (h : Run Forward (.start now db workers) es s) :
    (∀ e s', Forward s e s' → ∀ t, ∀ r ∈ s.db t, r ∉ s'.db t →
      ∃ k i, e = .work k i ∧ (s.procs k).pc = .delete t ∧
        r.createTs < s.now.secs - ((workers k).maxAge t).toInt) ∧
    (∀ k i t, (s.procs k).pc = .delete t → ∀ s', Forward s (.work k i) s' →
      (s.db t \ s'.db t).card ≤ ((workers k).maxLimit t).toNat ∧
        ∀ u, u ≠ t → s'.db u = s.db u) ∧
    ∀ t m, (∀ k, m ≤ ((workers k).maxAge t).toInt) →
      ∀ r, r ∈ db t ∨ Event.insert t r ∈ es → s.now.secs - m ≤ r.createTs → r ∈ s.db t := by
  have hpolicy := policy_of_run hage h (policy_start now db workers)
  refine ⟨?_, ?_, ?_⟩
  · rintro e _ ⟨rfl, -⟩ t r hr hgone
    exact hpolicy.lt_of_deleted hr hgone
  · rintro k i t hpc _ ⟨rfl, -⟩
    exact hpolicy.deleted_le hpc i
  · intro t m hm r hr hts
    obtain ⟨os, hos, hbound⟩ := run_stock hage t hm h (policy_start now db workers)
    have hever : r ∈ (s.stock t).ever := mem_ever_of_run h hr
    exact live_of_bounds_le hos hbound rfl hever hts

/-- A worker with an age of ten days meets a row of five days and an older one. -/
theorem young_row_kept :
    let now : Clock := .ofEpoch 2000000
    let db : Tables := fun _ => {⟨1, 1000000, []⟩, ⟨2, 1568000, []⟩}
    let w := Worker.construct ⟨1, "localhost:61613", "", "", "", "localhost", "", "", ""⟩
      (.still now)
    let i : Input := ⟨.still now, "localhost:61613", true, Picker.inOrder, .succeeds, "0"⟩
    let s := (System.start (n := 1) now db fun _ => w).after (List.replicate 6 (.work 0 i))
    ⟨2, 1568000, []⟩ ∈ s.db .packet := by
  intro now db w i s
  have hrun := run_forward_after (List.replicate 6 (.work 0 i))
    (System.start (n := 1) now db fun _ => w) (by
      intro e he c
      rw [List.eq_of_mem_replicate he]
      simp)
  have hage : ∀ (k : Fin 1) t, InInt (w.maxAge t).toInt := by
    intro _ t
    cases t <;> decide
  refine (retention_safe now db (fun _ => w) hage _ s hrun).2.2 .packet 864000 ?_ _ ?_ ?_
  · intro _
    decide
  · exact Or.inl (by decide)
  · decide +kernel

end AprsPruner
