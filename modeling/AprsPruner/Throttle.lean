import AprsPruner.Lib.Pace
import AprsPruner.Settled

/-!
# How fast rows are deleted

After each pass a worker sleeps for `kDefaultDeleteInterval` seconds.  So between two of
its `DELETE`s from one table at least as many seconds pass on the clock, unless its sleep
is cut short: `sleep` returns early when the thread handles a signal.  A `DELETE` removes
no more than the limit, and so the limits and the sleeps bound what all workers delete in
a stretch of time, however the steps are ordered and whatever is due.

## Main definitions

* `TimedSystem` — the system, and when each worker came to the statement it is at.
* `TimedSystem.wokenEarly` — a sleep after which less time has passed on the clock.
* `TimedSystem.readyAt` — the time before which a worker runs no `DELETE`.

## Main results

* `TimedSystem.paced` — **the `DELETE`s of a worker keep their distance.**
* `deletions_throttled` — what is deleted in a stretch of time.
-/

namespace AprsPruner

open BatchPrune Transition Tally

/-- The system, and when each worker came to the statement it is at. -/
structure TimedSystem (n : ℕ) where
  /-- The system. -/
  sys : System n
  /-- When each worker came to its statement. -/
  since : Fin n → ℤ

namespace TimedSystem

variable {n : ℕ}

/-- All workers about to begin their first pass. -/
def start (now : Clock) (db : Tables) (workers : Fin n → Worker) : TimedSystem n :=
  ⟨.start now db workers, fun _ => now.secs⟩

/-- The reading of the clock. -/
def now (s : TimedSystem n) : ℤ := s.sys.now.secs

/-- A step brings a worker to its next statement. -/
def step (s : TimedSystem n) (e : Event n) : TimedSystem n :=
  ⟨s.sys.step e,
    match e with
    | .work k _ => Function.update s.since k s.now
    | _ => s.since⟩

/-- The clock does not go back. -/
def Ok (s : TimedSystem n) (e : Event n) : Prop := ∀ c, e = .tick c → s.now ≤ c.secs

/-- One step; the clock does not go back. -/
def Step (s : TimedSystem n) (e : Event n) (s' : TimedSystem n) : Prop := s' = s.step e ∧ s.Ok e

/-- A worker ends its sleep when fewer than `kDefaultDeleteInterval` seconds have passed on
the clock. -/
def wokenEarly (k : Fin n) (s : TimedSystem n) : Event n → ℕ
  | .work j _ =>
    if j = k ∧ (s.sys.procs k).pc = .sleep ∧
      s.now < s.since k + Worker.kDefaultDeleteInterval.toInt then 1 else 0
  | _ => 0

/-- A worker runs a `DELETE` from a table. -/
def deletes (k : Fin n) (t : Table) (s : TimedSystem n) : Event n → ℕ
  | .work j _ => if j = k ∧ (s.sys.procs k).pc = .delete t then 1 else 0
  | _ => 0

end TimedSystem

/-! ### When the next `DELETE` can come -/

/-- The time before which a worker runs no `DELETE` from a table, if it came to its
statement at `since`: a pass that is past its `DELETE` has all of its sleep to come. -/
def Pc.readyAt (t : Table) (since now : ℤ) (pc : Pc) : ℤ :=
  if pc.beforeDelete t then now
  else if pc = .sleep then max now (since + Worker.kDefaultDeleteInterval.toInt)
  else now + Worker.kDefaultDeleteInterval.toInt

theorem Worker.toInt_kDefaultDeleteInterval : kDefaultDeleteInterval.toInt = 10 := rfl

namespace Pc

variable {t : Table} {since now now' : ℤ} {pc : Pc}

theorem now_le_readyAt : now ≤ pc.readyAt t since now := by
  unfold readyAt
  rw [Worker.toInt_kDefaultDeleteInterval]
  split
  · exact le_rfl
  · split
    · exact le_max_left _ _
    · omega

theorem readyAt_le (h : since ≤ now) :
    pc.readyAt t since now ≤ now + Worker.kDefaultDeleteInterval.toInt := by
  unfold readyAt
  rw [Worker.toInt_kDefaultDeleteInterval]
  split
  · omega
  · split
    · exact max_le (by omega) (by omega)
    · exact le_rfl

/-- A later clock does not bring the next `DELETE` nearer. -/
theorem readyAt_mono (h : now ≤ now') : pc.readyAt t since now ≤ pc.readyAt t since now' := by
  unfold readyAt
  split
  · exact h
  · split
    · exact max_le_max_right _ h
    · omega

/-- **A worker's next statement**: a `DELETE` puts the next one off by a sleep, a sleep cut
short brings it nearer by no more, and nothing else does. -/
theorem readyAt_next (h : since ≤ now) (t : Table) (isNext : Bool) (pc : Pc) :
    pc.readyAt t since now + Worker.kDefaultDeleteInterval.toInt *
        ((if pc = .delete t then 1 else 0 : ℕ) : ℤ) ≤
      (pc.next isNext).readyAt t now now + Worker.kDefaultDeleteInterval.toInt *
        ((if pc = .sleep ∧ now < since + Worker.kDefaultDeleteInterval.toInt then 1 else 0 : ℕ) :
          ℤ) := by
  unfold readyAt
  rw [Worker.toInt_kDefaultDeleteInterval]
  cases pc with
  | sleep =>
    -- after the sleep a `DELETE` can come at any time
    rcases lt_or_ge now (since + 10) with hlt | hge
    · simp [next, beforeDelete, hlt]
      omega
    · simp [next, beforeDelete, not_lt.mpr hge, hge]
  | isNext => cases isNext <;> simp [next, beforeDelete]
  | cutoff u | delete u | addStompstats u | addStats u =>
    cases u <;> cases t <;> simp [next, beforeDelete]
  | _ => simp [next, beforeDelete]

end Pc

namespace TimedSystem

variable {n : ℕ} {s s' : TimedSystem n} {e : Event n} {es : List (Event n)}

/-- The time before which a worker runs no `DELETE` from a table. -/
def ready (k : Fin n) (t : Table) (s : TimedSystem n) : ℤ :=
  (s.sys.procs k).pc.readyAt t (s.since k) s.now

theorem now_step (h : s.Ok e) : s.now ≤ (s.step e).now :=
  Forward.now_le (s := s.sys) ⟨rfl, h⟩

/-- A step of another party leaves a worker at its statement. -/
theorem ready_step_of_not_work {k : Fin n} (t : Table) (h : s.Ok e) (he : ∀ i, e ≠ .work k i) :
    s.ready k t ≤ (s.step e).ready k t := by
  have hprocs : ((s.step e).sys.procs k) = s.sys.procs k := by
    cases e with
    | work j i => exact System.procs_work_of_ne (fun hk => he i (by rw [hk])) i
    | tick c => rfl
    | insert u r => exact congrFun (System.procs_insert s.sys u r) k
  have hsince : (s.step e).since k = s.since k := by
    cases e with
    | work j i => exact Function.update_of_ne (fun hk => he i (by rw [hk])) _ _
    | tick | insert => rfl
  unfold ready
  rw [hprocs, hsince]
  exact Pc.readyAt_mono (now_step h)

/-- **The `DELETE`s of a worker keep their distance**, but for the sleeps that are cut
short. -/
theorem paced (k : Fin n) (t : Table) :
    Paced step Ok (fun s => s.since k ≤ s.now) now (ready k t)
      Worker.kDefaultDeleteInterval.toInt (deletes k t) (wokenEarly k) where
  stays := by
    intro s e h hok
    have hnow := now_step hok
    cases e with
    | work j i =>
      rcases eq_or_ne k j with rfl | hne
      · rw [show (s.step (.work k i)).since k = s.now from Function.update_self _ _ _]
        exact hnow
      · rw [show (s.step (.work j i)).since k = s.since k from Function.update_of_ne hne _ _]
        exact h.trans hnow
    | tick | insert => exact h.trans hnow
  now_le _ _ := Pc.now_le_readyAt
  le_now_add _ h := Pc.readyAt_le h
  advances := by
    intro s e h hok
    by_cases he : ∀ i, e ≠ .work k i
    · have hnone : deletes k t s e = 0 ∧ wokenEarly k s e = 0 := by
        cases e with
        | work j i =>
          have hne : j ≠ k := fun hj => he i (by rw [hj])
          simp [deletes, wokenEarly, hne]
        | tick | insert => exact ⟨rfl, rfl⟩
      rw [hnone.1, hnone.2]
      simpa using ready_step_of_not_work t hok he
    · push Not at he
      obtain ⟨i, rfl⟩ := he
      have hprocs : ((s.step (.work k i)).sys.procs k).pc = (s.sys.procs k).pc.next i.isNext := by
        rw [show (s.step (.work k i)).sys = s.sys.step (.work k i) from rfl,
          System.procs_work_self, Proc.pc_step]
      have hsince : (s.step (.work k i)).since k = s.now := Function.update_self _ _ _
      have hnow : (s.step (.work k i)).now = s.now := rfl
      have hnext := Pc.readyAt_next h t i.isNext (s.sys.procs k).pc
      simpa only [ready, hprocs, hsince, hnow, deletes, wokenEarly, true_and] using hnext

/-! ### What is deleted -/

/-- Nobody's limits change. -/
def KeepsLimits (workers : Fin n → Worker) (s : TimedSystem n) : Prop :=
  ∀ k, (s.sys.procs k).worker.maxLimit = (workers k).maxLimit

variable {workers : Fin n → Worker}

theorem KeepsLimits.step (h : KeepsLimits workers s) (e : Event n) :
    KeepsLimits workers (s.step e) := by
  refine System.procs_step_induction
    (P := fun k p => p.worker.maxLimit = (workers k).maxLimit) h fun k i _ => ?_
  rw [Proc.maxLimit_step, h k]

/-- A step removes no more than the limits of the `DELETE`s it runs. -/
theorem KeepsLimits.card_removed_le (h : KeepsLimits workers s) (e : Event n) (t : Table) :
    (s.sys.db t \ (s.step e).sys.db t).card ≤
      ∑ k, ((workers k).maxLimit t).toNat * deletes k t s e := by
  rcases System.removed_step s.sys e t with hnone | ⟨k, i, rfl, hpc, hcard⟩
  · show (s.sys.db t \ (s.sys.step e).db t).card ≤ _
    rw [hnone, Finset.card_empty]
    exact Nat.zero_le _
  · have hone : deletes k t s (.work k i) = 1 := by simp [deletes, hpc]
    have hterm := Finset.single_le_sum
      (f := fun j => ((workers j).maxLimit t).toNat * deletes j t s (.work k i))
      (fun _ _ => Nat.zero_le _) (Finset.mem_univ k)
    rw [h k] at hcard
    refine hcard.trans ?_
    simpa [hone] using hterm

/-- A run removes no more than the limits of all the `DELETE`s in it. -/
theorem card_gone_le (h : Run Step s es s') (h₀ : KeepsLimits workers s) (t : Table) :
    (s'.sys.ever t \ s'.sys.db t).card ≤ (s.sys.ever t \ s.sys.db t).card +
      ∑ k, ((workers k).maxLimit t).toNat * tally step (deletes k t) s es := by
  induction h with
  | nil => exact Nat.le_add_right _ _
  | @cons s _ _ e es hs _ ih =>
    obtain ⟨rfl, -⟩ := hs
    have hrest := ih (h₀.step e)
    have hfirst := h₀.card_removed_le e t
    have hgone : ((s.step e).sys.ever t \ (s.step e).sys.db t).card =
        (s.sys.ever t \ s.sys.db t).card + (s.sys.db t \ (s.step e).sys.db t).card :=
      System.gone_step s.sys e t
    simp only [tally, Nat.mul_add, Finset.sum_add_distrib]
    omega

end TimedSystem

open TimedSystem in
/-- **What is deleted in a stretch of time.**  In any part of any run whose clock does not go
back: from a table no more rows go than each worker's limit once for every ten seconds in it,
and once more, and once for each of its sleeps after which fewer than ten seconds have passed
on the clock. -/
theorem deletions_throttled {n : ℕ} (now : Clock) (db : Tables) (workers : Fin n → Worker)
    (before es : List (Event n)) (s s' : TimedSystem n)
    (h₀ : Run Step (.start now db workers) before s) (h : Run Step s es s') (t : Table) :
    (s'.sys.ever t \ s'.sys.db t).card ≤ (s.sys.ever t \ s.sys.db t).card +
      ∑ k, ((workers k).maxLimit t).toNat *
        (((s'.now - s.now) / Worker.kDefaultDeleteInterval.toInt).toNat + 1 +
          tally step (wokenEarly k) s es) := by
  have hlimits : KeepsLimits workers s := by
    refine h₀.invariant (P := KeepsLimits workers) ?_ fun _ => rfl
    rintro a e _ hk ⟨rfl, -⟩
    exact hk.step e
  refine (card_gone_le h hlimits t).trans (Nat.add_le_add_left (Finset.sum_le_sum fun k _ => ?_) _)
  have hstays : ∀ a e b, a.since k ≤ a.now → Step a e b → b.since k ≤ b.now := by
    rintro a e _ ha ⟨rfl, hok⟩
    exact (paced k t).stays a e ha hok
  have hsince : s.since k ≤ s.now := h₀.invariant hstays le_rfl
  refine Nat.mul_le_mul_left _ ((paced k t).tally_le ?_ h hsince (h.invariant hstays hsince))
  rw [Worker.toInt_kDefaultDeleteInterval]
  decide

open TimedSystem in
/-- A worker runs its first `DELETE`: at once no more than its limit goes. -/
theorem one_delete_throttled :
    let now : Clock := .ofEpoch 2000000
    let db : Tables := fun _ => {⟨1, 1000000, []⟩, ⟨2, 1568000, []⟩}
    let w := Worker.construct ⟨1, "localhost:61613", "", "", "", "localhost", "", "", ""⟩
      (.still now)
    let i : Input := ⟨.still now, "localhost:61613", true, Picker.inOrder, .succeeds, "0"⟩
    let s₀ : TimedSystem 1 := start now db fun _ => w
    let es : List (Event 1) := List.replicate 6 (.work 0 i)
    let s := es.foldl step s₀
    tally step (deletes 0 .packet) s₀ es = 1 ∧
      (s.sys.ever .packet \ s.sys.db .packet).card ≤
        (s₀.sys.ever .packet \ s₀.sys.db .packet).card +
        ∑ k : Fin 1, (w.maxLimit .packet).toNat *
          (((s.now - s₀.now) / Worker.kDefaultDeleteInterval.toInt).toNat + 1 +
            tally step (wokenEarly k) s₀ es) := by
  intro now db w i s₀ es s
  have hok : ∀ a : TimedSystem 1, a.Ok (.work 0 i) := fun _ _ => nofun
  have hrun : Run Step s₀ es s :=
    .cons ⟨rfl, hok _⟩ <| .cons ⟨rfl, hok _⟩ <| .cons ⟨rfl, hok _⟩ <| .cons ⟨rfl, hok _⟩ <|
      .cons ⟨rfl, hok _⟩ <| .cons ⟨rfl, hok _⟩ <| .nil _
  exact ⟨rfl, deletions_throttled now db (fun _ => w) [] es s₀ s (.nil _) hrun .packet⟩

end AprsPruner
