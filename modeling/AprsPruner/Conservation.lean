import AprsPruner.App
import AprsPruner.Lib.Tally
import AprsPruner.System

/-!
# Every deleted row is counted once in either window

Each worker reports its deletions twice: as datapoints, from `_stompstats`, and in
the log, from `_stats`.  The windows close at different times, and a count that the
store has returned reaches them in different statements.  What a worker has
reported, what waits in the window and what is still on its way to it are together
the rows it has deleted, as long as every `commit()` succeeds.  The counters have
32 bits, so the equation is one modulo `2 ^ 32`.

## Main definitions

* `Window`, `Pc.awaits` — the two windows, and the counts on their way to them.
* `Proc.total`, `System.total` — what is reported, waiting or on its way.
* `System.removed` — the rows that the workers have deleted.

## Main results

* `Proc.total_step` — **a step of a worker counts the rows it deletes.**
* `deletions_conserved` — every deleted row is counted once in either window.
-/

namespace AprsPruner

open BatchPrune Tally

/-! ### What a worker has counted -/

/-- The two windows: `_stompstats` is published, `_stats` is printed. -/
inductive Window where
  /-- `_stompstats`, with what has been published of it. -/
  | published : Window
  /-- `_stats`, with what has been printed of it. -/
  | printed : Window
  deriving DecidableEq, Repr

/-- The store has returned the table's count, and it is not yet in the window. -/
def Pc.awaits (t : Table) : Window → Pc → Bool
  | _, .cutoff .raw | _, .delete .raw => t = .packet
  | _, .addStompstats .packet => true
  | .published, .addStompstats .raw => t = .raw
  | .printed, .addStompstats .raw | .printed, .addStats .packet => true
  | .printed, .addStats .raw => t = .raw
  | _, _ => false

namespace Proc

/-- What a worker has reported from a window. -/
def reported (p : Proc) (t : Table) : Window → ℕ
  | .published => publishedFor t p.published
  | .printed => printedFor t p.printed

/-- What waits in a window. -/
def waiting (p : Proc) (t : Table) : Window → UInt32
  | .published => p.worker.stompstats.deleted t
  | .printed => p.worker.stats.deleted t

/-- What is still on its way to a window. -/
def onItsWay (p : Proc) (t : Table) (win : Window) : ℕ :=
  if p.pc.awaits t win then (p.numDeleted t).toNat else 0

/-- What a worker has counted: reported, waiting or on its way. -/
def total (p : Proc) (t : Table) (win : Window) : ℕ :=
  p.reported t win + (p.waiting t win).toNat + p.onItsWay t win

variable {i : Input} {now : Clock} {p : Proc} {db : Tables} {t : Table}

/-- **A step of a worker counts the rows it deletes**, if its `commit()` succeeds. -/
theorem total_step (p : Proc) (now : Clock) (db : Tables) (t : Table) (win : Window)
    (hcommit : i.attempt.commit = none) :
    (p.step i now db).1.total t win ≡
      p.total t win + (db t \ (p.step i now db).2 t).card [MOD 2 ^ 32] := by
  obtain ⟨w, pc, cutoff, num, pub, prin, log⟩ := p
  unfold total reported waiting onItsWay
  cases pc with
  | tryStompstats =>
    -- what leaves the window is published
    have hpublish := deleted_tryStompstats i.stats w t
    refine congrArg (· % 2 ^ 32) ?_
    cases win with
    | published => simp [step, Pc.awaits, Pc.next]; omega
    | printed => simp [step, Pc.awaits, Pc.next]
  | reportStats =>
    -- what leaves the window is printed
    have hprint := deleted_reportStats i.stats i.connectedTo w t
    refine congrArg (· % 2 ^ 32) ?_
    cases win with
    | published => simp [step, Pc.awaits, Pc.next]
    | printed => simp [step, Pc.awaits, Pc.next]; omega
  | delete u =>
    -- the count the store returns is on its way to both windows
    have hcount :
        (u.deleteBefore cutoff (w.maxLimit u) i.picker i.attempt db).numAffectedRows.toNat =
          (db u \ (u.deleteBefore cutoff (w.maxLimit u) i.picker i.attempt db).tables u).card :=
      DBI.numAffectedRows_of_commit u hcommit
    have hother : ∀ v, v ≠ u →
        (u.deleteBefore cutoff (w.maxLimit u) i.picker i.attempt db).tables v = db v :=
      fun v hv => DBI.tables_deleteBefore_of_ne hv
    refine congrArg (· % 2 ^ 32) ?_
    cases u <;> cases t <;> cases win <;> simp [step, Pc.awaits, Pc.next, hcount, hother]
  | addStompstats u =>
    have hadd := w.deleted_addStompstats (t := u) (u := t) (n := num u)
    cases u <;> cases t <;> cases win <;>
      simp [step, Pc.awaits, Pc.next, hadd, toNat_addSize, Nat.ModEq, Nat.add_assoc]
  | addStats u =>
    have hadd := w.deleted_addStats (t := u) (u := t) (n := num u)
    cases u <;> cases t <;> cases win <;>
      simp [step, Pc.awaits, Pc.next, hadd, toNat_addSize, Nat.ModEq, Nat.add_assoc]
  | isNext =>
    refine congrArg (· % 2 ^ 32) ?_
    cases hnext : i.isNext <;> cases win <;> simp [step, Pc.awaits, Pc.next, hnext]
  | cutoff u =>
    refine congrArg (· % 2 ^ 32) ?_
    cases u <;> cases win <;> simp [step, Pc.awaits, Pc.next]
  | storeTryStats | logDeletes | sleep =>
    refine congrArg (· % 2 ^ 32) ?_
    cases win <;> simp [step, Pc.awaits, Pc.next]

end Proc

/-! ### What all workers have counted -/

namespace System

variable {n : ℕ}

/-- What all workers together have counted of a table's deletions in a window. -/
def total (s : System n) (t : Table) (win : Window) : ℕ := ∑ k, (s.procs k).total t win

/-- The number of rows that the events `es` remove from a table. -/
def removed (s : System n) (es : List (Event n)) (t : Table) : ℕ :=
  tally step (fun s e => (s.db t \ (s.step e).db t).card) s es

end System

/-- The attempt of a worker's step, should it run a query, does not fail at `commit()`. -/
def Event.Commits {n : ℕ} : Event n → Prop
  | .work _ i => i.attempt.commit = none
  | _ => True

namespace System

variable {n : ℕ} {s : System n}

/-- **A step of the system counts the rows it removes.** -/
theorem total_step (s : System n) (e : Event n) (t : Table) (win : Window) (he : e.Commits) :
    (s.step e).total t win ≡ s.total t win + (s.db t \ (s.step e).db t).card [MOD 2 ^ 32] := by
  cases e with
  | tick c =>
    rw [show (s.step (.tick c)).db = s.db from rfl, Finset.sdiff_self]
    exact Nat.ModEq.refl _
  | insert u r =>
    have hkeep : s.db t ⊆ (s.step (.insert u r)).db t := by
      rw [step]
      split
      · exact Finset.Subset.refl _
      · rcases eq_or_ne t u with rfl | hne
        · simp only [addRow, Function.update_self]
          exact Finset.subset_insert _ _
        · simp only [addRow, Function.update_of_ne hne]
          exact Finset.Subset.refl _
    have hprocs : (s.step (.insert u r)).procs = s.procs :=
      procs_step_of_not_work fun k i => by simp
    rw [Finset.sdiff_eq_empty_iff_subset.mpr hkeep, total, hprocs]
    exact Nat.ModEq.refl _
  | work k i =>
    exact sum_update_modEq (fun p : Proc => p.total t win) s.procs k _
      ((s.procs k).total_step s.now s.db t win he)

/-- The rows removed are those that were once there and are no longer. -/
theorem card_gone_step (s : System n) (e : Event n) (t : Table) :
    ((s.step e).stock t).gone.card =
      (s.stock t).gone.card + (s.db t \ (s.step e).db t).card := by
  have hstep := stock_step s e t
  have hdb : (s.step e).db t = ((s.step e).stock t).live := rfl
  rw [hdb]
  generalize (s.step e).stock t = after at hstep
  cases hstep with
  | same =>
    rw [show (s.stock t).live = s.db t from rfl, Finset.sdiff_self, Finset.card_empty,
      Nat.add_zero]
  | insert r hnew =>
    have hkeep : s.db t ⊆ ((s.stock t).arrive {r}).live := Finset.subset_union_left
    rw [Stock.gone_arrive hnew, Finset.sdiff_eq_empty_iff_subset.mpr hkeep, Finset.card_empty,
      Nat.add_zero]
  | delete k i R _ hR =>
    have hback : s.db t \ ((s.stock t).remove R).live = R :=
      Finset.sdiff_sdiff_eq_self hR.subset_live
    rw [Stock.card_gone_remove hR.subset_live, hback]

/-- **The rows a run removes are those that were once there and are no longer.** -/
theorem removed_start (now : Clock) (db : Tables) (workers : Fin n → Worker)
    (es : List (Event n)) (t : Table) :
    (start now db workers).removed es t =
      (((start now db workers).after es).ever t \ ((start now db workers).after es).db t).card := by
  have hgone := eq_add_tally (fun s : System n => (s.stock t).gone.card)
    (fun s e => card_gone_step s e t) es (start now db workers)
  have hnone : ((start now db workers).stock t).gone = ∅ := Finset.sdiff_self _
  rw [hnone, Finset.card_empty, Nat.zero_add] at hgone
  exact hgone.symm

end System

/-! ### Conservation -/

/-- The windows of the worker are as the constructor leaves them. -/
def Worker.New (w : Worker) : Prop :=
  ∃ args m, w.stats = (construct args m).stats ∧ w.stompstats = (construct args m).stompstats

theorem App.new_workerThread (cfg : Config) (id : UInt32) (console : Bool) (m : Startup) :
    (App.workerThread cfg id console m).New := ⟨workerArgs cfg id, m, rfl, rfl⟩

theorem total_start {n : ℕ} (now : Clock) (db : Tables) {workers : Fin n → Worker}
    (hnew : ∀ k, (workers k).New) (t : Table) (win : Window) :
    (System.start now db workers).total t win = 0 := by
  refine Finset.sum_eq_zero fun k _ => ?_
  obtain ⟨args, m, hstats, hstompstats⟩ := hnew k
  cases t <;> cases win <;>
    simp [System.start, Proc.start, Proc.total, Proc.reported, Proc.waiting, Proc.onItsWay,
      publishedFor, printedFor, Pc.awaits, hstats, hstompstats, Worker.construct, initStats,
      initStompstats, ObjStats.deleted, ObjStompstats.deleted]

/-- **Every deleted row is counted once in either window.**  In every state new
workers reach, whatever the clock shows and whichever queries fail before
`commit()`, what all workers have published of a table's deletions, with what
waits in `_stompstats` and what is on its way there, is modulo `2 ^ 32` the number
of rows removed from the table; and so is what they have printed, with what waits
in `_stats` and what is on its way there. -/
theorem deletions_conserved {n : ℕ} (now : Clock) (db : Tables) (workers : Fin n → Worker)
    (hnew : ∀ k, (workers k).New) (es : List (Event n)) (hes : ∀ e ∈ es, e.Commits) (t : Table) :
    let s := (System.start now db workers).after es
    ∑ k, (publishedFor t (s.procs k).published + ((s.procs k).worker.stompstats.deleted t).toNat +
        (s.procs k).onItsWay t .published) ≡ (System.start now db workers).removed es t
        [MOD 2 ^ 32] ∧
      ∑ k, (printedFor t (s.procs k).printed + ((s.procs k).worker.stats.deleted t).toNat +
        (s.procs k).onItsWay t .printed) ≡ (System.start now db workers).removed es t
        [MOD 2 ^ 32] ∧
      (System.start now db workers).removed es t = (s.ever t \ s.db t).card := by
  intro s
  have htotal : ∀ win, s.total t win ≡ (System.start now db workers).removed es t
      [MOD 2 ^ 32] := by
    intro win
    have hrun := modEq_add_tally (fun s : System n => s.total t win)
      (fun s e he => s.total_step e t win he) es (System.start now db workers) hes
    rwa [total_start now db hnew, Nat.zero_add] at hrun
  exact ⟨htotal .published, htotal .printed, System.removed_start now db workers es t⟩

/-- Two workers meet an old row; the first is about to add its count to `_stats`
when the second finds none. -/
theorem two_workers_count_once :
    let now : Clock := .ofEpoch 2000000
    let db : Tables := fun _ => {⟨1, 1000000, []⟩}
    let w (k : Fin 2) : Worker := App.workerThread (.ofInt "app.threads.worker" 2)
      (UInt32.ofNat (k + 1)) false (.still now)
    let i : Input := ⟨.still now, "localhost:61613", true, Picker.inOrder, .succeeds, "0"⟩
    let es : List (Event 2) := List.replicate 10 (.work 0 i) ++ List.replicate 6 (.work 1 i)
    ((System.start now db w).after es).total .packet .published ≡
      (System.start now db w).removed es .packet [MOD 2 ^ 32] := by
  intro now db w i es
  have hcommits : ∀ e ∈ es, e.Commits := by
    intro e he
    rcases List.mem_append.mp he with he | he <;> rw [List.eq_of_mem_replicate he] <;> rfl
  exact (deletions_conserved now db w (fun k => App.new_workerThread _ _ _ _) es hcommits
    .packet).1

end AprsPruner
