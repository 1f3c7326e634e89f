import AprsPruner.Lib.Run
import AprsPruner.Worker

/-!
# The workers, the other clients and the clock

Any number of workers take their passes over the shared tables, other clients
insert rows and the clock moves, in any order.  A pass is cut where another party
could come between: computing the cutoff, running the `DELETE` and counting the
rows are different steps.  A transaction takes effect in one step, the one that
runs its `DELETE`.

## Main definitions

* `Pc`, `Proc`, `Proc.step` — a worker in the middle of a pass, and its next step.
* `System`, `Event`, `System.step` — all parties together.
* `System.stock` — a table as a stock of rows.

## Main results

* `solo_eq_run` — **a pass without interruptions is `Worker.run`.**
* `System.stock_step` — what one step can do to a table.
-/

namespace AprsPruner

open BatchPrune Transition

/-! ### A worker in the middle of a pass -/

/-- Where a worker is in `Worker::run`.  The cutoff is computed while the query is
composed, the count of a deletion is added to either window in its own statement. -/
inductive Pc where
  /-- `try_stompstats()` -/
  | tryStompstats : Pc
  /-- The rest of `try_stats`. -/
  | reportStats : Pc
  /-- `_store->try_stats()` -/
  | storeTryStats : Pc
  /-- `_delete_intval->is_next()` -/
  | isNext : Pc
  /-- `time(NULL) - age` -/
  | cutoff (t : Table) : Pc
  /-- The transaction around the `DELETE`. -/
  | delete (t : Table) : Pc
  /-- The addition to `_stompstats`. -/
  | addStompstats (t : Table) : Pc
  /-- The addition to `_stats`. -/
  | addStats (t : Table) : Pc
  /-- The line about the rows deleted. -/
  | logDeletes : Pc
  /-- `sleep(kDefaultDeleteInterval)` -/
  | sleep : Pc
  deriving DecidableEq, Repr

/-- Where the next statement is, given the answer of the timer. -/
def Pc.next (isNext : Bool) : Pc → Pc
  | .tryStompstats => .reportStats
  | .reportStats => .storeTryStats
  | .storeTryStats => .isNext
  | .isNext => if isNext then .cutoff .packet else .sleep
  | .cutoff t => .delete t
  | .delete .packet => .cutoff .raw
  | .delete .raw => .addStompstats .packet
  | .addStompstats .packet => .addStompstats .raw
  | .addStompstats .raw => .addStats .packet
  | .addStats .packet => .addStats .raw
  | .addStats .raw => .logDeletes
  | .logDeletes => .sleep
  | .sleep => .tryStompstats

/-- A worker thread: its worker, where it is, the cutoff in its query, the counts
the store has returned in this pass, and all it has published, printed and logged. -/
structure Proc where
  /-- The worker. -/
  worker : Worker
  /-- Where it is. -/
  pc : Pc
  /-- The cutoff in its query. -/
  cutoff : Int64
  /-- The counts the store has returned in this pass. -/
  numDeleted : Table → UInt64
  /-- What it has published. -/
  published : List Datapoint
  /-- What it has printed. -/
  printed : List Report
  /-- What it has logged. -/
  log : List LogLine

/-- What a step learns from outside.  A step uses only what it asks for. -/
structure Input where
  /-- The readings of `try_stats`. -/
  stats : StatsReadings
  /-- The host that the report names. -/
  connectedTo : String
  /-- The answer of the timer. -/
  isNext : Bool
  /-- MySQL's choice of rows. -/
  picker : Picker
  /-- How the attempt goes. -/
  attempt : Attempt
  /-- The milliseconds the stopwatch shows. -/
  elapsed : String

namespace Proc

/-- A worker about to begin its first pass. -/
def start (w : Worker) : Proc where
  worker := w
  pc := .tryStompstats
  cutoff := 0
  numDeleted _ := 0
  published := []
  printed := []
  log := []

/-- The next step of a worker, and the tables it leaves. -/
def step (i : Input) (now : Clock) (p : Proc) (db : Tables) : Proc × Tables :=
  let p' := { p with pc := p.pc.next i.isNext }
  match p.pc with
  | .tryStompstats =>
    let res := p.worker.tryStompstats i.stats
    ({ p' with worker := res.1, published := p.published ++ res.2 }, db)
  | .reportStats =>
    let res := p.worker.reportStats i.stats i.connectedTo
    ({ p' with worker := res.1, printed := p.printed ++ res.2.toList }, db)
  | .cutoff t => ({ p' with cutoff := now.time - p.worker.maxAge t }, db)
  | .delete t =>
    let res := t.deleteBefore p.cutoff (p.worker.maxLimit t) i.picker i.attempt db
    ({ p' with
        numDeleted := Function.update p.numDeleted t res.numAffectedRows
        log := p.log ++ res.log }, res.tables)
  | .addStompstats t => ({ p' with worker := p.worker.addStompstats t (p.numDeleted t) }, db)
  | .addStats t => ({ p' with worker := p.worker.addStats t (p.numDeleted t) }, db)
  | .logDeletes =>
    ({ p' with
        log := p.log ++ deletesLine (p.numDeleted .packet) (p.numDeleted .raw) i.elapsed }, db)
  | .storeTryStats | .isNext | .sleep => (p', db)

/-- Several steps of one worker, with no other party between them. -/
def steps : List (Input × Clock) → Proc → Tables → Proc × Tables
  | [], p, db => (p, db)
  | (i, now) :: is, p, db => steps is (p.step i now db).1 (p.step i now db).2

end Proc

/-! ### A pass without interruptions -/

/-- What the steps of a pass learn, at the statement for a table. -/
def DeletesInput.at (i : DeletesInput) (r : StatsReadings) (connectedTo : String) (t : Table) :
    Input × Clock :=
  (⟨r, connectedTo, i.isNext, i.picker t, i.attempt t, i.elapsed⟩, i.now t)

/-- The steps of a whole pass. -/
def soloInputs (r : StatsReadings) (connectedTo : String) (i : DeletesInput) :
    List (Input × Clock) :=
  let atPacket := i.at r connectedTo .packet
  let atRaw := i.at r connectedTo .raw
  -- both reports, the store's report and the timer
  [atPacket, atPacket, atPacket, atPacket] ++
    (if i.isNext then
      -- both deletions, the four additions and the line about them
      [atPacket, atPacket, atRaw, atRaw, atRaw, atRaw, atRaw, atRaw, atRaw]
    else []) ++ [atRaw]

/-- **A pass without interruptions is `Worker.run`.** -/
theorem solo_eq_run (r : StatsReadings) (connectedTo : String) (i : DeletesInput) (p : Proc)
    (db : Tables) (hp : p.pc = .tryStompstats) :
    let left := Proc.steps (soloInputs r connectedTo i) p db
    let run := p.worker.run r connectedTo i db
    left.2 = run.tables ∧ left.1.worker = run.worker ∧ left.1.pc = .tryStompstats ∧
      left.1.published = p.published ++ run.published ∧
      left.1.printed = p.printed ++ run.printed.toList ∧ left.1.log = p.log ++ run.log := by
  obtain ⟨w, pc, cutoff, numDeleted, published, printed, log⟩ := p
  obtain rfl : pc = .tryStompstats := hp
  cases hnext : i.isNext with
  | false =>
    simp only [soloInputs, hnext, Worker.run, Worker.tryDeletes_of_not_isNext hnext]
    simp [Proc.steps, Proc.step, Pc.next, DeletesInput.at, hnext, Worker.tryStats]
  | true =>
    simp only [soloInputs, hnext, Worker.run, Worker.tryDeletes_of_isNext hnext, if_true]
    simp only [Proc.steps, Proc.step, Pc.next, DeletesInput.at, hnext, if_true,
      List.cons_append, List.nil_append]
    refine ⟨rfl, rfl, trivial, rfl, rfl, ?_⟩
    simp only [List.append_assoc]
    rfl

/-! ### What a step of a worker changes -/

/-- The table whose rows the statement deletes. -/
def Pc.deletes : Pc → Option Table
  | .delete t => some t
  | _ => none

namespace Proc

variable {i : Input} {now : Clock} {p : Proc} {db : Tables}

@[simp] theorem pc_step : (p.step i now db).1.pc = p.pc.next i.isNext := by
  unfold step
  split <;> rfl

/-- Ages and limits are settled before the first pass. -/
@[simp] theorem maxAge_step : (p.step i now db).1.worker.maxAge = p.worker.maxAge := by
  unfold step
  split <;> simp

@[simp] theorem maxLimit_step : (p.step i now db).1.worker.maxLimit = p.worker.maxLimit := by
  unfold step
  split <;> simp

/-- **A worker arrives at a `DELETE` with the cutoff it has just computed.** -/
theorem cutoff_step {t : Table} (h : (p.step i now db).1.pc.deletes = some t) :
    (p.step i now db).1.cutoff = now.time - p.worker.maxAge t := by
  rw [pc_step] at h
  cases hpc : p.pc with
  | cutoff u =>
    rw [hpc] at h
    obtain rfl : u = t := Option.some.inj h
    simp only [step, hpc]
  | isNext => rw [hpc, Pc.next] at h; split at h <;> simp [Pc.deletes] at h
  | delete u => rw [hpc] at h; cases u <;> simp [Pc.next, Pc.deletes] at h
  | addStompstats u => rw [hpc] at h; cases u <;> simp [Pc.next, Pc.deletes] at h
  | addStats u => rw [hpc] at h; cases u <;> simp [Pc.next, Pc.deletes] at h
  | _ => rw [hpc] at h; simp [Pc.next, Pc.deletes] at h

theorem step_of_delete {t : Table} (h : p.pc.deletes = some t) :
    (p.step i now db).2 =
      (t.deleteBefore p.cutoff (p.worker.maxLimit t) i.picker i.attempt db).tables := by
  have hpc : p.pc = .delete t := by
    cases hpc : p.pc <;> simp_all [Pc.deletes]
  simp only [step, hpc]

/-- **Only a `DELETE` changes the tables.** -/
theorem step_of_not_delete (h : p.pc.deletes = none) : (p.step i now db).2 = db := by
  unfold step
  split
  case h_4 hpc => rw [hpc] at h; simp [Pc.deletes] at h
  all_goals rfl

theorem tables_step_subset (t : Table) : (p.step i now db).2 t ⊆ db t := by
  cases h : p.pc.deletes with
  | none => rw [step_of_not_delete h]
  | some u =>
    rw [step_of_delete h]
    exact DBI.tables_deleteBefore_subset u t

end Proc

/-! ### All parties together -/

/-- The clock, the tables with all rows that were ever in them, and the workers. -/
structure System (n : ℕ) where
  /-- The clock. -/
  now : Clock
  /-- The rows that were ever in a table. -/
  ever : Tables
  /-- The tables. -/
  db : Tables
  /-- The worker threads. -/
  procs : Fin n → Proc
  /-- What is there was once inserted. -/
  subset : ∀ t, db t ⊆ ever t

/-- What happens next: the clock shows another time, a client inserts a row, or a
worker takes a step. -/
inductive Event (n : ℕ) where
  /-- The clock shows another time. -/
  | tick (c : Clock) : Event n
  /-- A client inserts a row. -/
  | insert (t : Table) (r : Row) : Event n
  /-- A worker takes a step. -/
  | work (k : Fin n) (i : Input) : Event n

namespace System

variable {n : ℕ}

/-- All workers about to begin their first pass, over the tables `db`. -/
def start (now : Clock) (db : Tables) (workers : Fin n → Worker) : System n where
  now := now
  ever := db
  db := db
  procs k := .start (workers k)
  subset _ := Finset.Subset.refl _

/-- The rows of a table with one more. -/
def addRow (t : Table) (r : Row) (rows : Tables) : Tables :=
  Function.update rows t (insert r (rows t))

theorem addRow_subset {t : Table} {r : Row} {rows rows' : Tables} (h : ∀ u, rows u ⊆ rows' u)
    (u : Table) : addRow t r rows u ⊆ addRow t r rows' u := by
  rcases eq_or_ne u t with rfl | hne
  · simp only [addRow, Function.update_self]
    exact Finset.insert_subset_insert r (h u)
  · simp only [addRow, Function.update_of_ne hne]
    exact h u

/-- One step of the system.  A row that was in the table before is not inserted
again: rows inserted later have other identities. -/
def step (s : System n) : Event n → System n
  | .tick c => { s with now := c }
  | .insert t r =>
    if r ∈ s.ever t then s
    else
      { s with
        ever := addRow t r s.ever
        db := addRow t r s.db
        subset := addRow_subset s.subset }
  | .work k i =>
    let res := (s.procs k).step i s.now s.db
    { s with
      db := res.2
      procs := Function.update s.procs k res.1
      subset := fun t => (Proc.tables_step_subset t).trans (s.subset t) }

/-- The state after a list of events. -/
def after (s : System n) (es : List (Event n)) : System n := es.foldl step s

/-- A table of the system as a stock of rows. -/
def stock (s : System n) (t : Table) : Stock Row := ⟨s.ever t, s.db t, s.subset t⟩

/-- What one step can do to a table: nothing, insert a new row, or delete a batch
of rows before the cutoff of a worker that is at its `DELETE`. -/
inductive TableStep (s : System n) (t : Table) : Event n → Stock Row → Prop
  /-- The table stays as it is. -/
  | same (e : Event n) : TableStep s t e (s.stock t)
  /-- A new row is inserted. -/
  | insert (r : Row) : Disjoint (s.ever t) {r} →
      TableStep s t (.insert t r) ((s.stock t).arrive {r})
  /-- A batch of rows is deleted. -/
  | delete (k : Fin n) (i : Input) (R : Finset Row) : (s.procs k).pc.deletes = some t →
      IsBatch Row.createTs (s.db t) (s.procs k).cutoff.toInt
        ((s.procs k).worker.maxLimit t).toNat R →
      TableStep s t (.work k i) ((s.stock t).remove R)

variable {s : System n} {e : Event n}

theorem stock_insert (s : System n) {t : Table} {r : Row} (hr : r ∉ s.ever t) :
    (s.step (.insert t r)).stock t = (s.stock t).arrive {r} := by
  have hnew : ∀ rows : Tables, addRow t r rows t = rows t ∪ {r} := fun rows => by
    rw [addRow, Function.update_self, Finset.insert_eq, Finset.union_comm]
  rw [step, if_neg hr]
  exact Stock.ext (hnew s.ever) (hnew s.db)

theorem stock_insert_of_ne (s : System n) {t u : Table} {r : Row} (h : t ≠ u) :
    (s.step (.insert u r)).stock t = s.stock t := by
  rw [step]
  split
  · rfl
  · exact Stock.ext (Function.update_of_ne h _ _) (Function.update_of_ne h _ _)

/-- **What one step can do to a table.** -/
theorem stock_step (s : System n) (e : Event n) (t : Table) :
    TableStep s t e ((s.step e).stock t) := by
  cases e with
  | tick c => exact .same _
  | insert u r =>
    by_cases hold : r ∈ s.ever u
    · have hsame : s.step (.insert u r) = s := by rw [step, if_pos hold]
      rw [hsame]
      exact .same _
    · rcases eq_or_ne t u with rfl | hne
      · rw [stock_insert s hold]
        exact .insert r (Finset.disjoint_singleton_right.mpr hold)
      · rw [stock_insert_of_ne s hne]
        exact .same _
  | work k i =>
    -- what was ever there does not change; what is there does only at a `DELETE`
    have hsame : ∀ db, ((s.procs k).step i s.now s.db).2 t = db → ∀ h,
        (s.step (.work k i)).stock t = ⟨s.ever t, db, h⟩ := by
      rintro _ rfl _
      rfl
    cases hpc : (s.procs k).pc.deletes with
    | none =>
      rw [hsame (s.db t) (by rw [Proc.step_of_not_delete hpc]) (s.subset t)]
      exact .same _
    | some u =>
      have hdb : ((s.procs k).step i s.now s.db).2 = (u.deleteBefore (s.procs k).cutoff
          ((s.procs k).worker.maxLimit u) i.picker i.attempt s.db).tables :=
        Proc.step_of_delete hpc
      by_cases hdel : t = u ∧ ¬ i.attempt.raises
      · obtain ⟨rfl, hok⟩ := hdel
        rw [hsame _ (by rw [hdb, DBI.tables_deleteBefore_self t hok])
          (Finset.sdiff_subset.trans (s.subset t))]
        exact .delete k i _ hpc (i.picker.isBatch _ _ _)
      · have hkeep : ((s.procs k).step i s.now s.db).2 t = s.db t := by
          rw [hdb]
          rcases eq_or_ne t u with rfl | hne
          · rw [DBI.tables_deleteBefore_of_raises t (not_not.mp fun h => hdel ⟨rfl, h⟩)]
          · exact DBI.tables_deleteBefore_of_ne hne
        rw [hsame _ hkeep (s.subset t)]
        exact .same _

theorem TableStep.ever_subset {t : Table} {after : Stock Row} (h : TableStep s t e after) :
    (s.stock t).ever ⊆ after.ever := by
  cases h with
  | same => exact Finset.Subset.refl _
  | insert r _ => exact Finset.subset_union_left
  | delete k i R _ _ => exact Finset.Subset.refl _

/-- Rows that were ever in a table stay known. -/
theorem ever_step_subset (s : System n) (e : Event n) (t : Table) :
    s.ever t ⊆ (s.step e).ever t := (stock_step s e t).ever_subset

/-- A row that a client inserts was once in the table. -/
theorem mem_ever_insert (s : System n) (t : Table) (r : Row) :
    r ∈ (s.step (.insert t r)).ever t := by
  rw [step]
  split
  · next h => exact h
  · simp [addRow]

/-- The workers other than the one that takes a step are where they were. -/
theorem procs_work_of_ne {j k : Fin n} (h : j ≠ k) (i : Input) :
    (s.step (.work k i)).procs j = s.procs j := Function.update_of_ne h _ _

theorem procs_work_self (k : Fin n) (i : Input) :
    (s.step (.work k i)).procs k = ((s.procs k).step i s.now s.db).1 :=
  Function.update_self _ _ _

/-- Only a worker's own steps change it. -/
theorem procs_step_of_not_work (he : ∀ k i, e ≠ .work k i) : (s.step e).procs = s.procs := by
  cases e with
  | tick c => rfl
  | insert t r => rw [step]; split <;> rfl
  | work k i => exact absurd rfl (he k i)

/-- **What every step of a worker preserves** holds of all workers after any step. -/
theorem procs_step_induction {P : Fin n → Proc → Prop} (h : ∀ j, P j (s.procs j))
    (hstep : ∀ k i, e = .work k i → P k ((s.procs k).step i s.now s.db).1) (j : Fin n) :
    P j ((s.step e).procs j) := by
  by_cases he : ∀ k i, e ≠ .work k i
  · rw [procs_step_of_not_work he]
    exact h j
  · push Not at he
    obtain ⟨k, i, rfl⟩ := he
    rcases eq_or_ne j k with rfl | hne
    · rw [procs_work_self]
      exact hstep j i rfl
    · rw [procs_work_of_ne hne]
      exact h j

/-- A worker that takes its steps with no other party between them. -/
theorem after_solo (k : Fin n) : ∀ (is : List Input) (s : System n),
    (s.after (is.map (.work k))).db =
      (Proc.steps (is.map fun i => (i, s.now)) (s.procs k) s.db).2 := by
  intro is
  induction is with
  | nil => intro s; rfl
  | cons i is ih =>
    intro s
    have hrest := ih (s.step (.work k i))
    rw [procs_work_self] at hrest
    exact hrest

end System

end AprsPruner
