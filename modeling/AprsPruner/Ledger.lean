import AprsPruner.Settled

/-!
# The log as a ledger

After the deletions of a pass a worker logs how many rows went from either table,

    Delete packets 2000, raw 17 in 340 ms

unless there were none.  What is logged here is what the logger is given: it writes the
line only if its level takes notices.  Unlike the two windows, whose counters have 32 bits, the
line shows the 64-bit counts the store has returned.  Read back, the lines of all
workers add up to the rows deleted, short only of the passes under way; where a
`commit()` fails they may show more, but never less.

## Main definitions

* `readDeletes` — the two numbers in such a line.
* `Proc.logged`, `Proc.unlogged` — what a worker has logged, and has yet to log.

## Main results

* `readDeletes_deletesLine` — **the line shows both counts.**
* `Proc.ledger_step` — a step of a worker enters the rows it deletes.
* `log_covers_deletions` — the log never falls short of what is gone.
-/

namespace AprsPruner

open BatchPrune Transition App

/-! ### Reading the lines -/

/-- Reads a literal and the number in decimal after it. -/
def readNumber (label : String) (text : List Char) : Option (ℕ × List Char) := do
  let rest ← text.dropPrefix? label.toList
  let n ← (String.ofList (rest.takeWhile Char.isDigit)).toNat?
  return (n, rest.dropWhile Char.isDigit)

/-- The numbers of packets and of raw rows in a line about deletions. -/
def readDeletes (line : LogLine) : Option (ℕ × ℕ) := do
  let (packets, rest) ← readNumber "Delete packets " line.text.toList
  let (raw, _) ← readNumber ", raw " rest
  return (packets, raw)

/-- A number is read to its last digit. -/
theorem readNumber_repr (label : String) (n : ℕ) {c : Char} {rest : List Char}
    (hc : c.isDigit = false) :
    readNumber label (label.toList ++ (n.repr.toList ++ c :: rest)) = some (n, c :: rest) := by
  have hdigits : ∀ a ∈ n.repr.toList, a.isDigit = true := by
    intro a ha
    rw [Nat.toList_repr] at ha
    exact Nat.isDigit_of_mem_toDigits (by decide) (by decide) ha
  have htake : (n.repr.toList ++ c :: rest).takeWhile Char.isDigit = n.repr.toList := by
    rw [List.takeWhile_append_of_pos hdigits, List.takeWhile_cons_of_neg (by simp [hc]),
      List.append_nil]
  have hdrop : (n.repr.toList ++ c :: rest).dropWhile Char.isDigit = c :: rest := by
    rw [List.dropWhile_append_of_pos hdigits, List.dropWhile_cons_of_neg (by simp [hc])]
  simp only [readNumber, List.dropPrefix?_append_of_beq _ (BEq.refl label.toList), htake, hdrop,
    String.ofList_toList, Nat.toNat?_repr, Option.bind_eq_bind, Option.bind_some]
  rfl

/-- **The line shows both counts**, whatever they and the time are. -/
theorem readDeletes_deletesLine (numPackets numRaw : UInt64) (elapsed : String) :
    (deletesLine numPackets numRaw elapsed).map readDeletes =
      if numPackets > 0 ∨ numRaw > 0 then [some (numPackets.toNat, numRaw.toNat)] else [] := by
  rw [deletesLine]
  split
  · have htext : ("Delete packets " ++ toString numPackets ++ ", raw " ++ toString numRaw ++
        " in " ++ elapsed ++ " ms").toList = "Delete packets ".toList ++
          (numPackets.toNat.repr.toList ++ ',' :: (" raw ".toList ++
            (numRaw.toNat.repr.toList ++ ' ' :: ("in ".toList ++ (elapsed.toList ++
              " ms".toList))))) := by
      rw [show toString numPackets = numPackets.toNat.repr from rfl,
        show toString numRaw = numRaw.toNat.repr from rfl]
      simp
    have hraw : ∀ rest : List Char, readNumber ", raw "
        (',' :: (" raw ".toList ++ (numRaw.toNat.repr.toList ++ ' ' :: rest))) =
          some (numRaw.toNat, ' ' :: rest) := fun rest =>
      readNumber_repr ", raw " numRaw.toNat (by decide)
    simp only [List.map_cons, List.map_nil, readDeletes, htext,
      readNumber_repr _ _ (show ','.isDigit = false by decide), hraw, Option.bind_eq_bind,
      Option.bind_some, Option.pure_def]
  · rfl

/-- A line about an exception is none about deletions. -/
theorem readDeletes_logLine (t : Table) (e : Exception) :
    readDeletes (DBI.logLine t.logTag e) = none := by
  have hstars : ∀ text, readNumber "Delete packets " (t.logTag.toList ++ text) = none := by
    intro text
    cases t <;> rfl
  cases e <;> simp [readDeletes, DBI.logLine, hstars]

/-! ### What a worker has logged -/

/-- A table's number among those of a line. -/
def shownFor (t : Table) (counts : Option (ℕ × ℕ)) : ℕ :=
  counts.elim 0 fun (packets, raw) =>
    match t with
    | .packet => packets
    | .raw => raw

/-- The deletions from a table that a list of lines shows. -/
def loggedFor (t : Table) (log : List LogLine) : ℕ :=
  ((log.map readDeletes).map (shownFor t)).sum

@[simp] theorem loggedFor_append (t : Table) (xs ys : List LogLine) :
    loggedFor t (xs ++ ys) = loggedFor t xs + loggedFor t ys := by
  simp [loggedFor]

/-- **The line about deletions shows the count of either table.** -/
theorem loggedFor_deletesLine (t : Table) (num : Table → UInt64) (elapsed : String) :
    loggedFor t (deletesLine (num .packet) (num .raw) elapsed) = (num t).toNat := by
  rw [loggedFor, readDeletes_deletesLine]
  split
  · cases t <;> simp [shownFor]
  · next hnone =>
    -- where no line is logged both counts are zero
    have hzero : num t = 0 := by
      rw [not_or] at hnone
      cases t
      · exact UInt64.le_zero_iff.mp (UInt64.not_lt.mp hnone.1)
      · exact UInt64.le_zero_iff.mp (UInt64.not_lt.mp hnone.2)
    simp [hzero]

/-- The lines of the handlers show no deletions. -/
theorem loggedFor_deleteBefore (t u : Table) (cutoff : Int64) (limit : UInt64) (p : Picker)
    (a : Attempt) (db : Tables) :
    loggedFor t (u.deleteBefore cutoff limit p a db).log = 0 := by
  rw [DBI.table_deleteBefore_eq]
  cases a.raised with
  | none => rfl
  | some e => simp [loggedFor, shownFor, readDeletes_logLine]

/-- The store has returned the table's count, and it is not yet in the log. -/
def Pc.awaitsLog (t : Table) : Pc → Bool
  | .cutoff .raw | .delete .raw => t = .packet
  | .addStompstats _ | .addStats _ | .logDeletes => true
  | _ => false

namespace Proc

/-- What a worker has logged of a table's deletions, with what it has yet to log. -/
def ledger (p : Proc) (t : Table) : ℕ :=
  loggedFor t p.log + if p.pc.awaitsLog t then (p.numDeleted t).toNat else 0

variable {i : Input} {now : Clock} {p : Proc} {db : Tables} {t : Table}

/-- What a step of a worker enters: the count the store returns. -/
theorem ledger_step (p : Proc) (i : Input) (now : Clock) (db : Tables) (t : Table) :
    (p.step i now db).1.ledger t = p.ledger t + if p.pc = .delete t then
      (t.deleteBefore p.cutoff (p.worker.maxLimit t) i.picker i.attempt db).numAffectedRows.toNat
        else 0 := by
  obtain ⟨w, pc, cutoff, num, pub, prin, log⟩ := p
  unfold ledger
  cases pc with
  | delete u =>
    have hlog := loggedFor_deleteBefore t u cutoff (w.maxLimit u) i.picker i.attempt db
    cases u <;> cases t <;> simp [step, Pc.awaitsLog, Pc.next, hlog]
  | logDeletes => simp [step, Pc.awaitsLog, Pc.next, loggedFor_deletesLine]
  | isNext => cases hnext : i.isNext <;> simp [step, Pc.awaitsLog, Pc.next, hnext]
  | cutoff u | addStompstats u | addStats u =>
    cases u <;> cases t <;> simp [step, Pc.awaitsLog, Pc.next]
  | _ => simp [step, Pc.awaitsLog, Pc.next]

end Proc

/-- **The store never returns too small a count**, and the true one if `commit()`
does not fail. -/
theorem DBI.card_removed_le_numAffectedRows {cutoff : Int64} {limit : UInt64} {p : Picker}
    {a : Attempt} {db : Tables} (t : Table) :
    (db t \ (t.deleteBefore cutoff limit p a db).tables t).card ≤
      (t.deleteBefore cutoff limit p a db).numAffectedRows.toNat := by
  by_cases ha : a.commit = none
  · rw [DBI.numAffectedRows_of_commit t ha]
  · rw [DBI.tables_deleteBefore_of_raises t fun h => ha h.2, Finset.sdiff_self, Finset.card_empty]
    exact Nat.zero_le _

/-! ### What all workers have logged -/

namespace System

variable {n : ℕ} {s s' : System n} {e : Event n} {t : Table}

/-- What all workers have logged, with what they have yet to log. -/
def ledger (s : System n) (t : Table) : ℕ := ∑ k, (s.procs k).ledger t

/-- What a step enters for a table: the count of the `DELETE` it runs. -/
def entered (s : System n) (t : Table) : Event n → ℕ
  | .work k i =>
    if (s.procs k).pc = .delete t then
      (t.deleteBefore (s.procs k).cutoff ((s.procs k).worker.maxLimit t) i.picker i.attempt
        s.db).numAffectedRows.toNat
    else 0
  | _ => 0

theorem ledger_step (s : System n) (e : Event n) (t : Table) :
    (s.step e).ledger t = s.ledger t + s.entered t e := by
  cases e with
  | work k i =>
    have hsum := Tally.sum_update_modEq (fun p : Proc => p.ledger t) s.procs k
      ((s.procs k).step i s.now s.db).1 (m := 0)
      (Nat.modEq_zero_iff.mpr ((s.procs k).ledger_step i s.now s.db t))
    exact Nat.modEq_zero_iff.mp hsum
  | tick c => rfl
  | insert u r =>
    rw [ledger, procs_insert]
    rfl

/-- **What a step enters covers what it removes.** -/
theorem removed_le_entered (s : System n) (e : Event n) (t : Table) :
    (s.db t \ (s.step e).db t).card ≤ s.entered t e ∧
      (e.Commits → (s.db t \ (s.step e).db t).card = s.entered t e) := by
  cases e with
  | work k i =>
    by_cases hpc : (s.procs k).pc = .delete t
    · have hdb : (s.step (.work k i)).db = (t.deleteBefore (s.procs k).cutoff
          ((s.procs k).worker.maxLimit t) i.picker i.attempt s.db).tables :=
        Proc.step_of_delete (by rw [hpc]; rfl)
      rw [entered, if_pos hpc, hdb]
      exact ⟨DBI.card_removed_le_numAffectedRows t,
        fun hcommit => (DBI.numAffectedRows_of_commit t hcommit).symm⟩
    · rw [entered, if_neg hpc, db_work_of_ne (mt Pc.deletes_eq_some_iff.mp hpc), Finset.sdiff_self,
        Finset.card_empty]
      exact ⟨le_rfl, fun _ => rfl⟩
  | tick c =>
    rw [show (s.step (.tick c)).db = s.db from rfl, Finset.sdiff_self, Finset.card_empty]
    exact ⟨Nat.zero_le _, fun _ => rfl⟩
  | insert u r =>
    rw [Finset.sdiff_eq_empty_iff_subset.mpr (db_subset_insert s t u r), Finset.card_empty]
    exact ⟨Nat.zero_le _, fun _ => rfl⟩

/-- **A run's entries cover what it removes.** -/
theorem gone_le_ledger {es : List (Event n)} (h : Run Forward s es s')
    (h₀ : (s.ever t \ s.db t).card ≤ s.ledger t) : (s'.ever t \ s'.db t).card ≤ s'.ledger t := by
  refine h.invariant (P := fun s => (s.ever t \ s.db t).card ≤ s.ledger t) ?_ h₀
  rintro s e s' hle ⟨rfl, -⟩
  have hcovers := (removed_le_entered s e t).1
  rw [gone_step, ledger_step]
  omega

/-- The entries of a run whose commits succeed are what it removes. -/
theorem gone_eq_ledger {es : List (Event n)} (h : Run Forward s es s')
    (hes : ∀ e ∈ es, e.Commits) (h₀ : (s.ever t \ s.db t).card = s.ledger t) :
    (s'.ever t \ s'.db t).card = s'.ledger t := by
  induction h with
  | nil => exact h₀
  | @cons s _ _ e es hs _ ih =>
    obtain ⟨rfl, -⟩ := hs
    have hcovers := (removed_le_entered s e t).2 (hes e List.mem_cons_self)
    refine ih (fun e' he' => hes e' (List.mem_cons_of_mem _ he')) ?_
    rw [gone_step, ledger_step, hcovers, h₀]

theorem ledger_start (now : Clock) (db : Tables) (workers : Fin n → Worker) (t : Table) :
    (start now db workers).ledger t = 0 :=
  Finset.sum_eq_zero fun _ _ => rfl

end System

/-! ### The log of the daemon -/

/-- Where no `commit()` fails in the daemon none does in its workers. -/
theorem Daemon.commits_flatten {n : ℕ} {es : List DaemonEvent} {ess : List (List (Event n))}
    (h : List.Forall₂ showsSystem es ess) (hes : ∀ e ∈ es, e.Commits) :
    ∀ e ∈ ess.flatten, e.Commits := by
  induction h with
  | nil => simp
  | @cons e ds es ess hshows _ ih =>
    intro e' he'
    rw [List.flatten_cons] at he'
    rcases List.mem_append.mp he' with he' | he'
    · have hcommits := hes e List.mem_cons_self
      cases e with
      | worker j i =>
        rcases hshows with rfl | ⟨k, rfl⟩
        · exact absurd he' List.not_mem_nil
        · rw [List.mem_singleton.mp he']
          exact hcommits
      | main create | signal sig => rw [hshows] at he'; exact absurd he' List.not_mem_nil
      | tick c | insert t r =>
        rw [hshows] at he'
        rw [List.mem_singleton.mp he']
        trivial
    · exact ih (fun e he => hes e (List.mem_cons_of_mem _ he)) e' he'

open Daemon in
/-- **The log never falls short of what is gone.**  In every state the daemon
reaches, under every configuration and a clock that does not go back: the numbers in
the lines about deletions that all workers have given to the logger, with the counts
of the passes under way, are together at least the number of rows deleted from the
table, and exactly that if no `commit()` failed; and once the threads are joined, the
lines alone are. -/
theorem log_covers_deletions (cfg : Config) (console : Bool)
    (boot : Fin (numWorkers cfg) → Startup) (now : Clock) (db : Tables) (es : List DaemonEvent)
    (d : Daemon (numWorkers cfg)) (h : Run Step (start cfg console boot now db) es d) (t : Table) :
    let counted := ∑ k, (loggedFor t (d.sys.procs k).log +
      if (d.sys.procs k).pc.awaitsLog t then ((d.sys.procs k).numDeleted t).toNat else 0)
    (d.sys.ever t \ d.sys.db t).card ≤ counted ∧
      ((∀ e ∈ es, e.Commits) → (d.sys.ever t \ d.sys.db t).card = counted) ∧
      (d.life.main.pastJoins → counted = ∑ k, loggedFor t (d.sys.procs k).log) := by
  intro counted
  obtain ⟨ess, hshows, hrun⟩ := shows_system h
  have hgone : ((start cfg console boot now db).sys.ever t \
      (start cfg console boot now db).sys.db t).card = 0 :=
    Finset.card_eq_zero.mpr (Finset.sdiff_self _)
  refine ⟨System.gone_le_ledger hrun (hgone.le.trans (Nat.zero_le _)), fun he => ?_,
    fun hpast => ?_⟩
  · exact System.gone_eq_ledger hrun (commits_flatten hshows he)
      (hgone.trans (System.ledger_start now db _ t).symm)
  · have hjoined : d.Joined := ⟨inv_of_run h (inv_start cfg console boot now db), hpast⟩
    refine Finset.sum_congr rfl fun k _ => ?_
    rw [hjoined.idle_all k]
    rfl

open Daemon in
/-- One pass of one worker, which has not yet logged the row it has deleted. -/
theorem one_worker_logs :
    ∃ d, steps Daemon.step oneWorker (startedUp 8) = some d ∧
      (d.sys.ever .packet \ d.sys.db .packet).card =
        ∑ k, (loggedFor .packet (d.sys.procs k).log +
          if (d.sys.procs k).pc.awaitsLog .packet then
            ((d.sys.procs k).numDeleted .packet).toNat else 0) := by
  obtain ⟨d, hd⟩ := Option.isSome_iff_exists.mp
    (show (steps Daemon.step oneWorker (startedUp 8)).isSome by decide)
  have hrun := run_of_untimed (tick_notMem_startedUp 8) hd
  refine ⟨d, hd, (log_covers_deletions _ _ _ _ _ _ d hrun .packet).2.1 fun e he => ?_⟩
  simp only [startedUp, List.mem_append, List.mem_replicate] at he
  rcases he with ⟨-, rfl⟩ | ⟨-, rfl⟩ <;> trivial

end AprsPruner
