import AprsPruner.Lib.Tally
import AprsPruner.Shutdown

/-!
# After `SIGINT`

Once `done` is set no thread enters another pass, so each runs at most one more
`DELETE` on either table.  And once the main thread is past the joins, all counts have
reached their windows, and the daemon leaves the tables alone.

## Main definitions

* `Phase.due` — a thread has yet to run its `DELETE` from a table.
* `Daemon.deletesOf` — the `DELETE`s from a table that a thread runs.
* `Daemon.Joined` — the main thread is past the joins.

## Main results

* `Daemon.deletesOf_add_due_le` — **after `done`, a thread only runs the `DELETE` that is
  due.**
* `removed_after_done` — what is still deleted after `done`.
* `settled_past_joins` — what holds when the threads have been joined.
-/

namespace AprsPruner

open BatchPrune Transition App

/-! ### What is still deleted -/

/-- The statement comes before the table's `DELETE` in the pass, or is that. -/
def Pc.beforeDelete (t : Table) : Pc → Bool
  | .tryStompstats | .reportStats | .storeTryStats | .isNext => true
  | .cutoff .packet | .delete .packet => true
  | .cutoff .raw | .delete .raw => t = .raw
  | _ => false

/-- The `DELETE`s from a table that a thread has yet to run once `done` is set. -/
def Phase.due (t : Table) : Phase → Pc → ℕ
  | .run, pc => if pc.beforeDelete t then 1 else 0
  | _, _ => 0

/-- A thread is at its `DELETE` from the table. -/
def Phase.deleting (t : Table) : Phase → Pc → ℕ
  | .run, pc => if pc = .delete t then 1 else 0
  | _, _ => 0

/-- A step of a pass that does not delete from the table brings no `DELETE` nearer
that was not due. -/
theorem Pc.beforeDelete_next (t : Table) (isNext : Bool) (pc : Pc)
    (h : pc.next isNext ≠ .tryStompstats) (hnext : (pc.next isNext).beforeDelete t) :
    pc.beforeDelete t := by
  cases pc with
  | isNext => rfl
  | cutoff u | delete u | addStompstats u | addStats u =>
    cases u <;> cases t <;> simp_all [next, beforeDelete]
  | sleep => exact absurd rfl h
  | _ => simp_all [next, beforeDelete]

/-- After its `DELETE` from a table a pass has none from it to come. -/
theorem Pc.not_beforeDelete_next (t : Table) (isNext : Bool) :
    ¬ ((Pc.delete t).next isNext).beforeDelete t := by
  cases t <;> simp [next, beforeDelete]

namespace Daemon

variable {n : ℕ} {d d' : Daemon n} {e : DaemonEvent} {t : Table}

/-- The rows deleted from a table so far. -/
def gone (d : Daemon n) (t : Table) : ℕ := (d.sys.ever t \ d.sys.db t).card

/-- The threads that run a pass. -/
def running (d : Daemon n) : Finset ℕ :=
  (Finset.range d.life.threads.length).filter fun j =>
    (d.life.threads[j]?).any fun th => th.phase = .run

/-- The step is the `DELETE` from the table of the thread of index `j`. -/
def deletes (t : Table) (j : ℕ) (d : Daemon n) : DaemonEvent → ℕ
  | .worker j' _ => if j' = j then d.loadAt (Phase.deleting t) j else 0
  | _ => 0

/-- The `DELETE`s from the table that the thread of index `j` runs, over some events. -/
def deletesOf (t : Table) (j : ℕ) (d : Daemon n) (es : List DaemonEvent) : ℕ :=
  Tally.tally (fun d e => (d.step e).getD d) (deletes t j) d es

/-- A `DELETE` of a pass is no longer due when it has been run. -/
theorem deleting_add_due_le (t : Table) (k : Fin n) (i : Input) :
    Phase.deleting t .run (d.sys.procs k).pc +
        Phase.due t (if (d.stepped k i).midPass then .run else .testDone) (d.stepped k i).pc ≤
      Phase.due t .run (d.sys.procs k).pc := by
  have hnext : (d.stepped k i).pc = (d.sys.procs k).pc.next i.isNext := Proc.pc_step
  by_cases hpc : (d.sys.procs k).pc = .delete t
  · have hbefore : (Pc.delete t).beforeDelete t := by cases t <;> rfl
    have hafter : Phase.due t (if (d.stepped k i).midPass then .run else .testDone)
        (d.stepped k i).pc = 0 := by
      have hnot := Pc.not_beforeDelete_next t i.isNext
      rw [hnext, hpc]
      split <;> simp [Phase.due, hnot]
    rw [hafter, hpc, Phase.due, if_pos hbefore, Phase.deleting, if_pos rfl]
  · rw [Phase.deleting, if_neg hpc, Nat.zero_add]
    split
    · next hmid =>
      rw [Proc.midPass, hnext] at hmid
      have hbefore := Pc.beforeDelete_next t i.isNext (d.sys.procs k).pc (by simpa using hmid)
      rw [hnext]
      simp only [Phase.due]
      split
      · next h => rw [if_pos (hbefore h)]
      · exact Nat.zero_le _
    · exact Nat.zero_le _

/-- With `done` set a thread enters no other pass. -/
theorem due_eq_zero {phase phase' : Phase} (hrun : phase ≠ .run)
    (hnext : phase.next true false = some phase') (pc : Pc) : Phase.due t phase' pc = 0 := by
  cases phase with
  | run => exact absurd rfl hrun
  | returned => exact absurd hnext (by simp [Phase.next])
  | _ => obtain rfl := Option.some.inj hnext; rfl

/-- **After `done`, a step is a `DELETE` of a thread only if it was due.** -/
theorem deletes_add_due_le (h : d.Ending) (t : Table) (j : ℕ) (hs : Step d e d') :
    deletes t j d e + d'.loadAt (Phase.due t) j ≤ d.loadAt (Phase.due t) j := by
  cases hs.move with
  | main create life hlife =>
    simp only [deletes, Nat.zero_add]
    rw [loadAt_main h.toInv (f := Phase.due t) (c := 0) (fun _ => rfl) hlife, ite_self,
      Nat.add_zero]
  | pass j' i th k hth hk hrun =>
    rcases eq_or_ne j' j with rfl | hne
    · rw [deletes, if_pos rfl, loadAt_setPhase_self _ _ _ hth hk, loadAt_eq hth hk,
        loadAt_eq hth hk, hrun, System.procs_work_self]
      exact deleting_add_due_le t k i
    · rw [deletes, if_neg hne, Nat.zero_add, loadAt_setPhase_of_ne h.toInv _ _ hk
        (fun l hl => System.procs_work_of_ne hl i) hne.symm]
  | thread j' i th phase hth hrun hnext =>
    obtain ⟨k, hk⟩ := h.toInv.exists_slot hth
    rcases eq_or_ne j' j with rfl | hne
    · rw [h.done] at hnext
      have hnone : Phase.deleting t th.phase (d.sys.procs k).pc = 0 := by
        cases hphase : th.phase with
        | run => exact absurd hphase hrun
        | _ => rfl
      rw [deletes, if_pos rfl, loadAt_setPhase_self _ phase d.sys hth hk,
        loadAt_eq hth hk, hnone, due_eq_zero hrun hnext]
      exact Nat.zero_le _
    · rw [deletes, if_neg hne, Nat.zero_add, loadAt_setPhase_of_ne h.toInv _ phase hk
        (fun _ _ => rfl) hne.symm]
  | signal sig log | tick c =>
    simp only [deletes, Nat.zero_add]
    exact le_rfl
  | insert u r =>
    simp only [deletes, Nat.zero_add, loadAt, System.procs_insert]
    exact le_rfl

/-- **After `done`, a thread only runs the `DELETE` that is due.** -/
theorem deletesOf_add_due_le {es : List DaemonEvent} (h : d.Ending) (hrun : Run Step d es d')
    (t : Table) (j : ℕ) :
    d.deletesOf t j es + d'.loadAt (Phase.due t) j ≤ d.loadAt (Phase.due t) j := by
  induction hrun with
  | nil => exact (Nat.zero_add _).le
  | @cons d d₁ d' e es hs _ ih =>
    have hfirst := deletes_add_due_le h t j hs
    have hrest := ih (h.move hs.move)
    have hnext : (d.step e).getD d = d₁ := by rw [hs.1, Option.getD_some]
    rw [deletesOf, Tally.tally, hnext]
    rw [deletesOf] at hrest
    omega

/-- **Rows only go by the `DELETE` of a thread**, and no more than its limit. -/
theorem gone_le_add_deletes {ws : Fin n → Worker} (hpolicy : Policy ws d.sys) {m : ℕ}
    (hm : ∀ k, ((ws k).maxLimit t).toNat ≤ m) (hs : Step d e d') {N : ℕ}
    (hN : d.life.threads.length ≤ N) :
    d'.gone t ≤ d.gone t + (∑ j ∈ Finset.range N, deletes t j d e) * m := by
  cases hs.move with
  | pass j i th k hth hk hrun =>
    have hgone := System.gone_step d.sys (.work k i) t
    simp only [gone, hgone, Nat.add_le_add_iff_left]
    by_cases hpc : (d.sys.procs k).pc = .delete t
    · obtain ⟨hlt, -⟩ := List.getElem?_eq_some_iff.mp hth
      have hone : deletes t j d (.worker j i) = 1 := by
        rw [deletes, if_pos rfl, loadAt_eq hth hk, hrun, Phase.deleting, if_pos hpc]
      have hsum : 1 ≤ ∑ j' ∈ Finset.range N, deletes t j' d (.worker j i) := by
        rw [← hone]
        exact Finset.single_le_sum (f := fun j' => deletes t j' d (.worker j i))
          (fun _ _ => Nat.zero_le _) (Finset.mem_range.mpr (hlt.trans_le hN))
      exact (hpolicy.card_removed_le _ t hm).trans (Nat.le_mul_of_pos_left m hsum)
    · rw [System.db_work_of_ne (mt Pc.deletes_eq_some_iff.mp hpc), Finset.sdiff_self,
        Finset.card_empty]
      exact Nat.zero_le _
  | insert u r =>
    have hgone := System.gone_step d.sys (.insert u r) t
    rw [Finset.sdiff_eq_empty_iff_subset.mpr (System.db_subset_insert d.sys t u r),
      Finset.card_empty, Nat.add_zero] at hgone
    simp only [gone, hgone, Nat.le_add_right]
  | main create life hlife => exact Nat.le_add_right _ _
  | thread j i th phase hth hrun hnext => exact Nat.le_add_right _ _
  | signal sig log => exact Nat.le_add_right _ _
  | tick c => exact Nat.le_add_right _ _

/-- **The `DELETE`s that are due pay for all rows that go after `done`.** -/
theorem gone_add_due_le (h : d.Ending) {ws : Fin n → Worker} (hpolicy : Policy ws d.sys) {m : ℕ}
    (hm : ∀ k, ((ws k).maxLimit t).toNat ≤ m) (hs : Step d e d') :
    d'.gone t + d'.load (Phase.due t) * m ≤ d.gone t + d.load (Phase.due t) * m := by
  let N := max d.life.threads.length d'.life.threads.length
  have hdue : ∑ j ∈ Finset.range N, deletes t j d e + d'.load (Phase.due t) ≤
      d.load (Phase.due t) := by
    rw [load_eq_sum (le_max_left _ _ : _ ≤ N), load_eq_sum (le_max_right _ _ : _ ≤ N),
      ← Finset.sum_add_distrib]
    exact Finset.sum_le_sum fun j _ => deletes_add_due_le h t j hs
  calc d'.gone t + d'.load (Phase.due t) * m
      ≤ d.gone t + (∑ j ∈ Finset.range N, deletes t j d e) * m + d'.load (Phase.due t) * m :=
        Nat.add_le_add_right (gone_le_add_deletes hpolicy hm hs (le_max_left _ _)) _
    _ = d.gone t + (∑ j ∈ Finset.range N, deletes t j d e + d'.load (Phase.due t)) * m := by
        rw [Nat.add_assoc, Nat.add_mul]
    _ ≤ d.gone t + d.load (Phase.due t) * m :=
        Nat.add_le_add_left (Nat.mul_le_mul_right m hdue) _

/-- A `DELETE` is due only of a thread that runs a pass. -/
theorem loadAt_due_le (d : Daemon n) (t : Table) (j : ℕ) :
    d.loadAt (Phase.due t) j ≤ if j ∈ d.running then 1 else 0 := by
  rw [loadAt]
  split
  · next th k hth _ =>
    obtain ⟨hlt, -⟩ := List.getElem?_eq_some_iff.mp hth
    have hmem : j ∈ d.running ↔ th.phase = .run := by
      rw [running, Finset.mem_filter, hth, Option.any_some, decide_eq_true_iff, Finset.mem_range,
        and_iff_right hlt]
    simp only [hmem]
    cases hphase : th.phase <;> simp [Phase.due]
    split <;> simp
  · exact Nat.zero_le _

theorem load_due_le (d : Daemon n) (t : Table) : d.load (Phase.due t) ≤ d.running.card := by
  have hsum : d.load (Phase.due t) ≤
      ∑ j ∈ Finset.range d.life.threads.length, if j ∈ d.running then 1 else 0 :=
    Finset.sum_le_sum fun j _ => loadAt_due_le d t j
  rw [← Finset.card_filter] at hsum
  exact hsum.trans (Finset.card_le_card fun j hj => (Finset.mem_filter.mp hj).2)

theorem Step.policy {ws : Fin n → Worker} (hage : ∀ k t, InInt ((ws k).maxAge t).toInt)
    (h : Policy ws d.sys) (hs : Step d e d') : Policy ws d'.sys := by
  obtain ⟨es, -, hrun⟩ := hs.shows_system
  exact AprsPruner.policy_of_run hage hrun h

theorem card_running_le (h : d.Inv) : d.running.card ≤ n :=
  (Finset.card_filter_le _ _).trans
    (Finset.card_range _ ▸ h.length_le.trans h.le)

end Daemon

open Daemon in
/-- **What is still deleted after `SIGINT`.**  From every state the daemon reaches
in which `done` is set, and for however long it goes on, the clock never going back: each
thread that is in a pass runs at most one more `DELETE` from either table, and the other
threads run none; and from either table at most as many rows are deleted as the threads
that are in a pass have limits, as a `size_t` each, and these are no more than the workers
configured. -/
theorem removed_after_done (cfg : Config) (console : Bool)
    (boot : Fin (numWorkers cfg) → Startup) (now : Clock) (db : Tables) (es : List DaemonEvent)
    (d : Daemon (numWorkers cfg)) (h : Run Step (start cfg console boot now db) es d)
    (hdone : d.life.done = true) (t : Table) :
    d.running.card ≤ numWorkers cfg ∧ ∀ es' d', Run Step d es' d' →
      (∀ j, d.deletesOf t j es' ≤ if j ∈ d.running then 1 else 0) ∧
      (d'.sys.ever t \ d'.sys.db t).card ≤ (d.sys.ever t \ d.sys.db t).card +
        d.running.card * (sizeOfInt (limitSetting cfg t)).toNat := by
  have hinv := inv_of_run h (inv_start cfg console boot now db)
  refine ⟨card_running_le hinv, fun es' d' hrun => ⟨fun j => ?_, ?_⟩⟩
  · have hdue := deletesOf_add_due_le ⟨hinv, hdone⟩ hrun t j
    exact (Nat.le_add_right _ _).trans (hdue.trans (loadAt_due_le d t j))
  · have hlimit : ∀ k, ((workers cfg console boot k).maxLimit t).toNat ≤
        (sizeOfInt (limitSetting cfg t)).toNat := fun k => by
      rw [workers, maxLimit_workerThread]
    let m := (sizeOfInt (limitSetting cfg t)).toNat
    let P : Daemon (numWorkers cfg) → Prop := fun x => x.Ending ∧
      Policy (workers cfg console boot) x.sys ∧
      x.gone t + x.load (Phase.due t) * m ≤ d.gone t + d.load (Phase.due t) * m
    have hend : P d' := by
      refine hrun.invariant ?_ ⟨⟨hinv, hdone⟩, Daemon.policy_of_run h, le_rfl⟩
      rintro x e x' ⟨hending, hpolicy, hle⟩ hs
      exact ⟨hending.move hs.move, hs.policy inInt_workers hpolicy,
        (gone_add_due_le hending hpolicy hlimit hs).trans hle⟩
    have hdue := Nat.mul_le_mul_right m (load_due_le d t)
    have hle := hend.2.2
    simp only [gone, m] at hle hdue
    omega

open Daemon in
/-- The thread runs one more `DELETE` from `packet` at most, and 2000 more rows go. -/
theorem one_limit_after_done :
    ∃ d, Run Daemon.Step oneWorker (startedUp 5 ++ [.signal .sigint]) d ∧
      ∀ es' d', Run Daemon.Step d es' d' → d.deletesOf .packet 0 es' ≤ 1 ∧
        (d'.sys.ever .packet \ d'.sys.db .packet).card ≤
          (d.sys.ever .packet \ d.sys.db .packet).card + 2000 := by
  obtain ⟨d, hrun, hdone, -⟩ := interrupted
  obtain ⟨hcard, hafter⟩ := removed_after_done _ _ _ _ _ _ d hrun hdone .packet
  refine ⟨d, hrun, fun es' d' hrun' => ?_⟩
  obtain ⟨hdeletes, hgone⟩ := hafter es' d' hrun'
  refine ⟨(hdeletes 0).trans (by split <;> simp), hgone.trans (Nat.add_le_add_left ?_ _)⟩
  have hlimit : (sizeOfInt (limitSetting (.ofInt "app.threads.worker" 1) .packet)).toNat = 2000 :=
    by decide
  have hone : d.running.card ≤ 1 := hcard.trans (by decide)
  rw [hlimit]
  omega

/-! ### What holds when the threads have been joined -/

/-- The attempt of a worker's step, should it run a query, does not fail at `commit()`. -/
def DaemonEvent.Commits : DaemonEvent → Prop
  | .worker _ i => i.attempt.commit = none
  | _ => True

namespace Daemon

variable {n : ℕ} {d d' : Daemon n} {e : DaemonEvent}

/-- The main thread is past the loop that joins the threads. -/
structure Joined (d : Daemon n) : Prop extends d.Inv where
  /-- The loop is behind it. -/
  past : d.life.main.pastJoins = true

theorem Joined.returned (h : d.Joined) {th : Thread} (hth : th ∈ d.life.threads) :
    th.phase = .returned := by
  by_contra hphase
  exact (h.life.started_of_running hth hphase).2 h.past

/-- **Past the joins no worker is in the middle of a pass.** -/
theorem Joined.idle_all (h : d.Joined) (k : Fin n) : (d.sys.procs k).pc = .tryStompstats := by
  by_contra hpc
  obtain ⟨j, th, hth, -, hrun⟩ := h.idle k (by simpa [Proc.midPass] using hpc)
  rw [h.returned (List.mem_of_getElem? hth)] at hrun
  exact absurd hrun (by decide)

/-- **Past the joins the daemon leaves tables and workers alone.** -/
theorem Joined.move (h : d.Joined) (hmove : Move d e d') :
    d'.Joined ∧ d'.sys.procs = d.sys.procs ∧ ∀ t, d.sys.db t ⊆ d'.sys.db t := by
  have hinv := h.toInv.move hmove
  have hpast := h.past
  cases hmove with
  | main create life hlife =>
    refine ⟨⟨hinv, ?_⟩, rfl, fun _ => Finset.Subset.refl _⟩
    -- only two steps are left to the main thread
    cases Life.mainMove_of_mainStep hlife with
    | stopStats | deleteStats => rfl
    | newStats hm | startStats hm | started _ _ hm | failed _ _ hm | spawned _ hm
    | pushBack _ _ hm | waitDone hm | noneLeft hm | front hm | join _ hm | popFront hm =>
      rw [hm] at hpast
      exact absurd hpast Bool.false_ne_true
  | pass j i th k hth hk hrun =>
    rw [h.returned (List.mem_of_getElem? hth)] at hrun
    exact absurd hrun (by decide)
  | thread j i th phase hth hrun hnext =>
    rw [h.returned (List.mem_of_getElem? hth)] at hnext
    exact absurd hnext (by simp [Phase.next])
  | signal sig log => exact ⟨⟨hinv, hpast⟩, rfl, fun _ => Finset.Subset.refl _⟩
  | tick c => exact ⟨⟨hinv, hpast⟩, rfl, fun _ => Finset.Subset.refl _⟩
  | insert u r =>
    exact ⟨⟨hinv, hpast⟩, System.procs_insert d.sys u r,
      fun t => System.db_subset_insert d.sys t u r⟩

/-- A step of the daemon counts the rows it removes. -/
theorem total_step (h : Step d e d') (he : e.Commits) (t : Table) (win : Window)
    (h₀ : d.sys.total t win ≡ d.gone t [MOD 2 ^ 32]) :
    d'.sys.total t win ≡ d'.gone t [MOD 2 ^ 32] := by
  have hsys : ∀ e' : Event n, e'.Commits →
      (d.sys.step e').total t win ≡ ((d.sys.step e').ever t \ (d.sys.step e').db t).card
        [MOD 2 ^ 32] := fun e' he' => by
    rw [System.gone_step]
    exact (System.total_step d.sys e' t win he').trans (h₀.add_right _)
  cases h.move with
  | pass j i th k hth hk hrun => exact hsys (.work k i) he
  | tick c => exact hsys (.tick c) trivial
  | insert u r => exact hsys (.insert u r) trivial
  | main create life hlife => exact h₀
  | thread j i th phase hth hrun hnext => exact h₀
  | signal sig log => exact h₀

theorem total_of_run {es : List DaemonEvent} (h : Run Step d es d') (he : ∀ e ∈ es, e.Commits)
    (t : Table) (win : Window) (h₀ : d.sys.total t win ≡ d.gone t [MOD 2 ^ 32]) :
    d'.sys.total t win ≡ d'.gone t [MOD 2 ^ 32] := by
  induction h with
  | nil => exact h₀
  | cons hs _ ih =>
    exact ih (fun e' he' => he e' (List.mem_cons_of_mem _ he'))
      (total_step hs (he _ List.mem_cons_self) t win h₀)

end Daemon

open Daemon in
/-- **What holds when the threads have been joined.**  In every state the daemon
reaches, the clock never going back, in which the main thread is past the joins: every
worker has ended its pass and every thread has returned; whatever happens from there on
leaves the workers as they are, and rows are only inserted; and if no `commit()` failed,
nothing is on its way to a window any more: what the workers have published of a table's
deletions, with what is left in `_stompstats`, is modulo `2 ^ 32` the number of rows
deleted from it, and so is what they have printed, with what is left in `_stats`. -/
theorem settled_past_joins (cfg : Config) (console : Bool)
    (boot : Fin (numWorkers cfg) → Startup) (now : Clock) (db : Tables) (es : List DaemonEvent)
    (d : Daemon (numWorkers cfg)) (h : Run Step (start cfg console boot now db) es d)
    (hpast : d.life.main.pastJoins = true) :
    (∀ k, (d.sys.procs k).pc = .tryStompstats) ∧
    (∀ th ∈ d.life.threads, th.phase = .returned) ∧
    (∀ es' d', Run Step d es' d' →
      d'.sys.procs = d.sys.procs ∧ ∀ t, d.sys.db t ⊆ d'.sys.db t) ∧
    ((∀ e ∈ es, e.Commits) → ∀ t,
      ∑ k, (publishedFor t (d.sys.procs k).published +
        ((d.sys.procs k).worker.stompstats.deleted t).toNat) ≡
          (d.sys.ever t \ d.sys.db t).card [MOD 2 ^ 32] ∧
      ∑ k, (printedFor t (d.sys.procs k).printed +
        ((d.sys.procs k).worker.stats.deleted t).toNat) ≡
          (d.sys.ever t \ d.sys.db t).card [MOD 2 ^ 32]) := by
  have hjoined : d.Joined := ⟨inv_of_run h (inv_start cfg console boot now db), hpast⟩
  refine ⟨hjoined.idle_all, fun th => hjoined.returned, fun es' d' hrun => ?_, fun he t => ?_⟩
  · have hend : d'.Joined ∧ d'.sys.procs = d.sys.procs ∧ ∀ t, d.sys.db t ⊆ d'.sys.db t := by
      refine hrun.invariant (P := fun x => x.Joined ∧ x.sys.procs = d.sys.procs ∧
        ∀ t, d.sys.db t ⊆ x.sys.db t) ?_ ⟨hjoined, rfl, fun _ => Finset.Subset.refl _⟩
      rintro x e x' ⟨hx, hprocs, hkept⟩ hs
      obtain ⟨hx', hprocs', hkept'⟩ := hx.move hs.move
      exact ⟨hx', hprocs'.trans hprocs, fun t => (hkept t).trans (hkept' t)⟩
    exact hend.2
  · have hnone : ∀ k win, (d.sys.procs k).onItsWay t win = 0 := fun k win => by
      rw [Proc.onItsWay, hjoined.idle_all k]
      cases win <;> rfl
    have htotal : ∀ win, d.sys.total t win ≡ d.gone t [MOD 2 ^ 32] := fun win => by
      refine total_of_run h he t win ?_
      have hzero : (start cfg console boot now db).sys.total t win = 0 :=
        total_start now db (fun k => App.new_workerThread _ _ _ _) t win
      have hgone : (start cfg console boot now db).gone t = 0 :=
        Finset.card_eq_zero.mpr (Finset.sdiff_self _)
      rw [hzero, hgone]
    have hpublished := htotal .published
    have hprinted := htotal .printed
    simp only [System.total, Proc.total, hnone, Nat.add_zero] at hpublished hprinted
    exact ⟨hpublished, hprinted⟩

open Daemon in
/-- A pass, `SIGINT`, and the joins: the row deleted from `packet` waits in both
windows or has been reported. -/
theorem one_worker_settled :
    let es := startedUp 14 ++ .signal .sigint ::
      (List.replicate 2 (.worker 0 ⟨.still (.ofEpoch 2000000), "", true, Picker.inOrder, .succeeds,
        "0"⟩) ++ List.replicate 7 (.main (.failed 0)))
    ∃ d, steps Daemon.step oneWorker es = some d ∧ d.life.main = .finished ∧
      ∑ k, (publishedFor .packet (d.sys.procs k).published +
        ((d.sys.procs k).worker.stompstats.deleted .packet).toNat) ≡
          (d.sys.ever .packet \ d.sys.db .packet).card [MOD 2 ^ 32] := by
  intro es
  obtain ⟨d, hd⟩ := Option.isSome_iff_exists.mp
    (show (steps Daemon.step oneWorker es).isSome by decide)
  have hevents : ∀ e ∈ es, (∀ c, e ≠ .tick c) ∧ e.Commits := by
    intro e he
    simp only [es, startedUp, List.mem_append, List.mem_cons, List.mem_replicate] at he
    rcases he with (⟨-, rfl⟩ | ⟨-, rfl⟩) | rfl | ⟨-, rfl⟩ | ⟨-, rfl⟩ <;>
      exact ⟨fun c hc => by simp at hc, by trivial⟩
  have hrun := run_of_untimed (fun c hc => (hevents _ hc).1 c rfl) hd
  have hmain : (steps Daemon.step oneWorker es).map (fun d => d.life.main) = some .finished := by
    decide
  rw [hd, Option.map_some, Option.some.injEq] at hmain
  have hsettled := settled_past_joins _ _ _ _ _ es d hrun (by rw [hmain]; rfl)
  exact ⟨d, hd, hmain, (hsettled.2.2.2 (fun e he => (hevents e he).2) .packet).1⟩

end AprsPruner
