import AprsPruner.Bounds
import AprsPruner.System

/-!
# The two retention policies

Whether the settings of one table can be told from what happens to the other.  Two
systems with the same workers but for their settings go through the same schedule;
a table sees the same contents in both as long as the workers agree on its limit
and, unless that is zero, on its age.  The settings for raw rows do not touch the
packets.  The age of packets is also read as the age of raw rows, so it does.

## Main definitions

* `contents` — the contents a table goes through.
* `Alike` — two systems that a table cannot tell apart.
* `App.SameContents` — two configurations that a table cannot tell apart.

## Main results

* `alike_step` — systems alike stay alike.
* `App.independent_iff` — **when the settings for packets leave raw rows alone.**
-/

namespace AprsPruner

open BatchPrune Transition

variable {n : ℕ}

/-- The contents of a table after each event. -/
def contents (t : Table) (s : System n) (es : List (Event n)) : List (Finset Row) :=
  outputs (fun s e => (s.step e, (s.step e).db t)) s es

/-- No query of the event's worker fails. -/
def Event.Succeeds : Event n → Prop
  | .work _ i => ¬ i.attempt.raises
  | _ => True

/-! ### Systems that a table cannot tell apart -/

/-- Two workers with the same limit for a table and, unless it is zero, the same
age and the same cutoff in the query about to run. -/
structure AlikeProc (t : Table) (p q : Proc) : Prop where
  /-- They are at the same statement. -/
  pc : p.pc = q.pc
  /-- They have the same limit. -/
  limit : p.worker.maxLimit t = q.worker.maxLimit t
  /-- They have the same age and cutoff, unless the limit is zero. -/
  cutoff : p.worker.maxLimit t = 0 ∨
    p.worker.maxAge t = q.worker.maxAge t ∧ (p.pc.deletes = some t → p.cutoff = q.cutoff)

/-- Two systems that differ in what the table does not see. -/
structure Alike (t : Table) (s s' : System n) : Prop where
  /-- The clocks show the same. -/
  now : s.now = s'.now
  /-- The same rows were ever in the table. -/
  ever : s.ever t = s'.ever t
  /-- The same rows are in the table. -/
  db : s.db t = s'.db t
  /-- The workers are alike. -/
  procs : ∀ k, AlikeProc t (s.procs k) (s'.procs k)

variable {t : Table} {p q : Proc} {i : Input} {now : Clock} {db db' : Tables}

/-- A deletion under a limit of zero does nothing. -/
theorem tables_deleteBefore_of_limit_zero (c : Int64) (pick : Picker) (a : Attempt) :
    (t.deleteBefore c 0 pick a db).tables t = db t := by
  by_cases ha : a.raises
  · rw [DBI.tables_deleteBefore_of_raises t ha]
  · have hnone : (pick.pick (db t) c.toInt 0).card ≤ 0 := (pick.isBatch _ _ _).card_le_limit
    rw [DBI.tables_deleteBefore_self t ha]
    rw [UInt64.toNat_zero, Finset.card_eq_zero.mp (Nat.le_zero.mp hnone), Finset.sdiff_empty]

/-- **Workers alike do the same to the table.** -/
theorem AlikeProc.tables_step (h : AlikeProc t p q) (hdb : db t = db' t) :
    (p.step i now db).2 t = (q.step i now db').2 t := by
  cases hpc : p.pc.deletes with
  | none =>
    have hpc' : q.pc.deletes = none := by rw [← h.pc, hpc]
    rw [Proc.step_of_not_delete hpc, Proc.step_of_not_delete hpc', hdb]
  | some u =>
    have hpc' : q.pc.deletes = some u := by rw [← h.pc, hpc]
    rw [Proc.step_of_delete hpc, Proc.step_of_delete hpc']
    rcases eq_or_ne t u with rfl | hne
    · rcases h.cutoff with hzero | ⟨-, hcutoff⟩
      · rw [← h.limit, hzero, tables_deleteBefore_of_limit_zero, tables_deleteBefore_of_limit_zero,
          hdb]
      · rw [hcutoff hpc, h.limit]
        exact DBI.tables_deleteBefore_congr hdb
    · rw [DBI.tables_deleteBefore_of_ne hne, DBI.tables_deleteBefore_of_ne hne, hdb]

theorem AlikeProc.step (h : AlikeProc t p q) :
    AlikeProc t (p.step i now db).1 (q.step i now db').1 := by
  refine ⟨?_, ?_, ?_⟩
  · rw [Proc.pc_step, Proc.pc_step, h.pc]
  · rw [Proc.maxLimit_step, Proc.maxLimit_step, h.limit]
  · rw [Proc.maxLimit_step, Proc.maxAge_step, Proc.maxAge_step]
    rcases h.cutoff with hzero | ⟨hage, -⟩
    · exact Or.inl hzero
    · refine Or.inr ⟨hage, fun hpc => ?_⟩
      have hpc' : (q.step i now db').1.pc.deletes = some t := by
        rw [Proc.pc_step] at hpc ⊢
        rw [← h.pc, hpc]
      rw [Proc.cutoff_step hpc, Proc.cutoff_step hpc', hage]

/-- **Systems alike stay alike**, and show the table the same contents. -/
theorem alike_step {s s' : System n} (h : Alike t s s') (e : Event n) :
    Alike t (s.step e) (s'.step e) := by
  cases e with
  | tick c => exact ⟨rfl, h.ever, h.db, h.procs⟩
  | insert u r =>
    have hstock : (s.step (.insert u r)).stock t = (s'.step (.insert u r)).stock t := by
      have hsame : s.stock t = s'.stock t := Stock.ext h.ever h.db
      rcases eq_or_ne t u with rfl | hne
      · by_cases hr : r ∈ s.ever t
        · have hr' : r ∈ s'.ever t := h.ever ▸ hr
          rw [System.step, System.step, if_pos hr, if_pos hr', hsame]
        · have hr' : r ∉ s'.ever t := h.ever ▸ hr
          rw [System.stock_insert s hr, System.stock_insert s' hr', hsame]
      · rw [System.stock_insert_of_ne s hne, System.stock_insert_of_ne s' hne, hsame]
    refine ⟨?_, congrArg Stock.ever hstock, congrArg Stock.live hstock, fun k => ?_⟩
    · have hnow : ∀ s : System n, (s.step (.insert u r)).now = s.now := fun s => by
        rw [System.step]
        split <;> rfl
      rw [hnow, hnow, h.now]
    · rw [System.procs_step_of_not_work (by simp), System.procs_step_of_not_work (by simp)]
      exact h.procs k
  | work k i =>
    refine ⟨h.now, h.ever, ?_, fun j => ?_⟩
    · show ((s.procs k).step i s.now s.db).2 t = ((s'.procs k).step i s'.now s'.db).2 t
      rw [h.now]
      exact (h.procs k).tables_step h.db
    · rcases eq_or_ne j k with rfl | hne
      · rw [System.procs_work_self, System.procs_work_self, h.now]
        exact (h.procs j).step
      · rw [System.procs_work_of_ne hne, System.procs_work_of_ne hne]
        exact h.procs j

/-- **Systems alike show the table the same sequence of contents.** -/
theorem contents_eq_of_alike {s s' : System n} (h : Alike t s s') (es : List (Event n)) :
    contents t s es = contents t s' es :=
  outputs_eq_of_related (R := Alike t) (fun _ => True)
    (fun _ _ e hR _ => ⟨(alike_step hR e).db, alike_step hR e⟩) es s s' h fun _ _ => trivial

/-- Workers with the same settings for a table start alike. -/
theorem alike_start (now : Clock) (db : Tables) {ws ws' : Fin n → Worker}
    (hlimit : ∀ k, (ws k).maxLimit t = (ws' k).maxLimit t)
    (hage : ∀ k, (ws k).maxLimit t = 0 ∨ (ws k).maxAge t = (ws' k).maxAge t) :
    Alike t (.start now db ws) (.start now db ws') := by
  refine ⟨rfl, rfl, rfl, fun k => ⟨rfl, hlimit k, ?_⟩⟩
  refine (hage k).imp_right fun h => ⟨h, fun hpc => ?_⟩
  exact absurd hpc (Option.some_ne_none t).symm

/-! ### Configurations that a table cannot tell apart -/

namespace App

/-- `n` workers as their threads configure them, about to begin their first pass. -/
def system (cfg : Config) (console : Bool) (m : Fin n → Startup) (now : Clock) (db : Tables) :
    System n :=
  .start now db fun k => workerThread cfg (UInt32.ofNat (k + 1)) console (m k)

/-- Whatever happens, as long as no query fails, the table goes through the same
contents under both configurations. -/
def SameContents (t : Table) (cfg cfg' : Config) : Prop :=
  ∀ (n : ℕ) (console : Bool) (m : Fin n → Startup) (now : Clock) (db : Tables)
    (es : List (Event n)), (∀ e ∈ es, e.Succeeds) →
    contents t (system cfg console m now db) es = contents t (system cfg' console m now db) es

variable {cfg cfg' : Config}

/-- **The settings of a table decide what happens to it.** -/
theorem sameContents_of_settings (hlimit : limitSetting cfg t = limitSetting cfg' t)
    (hage : ageSetting cfg t = ageSetting cfg' t ∨ limitSetting cfg t = 0) :
    SameContents t cfg cfg' := by
  intro n console m now db es _
  refine contents_eq_of_alike (alike_start now db (fun k => ?_) fun k => ?_) es
  · rw [maxLimit_workerThread, maxLimit_workerThread, hlimit]
  · rw [maxLimit_workerThread, maxAge_workerThread, maxAge_workerThread]
    rcases hage with hage | hzero
    · exact Or.inr (by rw [hage])
    · exact Or.inl (by rw [hzero, sizeOfInt_zero])

/-! ### One worker, one row and one pass -/

/-- What every step of a pass learns at the reading `shownAt`. -/
def shownInput : Input := ⟨.still shownAt, "", true, Picker.inOrder, .succeeds, "0"⟩

/-- The steps of one pass of a lone worker. -/
def onePass : List (Event 1) := List.replicate 14 (.work 0 shownInput)

/-- What one pass of a lone worker leaves of the tables. -/
theorem db_onePass (ws : Fin 1 → Worker) (db : Tables) (t : Table) :
    ((System.start shownAt db ws).after onePass).db t =
      ((ws 0).tryDeletes (passAt shownAt) db).2.1 t := by
  have hinputs : (List.replicate 14 shownInput).map (fun i => (i, shownAt)) =
      soloInputs (.still shownAt) "" (passAt shownAt) := by
    simp [soloInputs, passAt, DeletesInput.at, DeletesInput.picker, DeletesInput.attempt,
      DeletesInput.now, shownInput, List.replicate]
  have hsolo : ∀ is : List Input, ((System.start shownAt db ws).after (is.map (.work 0))).db =
      (Proc.steps (is.map fun i => (i, shownAt)) (.start (ws 0)) db).2 :=
    fun is => System.after_solo 0 is (.start shownAt db ws)
  have hrun : (Proc.steps (soloInputs (.still shownAt) "" (passAt shownAt)) (.start (ws 0)) db).2 =
      ((ws 0).run (.still shownAt) "" (passAt shownAt) db).tables :=
    (solo_eq_run (.still shownAt) "" (passAt shownAt) (.start (ws 0)) db rfl).1
  rw [← Worker.tables_run (r := .still shownAt) (s := ""), onePass, ← List.map_replicate, hsolo,
    hinputs, hrun]

/-- The last contents of a sequence are those of the state reached. -/
theorem getLast?_contents (t : Table) (s : System n) (es : List (Event n)) (e : Event n) :
    (contents t s (es ++ [e])).getLast? = some ((s.after (es ++ [e])).db t) := by
  rw [contents, getLast?_outputs, finalState, System.after, List.foldl_append]
  rfl

/-- Under settings that show the table the same, one pass leaves the same of it. -/
theorem SameContents.tryDeletes_eq (h : SameContents t cfg cfg') (db : Tables) :
    ((workerThread cfg 1 false (.still shownAt)).tryDeletes (passAt shownAt) db).2.1 t =
      ((workerThread cfg' 1 false (.still shownAt)).tryDeletes (passAt shownAt) db).2.1 t := by
  have hok : ∀ e ∈ onePass, e.Succeeds := by
    intro e he
    rw [List.eq_of_mem_replicate he]
    exact (by decide : ¬ Attempt.succeeds.raises)
  have hlast := congrArg List.getLast?
    (h 1 false (fun _ => .still shownAt) shownAt db onePass hok)
  have hsplit : onePass = List.replicate 13 (Event.work 0 shownInput) ++
      [Event.work 0 shownInput] := List.replicate_succ'
  rw [hsplit, getLast?_contents, getLast?_contents, ← hsplit, system, system, db_onePass,
    db_onePass] at hlast
  exact Option.some.inj hlast

/-- One row and one pass tell two ages apart, unless the limit is zero. -/
theorem not_sameContents (hlimit : limitSetting cfg t ≠ 0)
    (hage : (ageSetting cfg t).toInt < (ageSetting cfg' t).toInt) : ¬ SameContents t cfg cfg' := by
  intro h
  -- the row lies at the cutoff of the greater age
  let r : Row := ⟨1, shownAt.secs - (ageSetting cfg' t).toInt, []⟩
  have hpass := h.tryDeletes_eq (oneRow t r)
  rw [tryDeletes_oneRow cfg shownAt r t ?_ ?_] at hpass
  · have hkept : r ∈ ((workerThread cfg' 1 false (.still shownAt)).tryDeletes (passAt shownAt)
        (oneRow t r)).2.1 t := by
      by_contra hgone
      have hlt := createTs_lt_of_deleted (i := passAt shownAt)
        (by simp [oneRow] : r ∈ oneRow t r t) hgone
      have hnow : (passAt shownAt).now t = shownAt := by cases t <;> rfl
      rw [hnow] at hlt
      exact lt_irrefl _ hlt
    rw [← hpass] at hkept
    exact absurd hkept (Finset.notMem_empty r)
  · exact fun hzero => hlimit (Int32.toInt_inj.mp hzero)
  · show shownAt.secs - (ageSetting cfg' t).toInt < _
    omega

theorem SameContents.symm (h : SameContents t cfg cfg') : SameContents t cfg' cfg :=
  fun n console m now db es hes => (h n console m now db es hes).symm

/-- **With a common limit, a table is the same under two ages only if they are
equal or the limit is zero.** -/
theorem sameContents_iff (hlimit : limitSetting cfg t = limitSetting cfg' t) :
    SameContents t cfg cfg' ↔ ageSetting cfg t = ageSetting cfg' t ∨ limitSetting cfg t = 0 := by
  refine ⟨fun h => ?_, sameContents_of_settings hlimit⟩
  by_contra hne
  rw [not_or] at hne
  obtain ⟨hage, hzero⟩ := hne
  rcases lt_or_gt_of_ne fun heq => hage (Int32.toInt_inj.mp heq) with hlt | hlt
  · exact not_sameContents hzero hlt h
  · exact not_sameContents (hlimit ▸ hzero) hlt h.symm

/-! ### When the policies are independent -/

/-- **The settings for packets leave raw rows alone only if they do not set the
age, or no raw rows are deleted.**  The age of raw rows is read under the key of
the age of packets.  Settings that neither are the age nor the limit of packets do
leave the packets alone. -/
theorem independent_iff (cfg cfg' : Config)
    (h : cfg.DifferOnlyIn
      {"app.threads.worker.age.packet", "app.threads.worker.limit.packet"} cfg') :
    (SameContents .raw cfg cfg' ↔
      cfg.getInt "app.threads.worker.age.packet" 86400 =
          cfg'.getInt "app.threads.worker.age.packet" 86400 ∨
        cfg.getInt "app.threads.worker.limit.raw" 2000 = 0) ∧
    ∀ (keys : Set String) (cfg₁ cfg₂ : Config), "app.threads.worker.age.packet" ∉ keys →
      "app.threads.worker.limit.packet" ∉ keys → cfg₁.DifferOnlyIn keys cfg₂ →
      SameContents .packet cfg₁ cfg₂ := by
  constructor
  · exact sameContents_iff (t := .raw) (h.getInt_eq (by simp) 2000)
  · intro keys cfg₁ cfg₂ hage hlimit hkeys
    exact sameContents_of_settings (t := .packet) (hkeys.getInt_eq hlimit 2000)
      (Or.inl (hkeys.getInt_eq hage (86400 * 10)))

/-- Another limit for packets leaves raw rows alone. -/
theorem raw_same_under_packet_limits :
    let cfg := Config.ofInt "app.threads.worker" 1
    SameContents .raw (cfg.setInt "app.threads.worker.limit.packet" 5)
      (cfg.setInt "app.threads.worker.limit.packet" 7) :=
  (independent_iff _ _ (Config.differOnlyIn_setInt (by simp) _ 5 7)).1.mpr (Or.inl (by decide))

/-- Another age for packets does not: a raw row from before the later cutoff only
is deleted under one of the two. -/
theorem raw_differs_under_packet_ages :
    let cfg := (Config.ofInt "app.threads.worker" 1).setInt "app.threads.worker.age.packet" 10
    let cfg' := (Config.ofInt "app.threads.worker" 1).setInt "app.threads.worker.age.packet" 20
    cfg.DifferOnlyIn {"app.threads.worker.age.packet", "app.threads.worker.limit.packet"} cfg' ∧
      ¬ SameContents .raw cfg cfg' := by
  intro cfg cfg'
  refine ⟨Config.differOnlyIn_setInt (by simp) _ 10 20, ?_⟩
  exact not_sameContents (t := .raw) (by decide) (by decide)

end App
end AprsPruner
