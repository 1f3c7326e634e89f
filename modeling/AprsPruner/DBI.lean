import AprsPruner.Mysql

/-!
# The deletions by age

`DBI::deletePacketsByAge` and `DBI::deleteRawByAge`: one attempt to delete the
rows of a table that are older than an age, inside a transaction, with both
exception families caught.  The two bodies differ in the table they name and in
the text they log, so both are `deleteBefore` at their own literals.

A local `num_affected_rows` is assigned after `affected_rows()` and before
`commit()`, and what it holds when an exception is caught is returned.

## Main definitions

* `deleteBody` — the body of the `try` block.
* `deleteBefore` — the `try` block with its two handlers, from the cutoff on.
* `deletePacketsByAge`, `deleteRawByAge` — the two functions.
* `Table.deleteBefore` — the deletion of either table, from the cutoff on.
* `AllOrNothing` — the count returned is the number of rows gone for good.

## Main results

* `table_deleteBefore_eq` — the specification of one deletion.
* `lt_cutoff_of_removed`, `card_removed_le` — which rows go, and how many.
* `numAffectedRows_of_commit` — the count is the truth if `commit()` returns.
* `deletions_truthful_iff` — **when the count returned can be trusted.**
-/

namespace AprsPruner

open BatchPrune

namespace DBI

/-! ### The functions -/

/-- The locals of one call: the tables as its transaction sees them, and
`num_affected_rows`. -/
structure Locals where
  /-- The tables, as the transaction leaves them. -/
  tables : Tables
  /-- `num_affected_rows` -/
  numAffectedRows : UInt64

/-- What runs inside the `try` block. -/
abbrev TryM := ExceptT Exception (StateM Locals)

/-- A call that raises the given exception, if any. -/
def raising : Option Exception → TryM Unit
  | none => pure ()
  | some e => throw e

/-- `query.execute()`: the server reads the text and removes the rows. -/
def execute (p : Picker) (query : String) : TryM (Finset Row) := do
  match readDelete query with
  | none => throw (.badQuery 1064 "You have an error in your SQL syntax")
  | some stmt =>
    let locals ← get
    let rows := locals.tables stmt.table
    let removed := p.pick rows stmt.cutoff stmt.limit
    set { locals with tables := Function.update locals.tables stmt.table (rows \ removed) }
    return removed

/-- The body of the `try` block.  The exceptions of `a` are raised by the calls
they belong to. -/
def deleteBody (head : String) (cutoff : Int64) (limit : UInt64) (p : Picker) (a : Attempt) :
    TryM Unit := do
  raising a.transaction
  let query := deleteText head cutoff limit
  raising a.execute
  let removed ← execute p query
  raising a.affectedRows
  modify fun locals => { locals with numAffectedRows := UInt64.ofNat removed.card }
  raising a.commit

/-- What a call leaves behind: the committed tables, the count it returns,
whether it called `reconnect()`, and what it logged. -/
structure DeleteResult where
  /-- The tables it leaves. -/
  tables : Tables
  /-- The count it returns. -/
  numAffectedRows : UInt64
  /-- It asks for a new connection. -/
  reconnect : Bool
  /-- What it logs. -/
  log : List LogLine

/-- The handlers: `errnum` between 2000 and 2999 is a client error. -/
def reconnects : Exception → Bool
  | .badQuery errnum _ => decide (2000 ≤ errnum ∧ errnum < 3000)
  | .other _ => false

/-- What the handlers log, after the `tag` of the function. -/
def logLine (tag : String) : Exception → LogLine
  | .badQuery errnum what => ⟨.warn, tag ++ "#" ++ toString errnum ++ " " ++ what⟩
  | .other what => ⟨.warn, tag ++ " " ++ what⟩

/-- The `try` block and its handlers.  A transaction left without a `commit()`
that returned is rolled back; the locals keep what they were assigned. -/
def deleteBefore (head tag : String) (cutoff : Int64) (limit : UInt64) (p : Picker)
    (a : Attempt) (db : Tables) : DeleteResult :=
  match (deleteBody head cutoff limit p a).run.run ⟨db, 0⟩ with
  | (.ok (), locals) => ⟨locals.tables, locals.numAffectedRows, false, []⟩
  | (.error e, locals) => ⟨db, locals.numAffectedRows, reconnects e, [logLine tag e]⟩

/-- `DBI::deletePacketsByAge`, once `time(NULL) - age` is computed. -/
def deletePacketsBefore : Int64 → UInt64 → Picker → Attempt → Tables → DeleteResult :=
  deleteBefore "DELETE FROM packet WHERE create_ts < " "*** MySQL++ Error{Delete::packet}: "

/-- `DBI::deleteRawByAge`, once `time(NULL) - age` is computed. -/
def deleteRawBefore : Int64 → UInt64 → Picker → Attempt → Tables → DeleteResult :=
  deleteBefore "DELETE FROM raw WHERE create_ts < " "*** MySQL++ Error{Delete::raw}: "

/-- `DBI::deletePacketsByAge`. -/
def deletePacketsByAge (now : Clock) (age : Int64) (limit : UInt64) (p : Picker) (a : Attempt)
    (db : Tables) : DeleteResult :=
  deletePacketsBefore (now.time - age) limit p a db

/-- `DBI::deleteRawByAge`. -/
def deleteRawByAge (now : Clock) (age : Int64) (limit : UInt64) (p : Picker) (a : Attempt)
    (db : Tables) : DeleteResult :=
  deleteRawBefore (now.time - age) limit p a db

end DBI

/-- The deletion from either table, once its cutoff is computed. -/
def Table.deleteBefore : Table → Int64 → UInt64 → Picker → Attempt → Tables → DBI.DeleteResult
  | .packet => DBI.deletePacketsBefore
  | .raw => DBI.deleteRawBefore

/-- What a function writes before the exception it logs. -/
def Table.logTag : Table → String
  | .packet => "*** MySQL++ Error{Delete::packet}: "
  | .raw => "*** MySQL++ Error{Delete::raw}: "

/-! ### The specification of one deletion -/

/-- The exception that ends an attempt: the first one raised. -/
def Attempt.raised (a : Attempt) : Option Exception :=
  a.transaction <|> a.execute <|> a.affectedRows <|> a.commit

namespace DBI

variable {cutoff : Int64} {limit : UInt64} {p : Picker} {a : Attempt} {db : Tables}

/-- The server reads the text of either function as its own `DELETE`. -/
private theorem run_execute (t : Table) (locals : Locals) :
    (execute p (deleteText ("DELETE FROM " ++ t.name ++ " WHERE create_ts < ") cutoff
        limit)).run.run locals =
      let removed := p.pick (locals.tables t) cutoff.toInt limit.toNat
      (.ok removed,
        { locals with tables := Function.update locals.tables t (locals.tables t \ removed) }) := by
  rw [execute, readDelete_deleteText]
  rfl

/-- **The specification of a deletion**, at the literals either function passes. -/
theorem table_deleteBefore_eq (t : Table) :
    t.deleteBefore cutoff limit p a db =
      { tables := if a.raises then db
          else Function.update db t (db t \ p.pick (db t) cutoff.toInt limit.toNat)
        numAffectedRows := if a.reachesCommit then
          UInt64.ofNat (p.pick (db t) cutoff.toInt limit.toNat).card else 0
        reconnect := a.raised.elim false reconnects
        log := a.raised.elim [] fun e => [logLine t.logTag e] } := by
  have hlit : t.deleteBefore = deleteBefore ("DELETE FROM " ++ t.name ++ " WHERE create_ts < ")
      t.logTag := by cases t <;> rfl
  rw [hlit]
  -- one case for each call that may raise
  obtain ⟨_ | e₁, _ | e₂, _ | e₃, _ | e₄⟩ := a <;>
    simp [deleteBefore, deleteBody, raising, run_execute, Attempt.raised, Attempt.raises,
      Attempt.reachesCommit] <;> rfl

/-! ### What a deletion does to the tables and to its count -/

/-- A deletion leaves the other table alone. -/
theorem tables_deleteBefore_of_ne {t u : Table} (h : u ≠ t) :
    (t.deleteBefore cutoff limit p a db).tables u = db u := by
  rw [table_deleteBefore_eq]
  simp only
  split
  · rfl
  · exact Function.update_of_ne h _ _

/-- An attempt in which a call raises leaves both tables alone. -/
theorem tables_deleteBefore_of_raises (t : Table) (ha : a.raises) :
    (t.deleteBefore cutoff limit p a db).tables = db := by
  rw [table_deleteBefore_eq]
  exact if_pos ha

theorem tables_deleteBefore_self (t : Table) (ha : ¬ a.raises) :
    (t.deleteBefore cutoff limit p a db).tables t =
      db t \ p.pick (db t) cutoff.toInt limit.toNat := by
  rw [table_deleteBefore_eq]
  simp only [if_neg ha, Function.update_self]

/-- What a deletion leaves of its table depends on that table alone. -/
theorem tables_deleteBefore_congr {t : Table} {db' : Tables} (h : db t = db' t) :
    (t.deleteBefore cutoff limit p a db).tables t =
      (t.deleteBefore cutoff limit p a db').tables t := by
  by_cases ha : a.raises
  · rw [tables_deleteBefore_of_raises t ha, tables_deleteBefore_of_raises t ha, h]
  · rw [tables_deleteBefore_self t ha, tables_deleteBefore_self t ha, h]

/-- The rows a deletion removes for good. -/
theorem removed_deleteBefore (t : Table) :
    db t \ (t.deleteBefore cutoff limit p a db).tables t =
      if a.raises then ∅ else p.pick (db t) cutoff.toInt limit.toNat := by
  by_cases ha : a.raises
  · rw [tables_deleteBefore_of_raises t ha, if_pos ha, Finset.sdiff_self]
  · rw [tables_deleteBefore_self t ha, if_neg ha]
    exact Finset.sdiff_sdiff_eq_self (p.isBatch _ _ _).subset_live

/-- No deletion adds a row. -/
theorem tables_deleteBefore_subset (t u : Table) :
    (t.deleteBefore cutoff limit p a db).tables u ⊆ db u := by
  rcases eq_or_ne u t with rfl | hne
  · by_cases ha : a.raises
    · rw [tables_deleteBefore_of_raises u ha]
    · rw [tables_deleteBefore_self u ha]
      exact Finset.sdiff_subset
  · rw [tables_deleteBefore_of_ne hne]

/-- **Only rows before the cutoff go, and only from the table named.** -/
theorem lt_cutoff_of_removed {t u : Table} {r : Row} (hr : r ∈ db u)
    (hgone : r ∉ (t.deleteBefore cutoff limit p a db).tables u) :
    u = t ∧ r.createTs < cutoff.toInt := by
  rcases eq_or_ne u t with rfl | hne
  · have hmem := Finset.mem_sdiff.mpr ⟨hr, hgone⟩
    rw [removed_deleteBefore] at hmem
    split at hmem
    · exact absurd hmem (Finset.notMem_empty r)
    · exact ⟨rfl, (p.isBatch _ _ _).key_lt hmem⟩
  · rw [tables_deleteBefore_of_ne hne] at hgone
    exact absurd hr hgone

/-- **At most `limit` rows go.** -/
theorem card_removed_le (t : Table) :
    (db t \ (t.deleteBefore cutoff limit p a db).tables t).card ≤ limit.toNat := by
  rw [removed_deleteBefore]
  split
  · exact Nat.zero_le _
  · exact (p.isBatch _ _ _).card_le_limit

theorem toNat_ofNat_card_pick (rows : Finset Row) (z : ℤ) :
    (UInt64.ofNat (p.pick rows z limit.toNat).card).toNat = (p.pick rows z limit.toNat).card :=
  UInt64.toNat_ofNat_of_lt ((p.isBatch _ _ _).card_le_limit.trans_lt limit.toNat_lt)

theorem numAffectedRows_deleteBefore (t : Table) :
    (t.deleteBefore cutoff limit p a db).numAffectedRows.toNat =
      if a.reachesCommit then (p.pick (db t) cutoff.toInt limit.toNat).card else 0 := by
  rw [table_deleteBefore_eq]
  simp only
  split
  · exact toNat_ofNat_card_pick _ _
  · rfl

/-- **If `commit()` does not raise, the count returned is the number of rows gone.** -/
theorem numAffectedRows_of_commit (t : Table) (ha : a.commit = none) :
    (t.deleteBefore cutoff limit p a db).numAffectedRows.toNat =
      (db t \ (t.deleteBefore cutoff limit p a db).tables t).card := by
  rw [numAffectedRows_deleteBefore, removed_deleteBefore]
  by_cases hr : a.reachesCommit
  · have hraises : ¬ a.raises := not_not_intro ⟨hr, ha⟩
    rw [if_pos hr, if_neg hraises]
  · have hraises : a.raises := fun h => hr h.1
    rw [if_neg hr, if_pos hraises, Finset.card_empty]

/-! ### When the count returned can be trusted -/

/-- The count returned is the number of rows gone from `t` for good, and when a
call raises nothing is gone and the count is zero. -/
def AllOrNothing (t : Table) (db : Tables) (a : Attempt) (res : DeleteResult) : Prop :=
  res.numAffectedRows.toNat = (db t \ res.tables t).card ∧
    (a.raises → res.tables = db ∧ res.numAffectedRows = 0)

/-- Only `commit()` raises, and the statement before it had rows to delete. -/
def CommitFailsOnRows (t : Table) (cutoff : Int64) (limit : UInt64) (a : Attempt)
    (db : Tables) : Prop :=
  a.reachesCommit ∧ a.commit ≠ none ∧ limit ≠ 0 ∧ ∃ r ∈ db t, r.createTs < cutoff.toInt

/-- A deletion is all or nothing unless its `commit()` fails on rows. -/
theorem allOrNothing_iff (t : Table) :
    AllOrNothing t db a (t.deleteBefore cutoff limit p a db) ↔
      ¬ CommitFailsOnRows t cutoff limit a db := by
  have hcard : (p.pick (db t) cutoff.toInt limit.toNat).card = 0 ↔
      ¬ (limit ≠ 0 ∧ ∃ r ∈ db t, r.createTs < cutoff.toInt) := by
    have hlimit : limit.toNat = 0 ↔ limit = 0 := by rw [← UInt64.toNat_inj, UInt64.toNat_zero]
    rw [(p.isBatch _ _ _).card_eq_zero_iff, hlimit]
    push Not
    exact or_iff_not_imp_left
  by_cases hc : a.commit = none
  · -- the commit succeeds: the count is the truth, and zero if anything raised before
    refine iff_of_true ⟨numAffectedRows_of_commit t hc, fun ha => ?_⟩ fun h => h.2.1 hc
    refine ⟨tables_deleteBefore_of_raises t ha, UInt64.toNat_inj.mp ?_⟩
    rw [numAffectedRows_deleteBefore, if_neg fun hr => ha ⟨hr, hc⟩, UInt64.toNat_zero]
  · have ha : a.raises := fun h => hc h.2
    have hiff : AllOrNothing t db a (t.deleteBefore cutoff limit p a db) ↔
        (t.deleteBefore cutoff limit p a db).numAffectedRows.toNat = 0 := by
      rw [AllOrNothing, tables_deleteBefore_of_raises t ha, Finset.sdiff_self,
        Finset.card_empty, ← UInt64.toNat_inj, UInt64.toNat_zero]
      tauto
    rw [hiff, numAffectedRows_deleteBefore, CommitFailsOnRows]
    by_cases hr : a.reachesCommit
    · rw [if_pos hr, hcard]
      exact not_congr ⟨fun h => ⟨hr, hc, h⟩, fun h => h.2.2⟩
    · simp [hr]

/-- **The count returned can be trusted unless `commit()` fails on rows**: for
each of the two functions, and the two have the same outcome on the same rows. -/
theorem deletions_truthful_iff (now : Clock) (age : Int64) (limit : UInt64) (p : Picker)
    (a : Attempt) (db : Tables) :
    (AllOrNothing .packet db a (deletePacketsByAge now age limit p a db) ↔
        ¬ CommitFailsOnRows .packet (now.time - age) limit a db) ∧
      (AllOrNothing .raw db a (deleteRawByAge now age limit p a db) ↔
        ¬ CommitFailsOnRows .raw (now.time - age) limit a db) ∧
      (deleteRawByAge now age limit p a (fun _ => db .packet)).numAffectedRows =
        (deletePacketsByAge now age limit p a db).numAffectedRows ∧
      (deleteRawByAge now age limit p a (fun _ => db .packet)).reconnect =
        (deletePacketsByAge now age limit p a db).reconnect ∧
      (deleteRawByAge now age limit p a (fun _ => db .packet)).tables .raw =
        (deletePacketsByAge now age limit p a db).tables .packet := by
  refine ⟨allOrNothing_iff .packet, allOrNothing_iff .raw, ?_⟩
  have hpacket : deletePacketsByAge now age limit p a db =
      Table.packet.deleteBefore (now.time - age) limit p a db := rfl
  have hraw : deleteRawByAge now age limit p a (fun _ => db .packet) =
      Table.raw.deleteBefore (now.time - age) limit p a fun _ => db .packet := rfl
  rw [hpacket, hraw, table_deleteBefore_eq, table_deleteBefore_eq]
  refine ⟨rfl, rfl, ?_⟩
  by_cases ha : a.raises <;> simp [ha]

/-- The connection is lost during `commit()`: one row is counted, none is gone. -/
theorem commit_failure_miscounts :
    ¬ AllOrNothing .packet (fun _ => {⟨1, 0, []⟩})
      ⟨none, none, none, some (.badQuery 2013 "Lost connection to MySQL server during query")⟩
      (deletePacketsByAge (.ofEpoch 1000) 10 2000 Picker.inOrder
        ⟨none, none, none, some (.badQuery 2013 "Lost connection to MySQL server during query")⟩
        fun _ => {⟨1, 0, []⟩}) := by
  intro h
  refine (allOrNothing_iff .packet).mp h ⟨by decide, by decide, by decide, ⟨1, 0, []⟩, ?_, ?_⟩
  · exact Finset.mem_singleton_self _
  · decide

end DBI
end AprsPruner
