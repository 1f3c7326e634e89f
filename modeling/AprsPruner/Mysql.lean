import Mathlib
import AprsPruner.Basic
import AprsPruner.Lib.Stock

/-!
# The two tables, and what MySQL makes of a statement

The pruner talks to MySQL in one kind of statement,

    DELETE FROM packet WHERE create_ts < 1350000000 LIMIT 2000

written as text and sent inside a transaction.  This file models the tables, the
reading of that text by the server, the rows the statement removes, and the ways
the calls of one attempt can fail.  Which of the rows below the cutoff go when
there are more than the limit is left to a `Picker`.

## Main definitions

* `Table`, `Row`, `Tables` — the two tables and their contents.
* `deleteText`, `readDelete` — the text of a statement, and its reading.
* `Picker` — MySQL's choice of rows under `LIMIT`.
* `Exception`, `Attempt` — the exceptions of MySQL++, and how an attempt goes.

## Main results

* `readDelete_deleteText` — **the server reads back the cutoff and the limit the
  client wrote**, for every 64-bit value of either.
-/

namespace AprsPruner

open BatchPrune

/-! ### Tables -/

/-- The two tables the pruner deletes from. -/
inductive Table where
  /-- `packet` -/
  | packet : Table
  /-- `raw` -/
  | raw : Table
  deriving DecidableEq, Repr

instance : Fintype Table where
  elems := {.packet, .raw}
  complete t := by cases t <;> decide

/-- The name of a table in a statement. -/
def Table.name : Table → String
  | .packet => "packet"
  | .raw => "raw"

/-- A row: its identity, the column the statements look at, and the others.  Two
rows inserted with equal columns differ in `rowId`. -/
structure Row where
  /-- What tells it from rows with equal columns. -/
  rowId : ℕ
  /-- `create_ts` -/
  createTs : ℤ
  /-- The other columns. -/
  columns : List String
  deriving DecidableEq, Repr

/-- The rows of either table. -/
abbrev Tables := Table → Finset Row

/-- The rows of a table that lie before a cutoff. -/
abbrev expired (rows : Finset Row) (cutoff : ℤ) : Finset Row := below Row.createTs rows cutoff

/-! ### The statement as text -/

/-- What a `DELETE` statement of the pruner says. -/
structure DeleteStmt where
  /-- `FROM` -/
  table : Table
  /-- `WHERE create_ts <` -/
  cutoff : ℤ
  /-- `LIMIT` -/
  limit : ℕ
  deriving DecidableEq, Repr

/-- The text `query` holds after the `<<`s: `head` is the literal up to the
cutoff, then come the cutoff, `" LIMIT "` and the limit, in decimal. -/
def deleteText (head : String) (cutoff : Int64) (limit : UInt64) : String :=
  head ++ toString cutoff.toInt ++ " LIMIT " ++ toString limit.toNat

/-- The table a statement names. -/
def readTable (name : String) : Option Table :=
  if name = Table.packet.name then some .packet
  else if name = Table.raw.name then some .raw
  else none

/-- The words of a statement, as the server sees them. -/
def readWords : List String → Option DeleteStmt
  | ["DELETE", "FROM", name, "WHERE", "create_ts", "<", cutoff, "LIMIT", limit] => do
    let table ← readTable name
    let cutoff ← cutoff.toInt?
    let limit ← limit.toNat?
    return ⟨table, cutoff, limit⟩
  | _ => none

/-- How the server reads a statement: word by word, its numbers in decimal. -/
def readDelete (text : String) : Option DeleteStmt :=
  readWords ((text.split ' ').toList.map fun word => word.copy)

@[simp] theorem readTable_name (t : Table) : readTable t.name = some t := by
  cases t <;> decide

private theorem space_notMem_repr_nat (n : ℕ) : ' ' ∉ n.repr.toList := by
  intro h
  rw [Nat.toList_repr] at h
  exact absurd (Nat.isDigit_of_mem_toDigits (by decide) (by decide) h) (by decide)

private theorem space_notMem_repr_int (z : ℤ) : ' ' ∉ z.repr.toList := by
  cases z with
  | ofNat n => exact space_notMem_repr_nat n
  | negSucc n =>
    rw [show (Int.negSucc n).repr = "-" ++ (n + 1).repr from rfl, String.toList_append]
    simpa using space_notMem_repr_nat (n + 1)

/-- The text of a statement is its nine words, joined by blanks. -/
private theorem deleteText_eq (t : Table) (cutoff : Int64) (limit : UInt64) :
    deleteText ("DELETE FROM " ++ t.name ++ " WHERE create_ts < ") cutoff limit =
      String.intercalate (String.singleton ' ')
        ["DELETE", "FROM", t.name, "WHERE", "create_ts", "<", cutoff.toInt.repr, "LIMIT",
          limit.toNat.repr] := by
  apply String.toList_inj.mp
  cases t <;> simp [deleteText, Table.name]

/-- **The server reads back what the client wrote**, whatever the 64-bit cutoff
and the 64-bit limit are. -/
theorem readDelete_deleteText (t : Table) (cutoff : Int64) (limit : UInt64) :
    readDelete (deleteText ("DELETE FROM " ++ t.name ++ " WHERE create_ts < ") cutoff limit) =
      some ⟨t, cutoff.toInt, limit.toNat⟩ := by
  have hwords : ∀ w ∈ ["DELETE", "FROM", t.name, "WHERE", "create_ts", "<", cutoff.toInt.repr,
      "LIMIT", limit.toNat.repr], ' ' ∉ w.toList := by
    simp only [List.mem_cons, List.not_mem_nil, or_false]
    rintro w (rfl | rfl | rfl | rfl | rfl | rfl | rfl | rfl | rfl)
    case inr.inr.inl => cases t <;> decide
    case inr.inr.inr.inr.inr.inr.inl => exact space_notMem_repr_int _
    case inr.inr.inr.inr.inr.inr.inr.inr => exact space_notMem_repr_nat _
    all_goals decide
  rw [readDelete, deleteText_eq, String.toList_split_intercalate hwords, if_neg (by simp)]
  simp [readWords, Int.toInt?_repr, Nat.toNat?_repr]

/-! ### The rows a statement removes -/

/-- MySQL's choice of rows under `LIMIT`: rows before the cutoff, all of them or
as many as the limit allows. -/
structure Picker where
  /-- The rows taken. -/
  pick : Finset Row → ℤ → ℕ → Finset Row
  /-- They are a batch. -/
  isBatch : ∀ rows cutoff limit, IsBatch Row.createTs rows cutoff limit (pick rows cutoff limit)

/-- Rows in the order of their identities. -/
instance : LinearOrder Row :=
  LinearOrder.lift' (fun r : Row => toLex (r.rowId, toLex (r.createTs, r.columns)))
    fun a b h => by
      have h' : (a.rowId, toLex (a.createTs, a.columns)) =
        (b.rowId, toLex (b.createTs, b.columns)) := h
      obtain ⟨h₁, h₂⟩ := Prod.mk.inj h'
      have h₃ : (a.createTs, a.columns) = (b.createTs, b.columns) := h₂
      obtain ⟨h₄, h₅⟩ := Prod.mk.inj h₃
      cases a; cases b; simp_all

/-- The picker that takes the expired rows with the smallest identities. -/
def Picker.inOrder : Picker where
  pick rows cutoff limit := (((expired rows cutoff).sort (· ≤ ·)).take limit).toFinset
  isBatch rows cutoff limit := by
    refine ⟨fun r hr => ?_, ?_⟩
    · exact (Finset.mem_sort _).mp (List.mem_of_mem_take (List.mem_toFinset.mp hr))
    · rw [List.toFinset_card_of_nodup ((List.take_sublist _ _).nodup (Finset.sort_nodup _ _)),
        List.length_take, Finset.length_sort]

/-! ### How an attempt goes -/

/-- What a call of MySQL++ raises: `mysqlpp::BadQuery` with its error number, or
any other `mysqlpp::Exception`. -/
inductive Exception where
  /-- `mysqlpp::BadQuery` -/
  | badQuery (errnum : Int32) (what : String) : Exception
  /-- Any other exception. -/
  | other (what : String) : Exception
  deriving DecidableEq, Repr

/-- What the four calls of one attempt do: `none` for one that returns, the
exception for one that raises. -/
structure Attempt where
  /-- The exception that opening the transaction raises, if it does. -/
  transaction : Option Exception
  /-- The exception that the query raises, if it does. -/
  execute : Option Exception
  /-- The exception that reading the count raises, if it does. -/
  affectedRows : Option Exception
  /-- The exception that `commit()` raises, if it does. -/
  commit : Option Exception
  deriving DecidableEq, Repr

/-- The attempt in which nothing raises. -/
def Attempt.succeeds : Attempt := ⟨none, none, none, none⟩

/-- Nothing raises before `commit()`. -/
def Attempt.reachesCommit (a : Attempt) : Prop :=
  a.transaction = none ∧ a.execute = none ∧ a.affectedRows = none

instance (a : Attempt) : Decidable a.reachesCommit := inferInstanceAs (Decidable (_ ∧ _))

/-- Some call raises. -/
def Attempt.raises (a : Attempt) : Prop := ¬ (a.reachesCommit ∧ a.commit = none)

instance (a : Attempt) : Decidable a.raises := inferInstanceAs (Decidable (¬ _))

end AprsPruner
