import AprsPruner.DBI

/-!
# Pruning in batches catches up

The deletions by age of one table, one after the other, with a common age and a
common limit: whoever makes them, other clients insert rows between them and
MySQL picks the rows under the limit.  Seen from the table, the sequence is a run
of the stock of `AprsPruner.Lib.Stock`, and what batches achieve together is a
fact about stocks.

## Main definitions

* `Table.deleteByAge` — the deletion function of either table.
* `Round`, `deletions` — a sequence of deletions that all succeed.
* `stockOps` — the sequence as arrivals and batches.

## Main results

* `run_deletions` — **a sequence of deletions is a run of the stock.**
* `batches_catch_up` — **enough batches do what one unlimited `DELETE` does.**
-/

namespace AprsPruner

open BatchPrune Transition

/-- The deletion function of either table. -/
def Table.deleteByAge : Table → Clock → Int64 → UInt64 → Picker → Attempt → Tables →
    DBI.DeleteResult
  | .packet => DBI.deletePacketsByAge
  | .raw => DBI.deleteRawByAge

theorem Table.deleteByAge_eq (t : Table) (now : Clock) (age : Int64) :
    t.deleteByAge now age = t.deleteBefore (now.time - age) := by cases t <;> rfl

/-! ### Sequences of deletions -/

/-- One deletion of a sequence: the rows other clients insert before it, the
reading its cutoff is computed from, and MySQL's choice of rows. -/
structure Round where
  /-- The rows inserted before it. -/
  inserts : Finset Row
  /-- The reading its cutoff is computed from. -/
  now : Clock
  /-- MySQL's choice of rows. -/
  picker : Picker

/-- The cutoff a round's statement carries. -/
def Round.cutoff (age : Int64) (r : Round) : ℤ := (r.now.time - age).toInt

/-- Other clients insert rows into a table. -/
def insertRows (t : Table) (rows : Finset Row) (db : Tables) : Tables :=
  Function.update db t (db t ∪ rows)

@[simp] theorem insertRows_self (t : Table) (rows : Finset Row) (db : Tables) :
    insertRows t rows db t = db t ∪ rows := Function.update_self _ _ _

/-- The deletions of a sequence, each of which succeeds: the tables after them and
the counts they return. -/
def deletions (t : Table) (age : Int64) (limit : UInt64) :
    Tables → List Round → Tables × List UInt64
  | db, [] => (db, [])
  | db, r :: rs =>
    let res := t.deleteByAge r.now age limit r.picker .succeeds (insertRows t r.inserts db)
    let rest := deletions t age limit res.tables rs
    (rest.1, res.numAffectedRows :: rest.2)

/-- The rows picked by a round that finds `rows` in the table. -/
def Round.picked (age : Int64) (limit : UInt64) (r : Round) (rows : Finset Row) : Finset Row :=
  r.picker.pick rows (r.cutoff age) limit.toNat

theorem succeeds_not_raises : ¬ Attempt.succeeds.raises := by decide

theorem tables_round (t : Table) (age : Int64) (limit : UInt64) (r : Round) (db : Tables) :
    (t.deleteByAge r.now age limit r.picker .succeeds db).tables t =
      db t \ r.picked age limit (db t) := by
  rw [Table.deleteByAge_eq, DBI.tables_deleteBefore_self t succeeds_not_raises]
  rfl

theorem numAffectedRows_round (t : Table) (age : Int64) (limit : UInt64) (r : Round)
    (db : Tables) :
    (t.deleteByAge r.now age limit r.picker .succeeds db).numAffectedRows.toNat =
      (r.picked age limit (db t)).card := by
  rw [Table.deleteByAge_eq, DBI.numAffectedRows_deleteBefore, if_pos (by decide)]
  rfl

/-! ### The sequence as a run of the stock -/

/-- What a sequence does to the stock of rows of its table. -/
def stockOps (age : Int64) (limit : UInt64) : Finset Row → List Round → List (Op Row ℤ)
  | _, [] => []
  | rows, r :: rs =>
    let picked := r.picked age limit (rows ∪ r.inserts)
    .arrive r.inserts :: .prune (r.cutoff age) limit.toNat picked ::
      stockOps age limit ((rows ∪ r.inserts) \ picked) rs

/-- **A sequence of deletions is a run of the stock** of its table. -/
theorem run_deletions (t : Table) (age : Int64) (limit : UInt64) :
    ∀ (rounds : List Round) (db : Tables) (s : Stock Row), s.live = db t →
      Fresh s.ever (rounds.map Round.inserts) →
      ∃ s' : Stock Row, Run (Step Row.createTs) s (stockOps age limit (db t) rounds) s' ∧
        s'.live = (deletions t age limit db rounds).1 t ∧
        s'.ever = seenAfter s.ever (rounds.map Round.inserts) := by
  intro rounds
  induction rounds with
  | nil =>
    intro db s hlive _
    exact ⟨s, .nil s, hlive, rfl⟩
  | cons r rs ih =>
    intro db s hlive hfresh
    obtain ⟨hnew, hfresh⟩ := hfresh
    let db' := insertRows t r.inserts db
    have hrows : db' t = db t ∪ r.inserts := insertRows_self t r.inserts db
    have harrive : (s.arrive r.inserts).live = db t ∪ r.inserts := by rw [← hlive]; rfl
    let s₂ := (s.arrive r.inserts).remove (r.picked age limit (db t ∪ r.inserts))
    let res := t.deleteByAge r.now age limit r.picker .succeeds db'
    have hres : res.tables t = (db t ∪ r.inserts) \ r.picked age limit (db t ∪ r.inserts) := by
      rw [tables_round, hrows]
    have hlive₂ : s₂.live = res.tables t := by
      rw [hres]
      exact congrArg (· \ r.picked age limit (db t ∪ r.inserts)) harrive
    obtain ⟨s', hrun, hlive', hever'⟩ := ih res.tables s₂ hlive₂ hfresh
    refine ⟨s', ?_, hlive', hever'⟩
    rw [stockOps, ← hres]
    refine .cons ⟨hnew, rfl⟩ (.cons ⟨?_, rfl⟩ hrun)
    rw [harrive]
    exact r.picker.isBatch _ _ _

theorem pruneCount_stockOps (age : Int64) (limit : UInt64) :
    ∀ (rounds : List Round) (rows : Finset Row),
      pruneCount (stockOps age limit rows rounds) = rounds.length := by
  intro rounds
  induction rounds with
  | nil => intro rows; rfl
  | cons r rs ih =>
    intro rows
    rw [stockOps, pruneCount, pruneCount, ih, List.length_cons]

/-- Every batch of a sequence is taken at the cutoff of one of its rounds. -/
theorem prune_mem_stockOps {age : Int64} {limit : UInt64} {c : ℤ} {l : ℕ} {R : Finset Row} :
    ∀ {rounds : List Round} {rows : Finset Row},
      Op.prune c l R ∈ stockOps age limit rows rounds →
        l = limit.toNat ∧ ∃ r ∈ rounds, c = r.cutoff age := by
  intro rounds
  induction rounds with
  | nil => intro rows h; simp [stockOps] at h
  | cons r rs ih =>
    intro rows h
    simp only [stockOps, List.mem_cons, reduceCtorEq, false_or, Op.prune.injEq] at h
    rcases h with ⟨rfl, rfl, -⟩ | h
    · exact ⟨rfl, r, List.mem_cons_self, rfl⟩
    · obtain ⟨hl, r', hr', hc⟩ := ih h
      exact ⟨hl, r', List.mem_cons_of_mem _ hr', hc⟩

/-- The counts returned are the sizes of the batches. -/
theorem sum_counts (t : Table) (age : Int64) (limit : UInt64) :
    ∀ (rounds : List Round) (db : Tables),
      ((deletions t age limit db rounds).2.map UInt64.toNat).sum =
        ((stockOps age limit (db t) rounds).map Op.removed).sum := by
  intro rounds
  induction rounds with
  | nil => intro db; rfl
  | cons r rs ih =>
    intro db
    have hrows := insertRows_self t r.inserts db
    simp only [deletions, stockOps, List.map_cons, List.sum_cons, Op.removed, Nat.zero_add]
    rw [numAffectedRows_round, ih, tables_round, hrows]

/-! ### Enough batches -/

/-- The cutoffs of a sequence. -/
def cutoffs (age : Int64) (rounds : List Round) : List ℤ := rounds.map (Round.cutoff age)

/-- The table one `DELETE` without `LIMIT` leaves. -/
def deleteUnlimited (rows : Finset Row) (cutoff : ℤ) : Finset Row := rows \ expired rows cutoff

/-- The rounds of a sequence without inserts, all at one cutoff. -/
def SteadyAt (age : Int64) (c : ℤ) (rounds : List Round) : Prop :=
  ∀ r ∈ rounds, r.inserts = ∅ ∧ r.cutoff age = c

/-- The first of a nondecreasing list bounds it from below, the last from above. -/
theorem bounds_of_pairwise_le {l : List ℤ} {a b c : ℤ} (h : l.Pairwise (· ≤ ·))
    (ha : l.head? = some a) (hb : l.getLast? = some b) (hc : c ∈ l) : a ≤ c ∧ c ≤ b := by
  cases l with
  | nil => simp at hc
  | cons x xs =>
    obtain rfl : x = a := by simpa using ha
    refine ⟨?_, ?_⟩
    · rcases List.mem_cons.mp hc with rfl | hc
      · exact le_rfl
      · exact List.rel_of_pairwise_cons h hc
    · obtain ⟨ys, hys⟩ := List.getLast?_eq_some_iff.mp hb
      rw [hys] at h hc
      rcases List.mem_append.mp hc with hc | hc
      · exact (List.pairwise_append.mp h).2.2 c hc b (List.mem_singleton_self b)
      · rw [List.mem_singleton.mp hc]

variable {t : Table} {age : Int64} {limit : UInt64} {db : Tables} {rounds : List Round}

/-- The stock of the rows of a table at the beginning. -/
def initialStock (db : Tables) (t : Table) : Stock Row := .full (db t)

/-- Rows at or after every cutoff of a sequence are left. -/
theorem mem_deletions_of_cutoffs_le {c : ℤ} (hfresh : Fresh (db t) (rounds.map Round.inserts))
    (hc : ∀ r ∈ rounds, r.cutoff age ≤ c) {r : Row}
    (hr : r ∈ seenAfter (db t) (rounds.map Round.inserts)) (hts : c ≤ r.createTs) :
    r ∈ (deletions t age limit db rounds).1 t := by
  obtain ⟨s', hrun, hlive, hever⟩ :=
    run_deletions t age limit rounds db (initialStock db t) rfl hfresh
  rw [← hlive]
  refine live_of_bounds_le hrun (fun b l R hm => ?_) rfl (b := c) ?_ hts
  · obtain ⟨-, r', hr', rfl⟩ := prune_mem_stockOps hm
    exact hc r' hr'
  · rw [hever]
    exact hr

/-- **The backlog is gone**: batches that could have held every row before the
last cutoff leave no row of the initial table from before the first. -/
theorem notMem_deletions_of_card_le {c₁ cₙ : ℤ}
    (hfresh : Fresh (db t) (rounds.map Round.inserts))
    (hlo : ∀ r ∈ rounds, c₁ ≤ r.cutoff age) (hhi : ∀ r ∈ rounds, r.cutoff age ≤ cₙ)
    (hle : c₁ ≤ cₙ)
    (hE : (expired (seenAfter (db t) (rounds.map Round.inserts)) cₙ).card ≤
      rounds.length * limit.toNat) {r : Row} (hr : r ∈ db t) (hts : r.createTs < c₁) :
    r ∉ (deletions t age limit db rounds).1 t := by
  obtain ⟨s', hrun, hlive, hever⟩ :=
    run_deletions t age limit rounds db (initialStock db t) rfl hfresh
  rw [← hlive]
  refine caught_up hrun rfl (L := limit.toNat) (b := c₁) (d := cₙ) ?_ ?_ ?_ hle ?_ r hr hts
  · exact fun c l R hm => (prune_mem_stockOps hm).1
  · intro c l R hm
    obtain ⟨-, r', hr', rfl⟩ := prune_mem_stockOps hm
    exact hlo r' hr'
  · intro c l R hm
    obtain ⟨-, r', hr', rfl⟩ := prune_mem_stockOps hm
    exact hhi r' hr'
  · rw [hever, pruneCount_stockOps]
    exact hE

/-! ### A steady cutoff -/

/-- Nothing comes between the rounds. -/
theorem fresh_of_steadyAt {c : ℤ} (h : SteadyAt age c rounds) (seen : Finset Row) :
    Fresh seen (rounds.map Round.inserts) ∧ seenAfter seen (rounds.map Round.inserts) = seen := by
  refine fresh_of_forall_eq_empty (fun A hA => ?_) seen
  obtain ⟨r, hr, rfl⟩ := List.mem_map.mp hA
  exact (h r hr).1

/-- The deletions from one table leave the other alone. -/
theorem deletions_of_ne {u : Table} (hne : u ≠ t) :
    (deletions t age limit db rounds).1 u = db u := by
  induction rounds generalizing db with
  | nil => rfl
  | cons r rs ih =>
    rw [deletions, ih, Table.deleteByAge_eq, DBI.tables_deleteBefore_of_ne hne]
    exact Function.update_of_ne hne _ _

/-- **At a steady cutoff, enough batches leave what one unlimited `DELETE`
leaves**, and their counts add up to its count. -/
theorem deletions_steady (limit : UInt64) (db : Tables) {c : ℤ} (h : SteadyAt age c rounds)
    (hE : (expired (db t) c).card ≤ rounds.length * limit.toNat) :
    (deletions t age limit db rounds).1 t = deleteUnlimited (db t) c ∧
      ((deletions t age limit db rounds).2.map UInt64.toNat).sum = (expired (db t) c).card := by
  obtain ⟨hfresh, hsame⟩ := fresh_of_steadyAt h (db t)
  have hcut : ∀ r ∈ rounds, r.cutoff age = c := fun r hr => (h r hr).2
  obtain ⟨s', hrun, hlive, hever⟩ :=
    run_deletions t age limit rounds db (initialStock db t) rfl hfresh
  have hdb : s'.ever = db t := by
    rw [hever]
    exact hsame
  have htable : (deletions t age limit db rounds).1 t = deleteUnlimited (db t) c := by
    ext r
    rw [deleteUnlimited, Finset.mem_sdiff, mem_below, not_and, not_lt]
    constructor
    · intro hr
      have hmem : r ∈ db t := by
        rw [← hlive] at hr
        exact hdb ▸ s'.live_subset hr
      refine ⟨hmem, fun _ => ?_⟩
      by_contra hlt
      refine notMem_deletions_of_card_le hfresh (fun r hr => (hcut r hr).ge)
        (fun r hr => (hcut r hr).le) le_rfl ?_ hmem (not_le.mp hlt) hr
      rw [hsame]
      exact hE
    · rintro ⟨hr, hts⟩
      exact mem_deletions_of_cutoffs_le hfresh (fun r hr => (hcut r hr).le)
        (hsame.symm ▸ hr) (hts hr)
  refine ⟨htable, ?_⟩
  have hgone : s'.gone = expired (db t) c := by
    rw [Stock.gone, hdb, hlive, htable, deleteUnlimited]
    exact Finset.sdiff_sdiff_eq_self (below_subset _ _ _)
  have hcount := card_gone hrun
  have hzero : (initialStock db t).gone = ∅ := Finset.sdiff_self _
  rw [hgone, hzero, Finset.card_empty, Nat.zero_add] at hcount
  rw [sum_counts, hcount]

/-- Once nothing is left before the cutoff, further deletions do nothing. -/
theorem deletions_idle (limit : UInt64) (db : Tables) {c : ℤ} (h : SteadyAt age c rounds)
    (hE : expired (db t) c = ∅) :
    (deletions t age limit db rounds).1 = db ∧
      ∀ n ∈ (deletions t age limit db rounds).2, n = 0 := by
  obtain ⟨htable, hsum⟩ := deletions_steady limit db h
    (by rw [hE, Finset.card_empty]; exact Nat.zero_le _)
  refine ⟨?_, ?_⟩
  · funext u
    rcases eq_or_ne u t with rfl | hne
    · rw [htable, deleteUnlimited, hE, Finset.sdiff_empty]
    · exact deletions_of_ne hne
  · intro n hn
    rw [hE, Finset.card_empty, List.sum_eq_zero_iff] at hsum
    exact UInt64.toNat_inj.mp (hsum _ (List.mem_map_of_mem hn))

/-- **Batched pruning catches up with one unlimited prune.**  With nondecreasing
cutoffs and enough batches for every row before the last of them, no initial row
from before the first cutoff is left, and no row at or after the last one is
gone; at a steady cutoff `⌈E / L⌉` deletions do exactly what one unlimited
`DELETE` does, and further ones do nothing. -/
theorem batches_catch_up (t : Table) (age : Int64) (limit : UInt64) (hlimit : 1 ≤ limit)
    (db : Tables) :
    (∀ (rounds : List Round) (c₁ cₙ : ℤ), Fresh (db t) (rounds.map Round.inserts) →
      (cutoffs age rounds).Pairwise (· ≤ ·) →
      (cutoffs age rounds).head? = some c₁ → (cutoffs age rounds).getLast? = some cₙ →
      (expired (seenAfter (db t) (rounds.map Round.inserts)) cₙ).card ≤
        rounds.length * limit.toNat →
      (∀ r ∈ db t, r.createTs < c₁ → r ∉ (deletions t age limit db rounds).1 t) ∧
        ∀ r ∈ seenAfter (db t) (rounds.map Round.inserts), cₙ ≤ r.createTs →
          r ∈ (deletions t age limit db rounds).1 t) ∧
    ∀ (c : ℤ) (rounds more : List Round), SteadyAt age c (rounds ++ more) →
      rounds.length = ((expired (db t) c).card + limit.toNat - 1) / limit.toNat →
      let first := deletions t age limit db rounds
      let further := deletions t age limit first.1 more
      first.1 t = deleteUnlimited (db t) c ∧
        (first.2.map UInt64.toNat).sum = (expired (db t) c).card ∧
        further.1 = first.1 ∧ ∀ n ∈ further.2, n = 0 := by
  have hpos : 1 ≤ limit.toNat := UInt64.le_iff_toNat_le.mp hlimit
  constructor
  · intro rounds c₁ cₙ hfresh hsorted hfirst hlast hE
    have hbounds : ∀ r ∈ rounds, c₁ ≤ r.cutoff age ∧ r.cutoff age ≤ cₙ := fun r hr =>
      bounds_of_pairwise_le hsorted hfirst hlast (List.mem_map_of_mem hr)
    have hle : c₁ ≤ cₙ := by
      have hmem : c₁ ∈ cutoffs age rounds := List.mem_of_head? hfirst
      exact (bounds_of_pairwise_le hsorted hfirst hlast hmem).2
    refine ⟨fun r hr hts => ?_, fun r hr hts => ?_⟩
    · exact notMem_deletions_of_card_le hfresh (fun r hr => (hbounds r hr).1)
        (fun r hr => (hbounds r hr).2) hle hE hr hts
    · exact mem_deletions_of_cutoffs_le hfresh (fun r hr => (hbounds r hr).2) hr hts
  · intro c rounds more hsteady hlen
    have hE : (expired (db t) c).card ≤ rounds.length * limit.toNat := by
      have hdiv := Nat.lt_div_mul_add (a := (expired (db t) c).card + limit.toNat - 1) hpos
      rw [hlen]
      omega
    have hfirst : SteadyAt age c rounds := fun r hr => hsteady r (List.mem_append_left _ hr)
    have hrest : SteadyAt age c more := fun r hr => hsteady r (List.mem_append_right _ hr)
    obtain ⟨htable, hsum⟩ := deletions_steady limit db hfirst hE
    have hnone : expired ((deletions t age limit db rounds).1 t) c = ∅ := by
      rw [htable, Finset.eq_empty_iff_forall_notMem]
      intro r hr
      rw [mem_below, deleteUnlimited, Finset.mem_sdiff, mem_below] at hr
      exact hr.1.2 ⟨hr.1.1, hr.2⟩
    obtain ⟨hidle, hzero⟩ := deletions_idle limit _ hrest hnone
    exact ⟨htable, hsum, hidle, hzero⟩

/-- Two rows from before the cutoff, one after it, and two batches of one row. -/
theorem two_batches_catch_up :
    let db : Tables := fun _ => {⟨1, 5, []⟩, ⟨2, 7, []⟩, ⟨3, 995, []⟩}
    let round : Round := ⟨∅, .ofEpoch 1000, Picker.inOrder⟩
    (∀ r ∈ db .packet, r.createTs < 990 →
        r ∉ (deletions .packet 10 1 db [round, round]).1 .packet) ∧
      (deletions .packet 10 1 db [round, round]).1 .packet = {⟨3, 995, []⟩} := by
  intro db round
  have h := batches_catch_up .packet 10 1 (by decide) db
  have hsteady : SteadyAt 10 990 ([round, round] ++ []) := by
    intro r hr
    obtain rfl : r = round := by simpa using hr
    exact ⟨rfl, by decide⟩
  refine ⟨(h.1 [round, round] 990 990 ?_ (by decide) (by decide) (by decide) (by decide)).1, ?_⟩
  · exact (fresh_of_steadyAt (fun r hr => hsteady r (by simpa using hr)) _).1
  · exact (h.2 990 [round, round] [] hsteady (by decide)).1.trans (by decide)

end AprsPruner
