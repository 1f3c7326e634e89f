import AprsPruner.Bounds
import AprsPruner.Catchup
import AprsPruner.Lib.Backlog

/-!
# Does a worker keep up?

A worker takes its passes, other clients insert rows between them, the clock does
not go back, and some attempts fail.  The rows of a table that are due at a pass,
older than the configured age, are the backlog; a pass serves as many of them as
the limit allows.  What falls due in a pass does not depend on what MySQL has
picked before: a row that was not due could not have been picked.  So the backlog
follows from the rows offered and the attempts alone, and whether it stays within a
bound can be read off their windows.

## Main definitions

* `PassRound`, `passes` — the passes of one worker, and the inserts between them.
* `PassRound.service`, `slots` — what a pass serves, and what falls due in it.
* `backlog` — the rows of a table that are due.
* `Standing` — what is known of a table after some passes.

## Main results

* `backlog_passes` — **the backlog after the passes is that of their slots.**
* `keeps_up_iff` — when the backlog never exceeds a bound.
-/

namespace AprsPruner

open BatchPrune App Backlog

/-! ### The passes of a worker -/

/-- One pass: the rows other clients insert before it, and what it meets. -/
structure PassRound where
  /-- The rows inserted before it. -/
  inserts : Tables
  /-- The readings of `try_stats`. -/
  stats : StatsReadings
  /-- The host that the report names. -/
  connectedTo : String
  /-- What `try_deletes` meets. -/
  input : DeletesInput

/-- Other clients insert rows. -/
def insertAll (rows db : Tables) : Tables := fun t => db t ∪ rows t

/-- The passes of a worker, one after the other. -/
def passes : Worker → Tables → List PassRound → Worker × Tables
  | w, db, [] => (w, db)
  | w, db, r :: rs =>
    let res := w.run r.stats r.connectedTo r.input (insertAll r.inserts db)
    passes res.worker res.tables rs

/-- The rows of a table from before a cutoff. -/
def backlog (db : Tables) (t : Table) (cutoff : ℤ) : ℕ := (expired (db t) cutoff).card

namespace PassRound

/-- The cutoff of a table in a pass, for rows kept `age` seconds. -/
def cutoff (t : Table) (age : ℤ) (r : PassRound) : ℤ := (r.input.now t).secs - age

/-- How many rows a pass may delete: none when it is not due or its attempt fails. -/
def service (t : Table) (limit : ℕ) (r : PassRound) : ℕ :=
  if r.input.isNext ∧ ¬ (r.input.attempt t).raises then limit else 0

end PassRound

/-- The slots of a list of passes: the rows that fall due in each, of those `seen`
before and the new ones, and what it may delete.  `c` is the cutoff before. -/
def slots (t : Table) (age : ℤ) (limit : ℕ) : Finset Row → ℤ → List PassRound → List (ℕ × ℕ)
  | _, _, [] => []
  | seen, c, r :: rs =>
    ((expired (seen ∪ r.inserts t) (r.cutoff t age) \ expired seen c).card, r.service t limit) ::
      slots t age limit (seen ∪ r.inserts t) (r.cutoff t age) rs

/-- The last cutoff. -/
def lastCutoff (t : Table) (age c : ℤ) (rs : List PassRound) : ℤ :=
  (rs.map (PassRound.cutoff t age)).getLastD c

@[simp] theorem lastCutoff_cons (t : Table) (age c : ℤ) (r : PassRound) (rs : List PassRound) :
    lastCutoff t age c (r :: rs) = lastCutoff t age (r.cutoff t age) rs := by
  rw [lastCutoff, lastCutoff, List.map_cons, List.getLastD_cons]

/-- The rows inserted into a table before each pass. -/
abbrev lots (t : Table) (rounds : List PassRound) : List (Finset Row) :=
  rounds.map fun r => r.inserts t

/-- The cutoffs do not go back, from `c` on. -/
def Onward (t : Table) (age : ℤ) : ℤ → List PassRound → Prop
  | _, [] => True
  | c, r :: rs => c ≤ r.cutoff t age ∧ Onward t age (r.cutoff t age) rs

/-! ### One pass -/

/-- A pass leaves ages and limits as they are. -/
theorem Worker.settings_run (r : StatsReadings) (connectedTo : String) (i : DeletesInput)
    (w : Worker) (db : Tables) :
    (w.run r connectedTo i db).worker.maxAge = w.maxAge ∧
      (w.run r connectedTo i db).worker.maxLimit = w.maxLimit := by
  have htry : (w.run r connectedTo i db).worker =
      ((w.tryStats r connectedTo).1.tryDeletes i db).1 := rfl
  rw [htry]
  cases hnext : i.isNext with
  | false =>
    rw [Worker.tryDeletes_of_not_isNext hnext]
    exact ⟨Worker.maxAge_tryStats .., Worker.maxLimit_tryStats ..⟩
  | true =>
    rw [Worker.tryDeletes_of_isNext hnext]
    constructor <;> simp [Worker.countDeletes]

/-- The rows a pass leaves in a table: it removes a batch that MySQL picks, or
nothing when it is not due or its attempt fails. -/
theorem exists_batch_run {w : Worker} {t : Table} (r : PassRound) (db : Tables)
    (hage : InInt (w.maxAge t).toInt) :
    ∃ R, IsBatch Row.createTs (db t) (r.cutoff t (w.maxAge t).toInt)
        (r.service t (w.maxLimit t).toNat) R ∧
      R ⊆ (r.input.picker t).pick (db t) (r.cutoff t (w.maxAge t).toInt)
        (r.service t (w.maxLimit t).toNat) ∧
      (w.run r.stats r.connectedTo r.input db).tables t = db t \ R := by
  have hnothing : IsBatch Row.createTs (db t) (r.cutoff t (w.maxAge t).toInt) 0 ∅ :=
    ⟨Finset.empty_subset _, by simp⟩
  rw [Worker.tables_run, Worker.tables_tryDeletes, PassRound.service]
  by_cases hnext : r.input.isNext = true
  · by_cases hraises : (r.input.attempt t).raises
    · rw [if_neg fun h => h.2 hraises, if_pos hnext, DeletesInput.deletion,
        DBI.tables_deleteBefore_of_raises t hraises]
      exact ⟨∅, hnothing, Finset.empty_subset _, Finset.sdiff_empty.symm⟩
    · rw [if_pos ⟨hnext, hraises⟩, if_pos hnext, DeletesInput.deletion,
        DBI.tables_deleteBefore_self t hraises, Clock.secs_sub _ hage]
      exact ⟨_, (r.input.picker t).isBatch _ _ _, Finset.Subset.refl _, rfl⟩
  · rw [if_neg fun h => hnext h.1, if_neg hnext]
    exact ⟨∅, hnothing, Finset.empty_subset _, Finset.sdiff_empty.symm⟩

/-- **What is due after other rows have come**: what was due before, and what falls
due.  A row that was not due is still there. -/
theorem card_expired_union {seen live new : Finset Row} {c c' : ℤ} (hsub : live ⊆ seen)
    (hkept : ∀ r ∈ seen, c ≤ r.createTs → r ∈ live) (hnew : Disjoint seen new) (hc : c ≤ c') :
    (expired (live ∪ new) c').card =
      (expired live c).card + (expired (seen ∪ new) c' \ expired seen c).card := by
  rw [← Finset.card_union_of_disjoint]
  · congr 1
    ext r
    simp only [mem_below, Finset.mem_union, Finset.mem_sdiff, not_and, not_lt]
    constructor
    · rintro ⟨hr | hr, hlt⟩
      · rcases lt_or_ge r.createTs c with hdue | hdue
        · exact Or.inl ⟨hr, hdue⟩
        · exact Or.inr ⟨⟨Or.inl (hsub hr), hlt⟩, fun _ => hdue⟩
      · exact Or.inr ⟨⟨Or.inr hr, hlt⟩, fun h => absurd hr (Finset.disjoint_left.mp hnew h)⟩
    · rintro (⟨hr, hlt⟩ | ⟨⟨hr | hr, hlt⟩, hnot⟩)
      · exact ⟨Or.inl hr, hlt.trans_le hc⟩
      · exact ⟨Or.inl (hkept r hr (hnot hr)), hlt⟩
      · exact ⟨Or.inr hr, hlt⟩
  · rw [Finset.disjoint_left]
    intro r hr hr'
    rw [mem_below] at hr
    rw [Finset.mem_sdiff, mem_below, mem_below] at hr'
    exact hr'.2 ⟨hsub hr.1, hr.2⟩

/-- A batch leaves what is due beyond its limit. -/
theorem card_expired_sdiff {rows R : Finset Row} {c : ℤ} {limit : ℕ}
    (h : IsBatch Row.createTs rows c limit R) :
    (expired (rows \ R) c).card = (expired rows c).card - limit := by
  have hrest : expired (rows \ R) c = expired rows c \ R := by
    ext r
    simp only [mem_below, Finset.mem_sdiff]
    tauto
  rw [hrest, Finset.card_sdiff_of_subset h.subset, h.card_eq]
  simp only [expired]
  omega

/-! ### The backlog -/

/-- What is known of a table after some passes, of the rows `seen` so far: nothing
else is in it, and every row that was not due at the last cutoff is. -/
structure Standing (t : Table) (seen : Finset Row) (c : ℤ) (db : Tables) : Prop where
  /-- Nothing else is in the table. -/
  subset : db t ⊆ seen
  /-- Every row that was not due is there. -/
  kept : ∀ r ∈ seen, c ≤ r.createTs → r ∈ db t

/-- **What a pass makes of the backlog**: it grows by what falls due, and shrinks by
what the pass serves. -/
theorem Standing.pass {t : Table} {seen : Finset Row} {c : ℤ} {w : Worker} {db : Tables}
    (h : Standing t seen c db) (r : PassRound) (hage : InInt (w.maxAge t).toInt)
    (hnew : Disjoint seen (r.inserts t)) (hc : c ≤ r.cutoff t (w.maxAge t).toInt) :
    let res := w.run r.stats r.connectedTo r.input (insertAll r.inserts db)
    Standing t (seen ∪ r.inserts t) (r.cutoff t (w.maxAge t).toInt) res.tables ∧
      backlog res.tables t (r.cutoff t (w.maxAge t).toInt) =
        backlog db t c + (expired (seen ∪ r.inserts t) (r.cutoff t (w.maxAge t).toInt) \
          expired seen c).card - r.service t (w.maxLimit t).toNat := by
  intro res
  obtain ⟨R, hR, -, hleft⟩ := exists_batch_run r (insertAll r.inserts db) hage
  have hleft : res.tables t = (db t ∪ r.inserts t) \ R := hleft
  refine ⟨⟨?_, fun x hx hnot => ?_⟩, ?_⟩
  · rw [hleft]
    exact Finset.sdiff_subset.trans (Finset.union_subset_union_left h.subset)
  · rw [hleft, Finset.mem_sdiff]
    refine ⟨?_, fun hxR => absurd (hR.key_lt hxR) (not_lt.mpr hnot)⟩
    rcases Finset.mem_union.mp hx with hx | hx
    · exact Finset.mem_union_left _ (h.kept x hx (hc.trans hnot))
    · exact Finset.mem_union_right _ hx
  · unfold backlog
    rw [hleft, ← card_expired_union h.subset h.kept hnew hc]
    exact card_expired_sdiff hR

/-- **The backlog after the passes is that of their slots**, whatever MySQL picks. -/
theorem backlog_passes {t : Table} {age : Int64} {limit : UInt64} (hage : InInt age.toInt) :
    ∀ (rounds : List PassRound) (w : Worker) (db : Tables) (seen : Finset Row) (c : ℤ),
      w.maxAge t = age → w.maxLimit t = limit → Standing t seen c db →
      Fresh seen (lots t rounds) → Onward t age.toInt c rounds →
      backlog (passes w db rounds).2 t (lastCutoff t age.toInt c rounds) =
        level (backlog db t c) (slots t age.toInt limit.toNat seen c rounds) := by
  intro rounds
  induction rounds with
  | nil => intro w db seen c _ _ _ _ _; rfl
  | cons r rs ih =>
    rintro w db seen c rfl rfl h ⟨hnew, hfresh⟩ ⟨hc, honward⟩
    obtain ⟨hstanding, hdue⟩ := h.pass r hage hnew hc
    obtain ⟨hage', hlimit'⟩ := Worker.settings_run r.stats r.connectedTo r.input w
      (insertAll r.inserts db)
    have hrest := ih _ _ _ _ (congrFun hage' t) (congrFun hlimit' t) hstanding hfresh honward
    rw [lastCutoff_cons, slots, level_cons, ← hdue]
    exact hrest

theorem take_slots (t : Table) (age : ℤ) (limit k : ℕ) :
    ∀ (rounds : List PassRound) (seen : Finset Row) (c : ℤ),
      (slots t age limit seen c rounds).take k = slots t age limit seen c (rounds.take k) := by
  induction k with
  | zero => intro rounds seen c; rfl
  | succ k ih =>
    intro rounds seen c
    cases rounds with
    | nil => rfl
    | cons r rs => rw [slots, List.take_succ_cons, List.take_succ_cons, slots, ih]

/-- The slots of the first passes are the first slots. -/
theorem forall_prefix_slots_iff {t : Table} {age : ℤ} {limit : ℕ} {rounds : List PassRound}
    {seen : Finset Row} {c : ℤ} {P : List (ℕ × ℕ) → Prop} :
    (∀ ps, ps <+: rounds → P (slots t age limit seen c ps)) ↔
      ∀ qs, qs <+: slots t age limit seen c rounds → P qs := by
  constructor
  · intro h qs hqs
    rw [List.prefix_iff_eq_take.mp hqs, take_slots]
    exact h _ (List.take_prefix _ _)
  · intro h ps hps
    rw [List.prefix_iff_eq_take.mp hps, ← take_slots]
    exact h _ (List.take_prefix _ _)

theorem Onward.of_prefix {t : Table} {age : ℤ} : ∀ {ps rounds : List PassRound} {c : ℤ},
    ps <+: rounds → Onward t age c rounds → Onward t age c ps := by
  intro ps
  induction ps with
  | nil => intro _ _ _ _; trivial
  | cons r rs ih =>
    intro rounds c hps honward
    obtain ⟨rest, rfl⟩ := hps
    exact ⟨honward.1, ih (List.prefix_append _ _) honward.2⟩

/-- **When a worker keeps up.**  Over the passes of a configured worker, whatever is
inserted, whichever attempts fail and whatever MySQL picks, while the clock does not
go back: the rows of a table that are due at a pass follow the backlog of the slots,
which do not depend on what is picked; and they never exceed a bound exactly if, in
every stretch of passes, no more rows fall due than the bound and the limits of the
passes that succeed, those due at first counting from the beginning. -/
theorem keeps_up_iff (cfg : Config) (id : UInt32) (console : Bool) (m : Startup) (t : Table)
    (db : Tables) (rounds : List PassRound) (c : ℤ) (bound : ℕ)
    (hfresh : Fresh (db t) (lots t rounds))
    (hclock : Onward t (ageSetting cfg t).toInt c rounds) :
    let w := workerThread cfg id console m
    let age := (ageSetting cfg t).toInt
    let xs := slots t age (sizeOfInt (limitSetting cfg t)).toNat (db t) c rounds
    backlog (passes w db rounds).2 t (lastCutoff t age c rounds) = level (backlog db t c) xs ∧
      ((∀ ps, ps <+: rounds → backlog (passes w db ps).2 t (lastCutoff t age c ps) ≤ bound) ↔
        (∀ qs, qs <+: xs → backlog db t c + arrived qs ≤ bound + served qs) ∧
          ∀ ws, ws <:+: xs → arrived ws ≤ bound + served ws) := by
  intro w age xs
  have hage : (ageSetting cfg t).toInt64.toInt = age := Int32.toInt_toInt64 _
  have hlevel : ∀ ps, ps <+: rounds → backlog (passes w db ps).2 t (lastCutoff t age c ps) =
      level (backlog db t c) (slots t age (sizeOfInt (limitSetting cfg t)).toNat (db t) c ps) := by
    intro ps hps
    have hpasses := backlog_passes (inInt_toInt64 (ageSetting cfg t)) ps w db (db t) c
      (maxAge_workerThread cfg id console m t) (maxLimit_workerThread cfg id console m t)
      ⟨Finset.Subset.refl _, fun r hr _ => hr⟩ (hfresh.of_prefix (hps.map _))
      (by rw [hage]; exact hclock.of_prefix hps)
    rwa [hage] at hpasses
  refine ⟨hlevel rounds (List.prefix_refl _), ?_⟩
  rw [← level_le_of_prefix_iff, ← forall_prefix_slots_iff]
  exact forall₂_congr fun ps hps => by rw [hlevel ps hps]

/-- Two passes with a limit of one row, the first of which fails: of the rows of
1000 and 1001 one is left. -/
theorem one_row_behind :
    let cfg := (Config.ofInt "app.threads.worker" 1).setInt "app.threads.worker.limit.packet" 1
    let at' : Attempt → PassRound := fun a =>
      ⟨fun _ => ∅, .still (.ofEpoch 2000000), "", ⟨true, .ofEpoch 2000000, Picker.inOrder, a,
        .ofEpoch 2000000, Picker.inOrder, a, "0"⟩⟩
    let db : Tables := fun _ => {⟨1, 1000, []⟩, ⟨2, 1001, []⟩}
    let rounds := [at' ⟨none, some (.badQuery 1205 "Lock wait timeout"), none, none⟩, at' .succeeds]
    backlog (passes (workerThread cfg 1 false (.still (.ofEpoch 2000000))) db rounds).2 .packet
      (lastCutoff .packet 864000 0 rounds) = 1 := by
  intro cfg at' db rounds
  have h := keeps_up_iff cfg 1 false (.still (.ofEpoch 2000000)) .packet db rounds 0 0
    ⟨Finset.disjoint_empty_right _, Finset.disjoint_empty_right _, trivial⟩
    ⟨by decide, by decide, trivial⟩
  exact h.1.trans (by decide +kernel)

end AprsPruner
