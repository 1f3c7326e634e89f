import AprsPruner.App

/-!
# Which configured integers are safe

The ages and limits go from the configuration to the `DELETE` unchecked: an `int`
becomes a `time_t` or a `size_t`, is subtracted from the clock or written out in
decimal, and read back by MySQL.  A negative age puts the cutoff into the future.
A negative limit wraps around to a huge one.

## Main definitions

* `App.ageSetting`, `App.limitSetting` — the integer behind a table's age and limit.
* `App.Bounded` — no pass deletes live rows, nor more rows than configured.

## Main results

* `toNat_sizeOfInt` — what limit a configured integer becomes.
* `App.bounded_iff` — **which configured integers are safe.**
-/

namespace AprsPruner

open BatchPrune

/-! ### From the configuration to the cutoff and the limit -/

/-- **A negative `int` becomes a `size_t` close to `2 ^ 64`.** -/
theorem toNat_sizeOfInt (x : Int32) :
    ((sizeOfInt x).toNat : ℤ) = if 0 ≤ x.toInt then x.toInt else x.toInt + 2 ^ 64 := by
  have hcond := BitVec.toInt_eq_toNat_cond x.toInt64.toBitVec
  have hvalue : x.toInt64.toBitVec.toInt = x.toInt := Int32.toInt_toInt64 x
  have hlt : x.toInt64.toBitVec.toNat < 2 ^ 64 := x.toInt64.toBitVec.isLt
  show (x.toInt64.toBitVec.toNat : ℤ) = _
  rw [hvalue] at hcond
  split at hcond <;> split <;> omega

theorem sizeOfInt_zero : sizeOfInt 0 = 0 := by decide

namespace App

/-- The configured integer behind the age of a table. -/
def ageSetting (cfg : Config) : Table → Int32
  | .packet => cfg.getInt "app.threads.worker.age.packet" (86400 * 10)
  | .raw => cfg.getInt "app.threads.worker.age.packet" 86400

/-- The configured integer behind the limit of a table. -/
def limitSetting (cfg : Config) : Table → Int32
  | .packet => cfg.getInt "app.threads.worker.limit.packet" 2000
  | .raw => cfg.getInt "app.threads.worker.limit.raw" 2000

theorem maxAge_workerThread (cfg : Config) (id : UInt32) (console : Bool) (m : Startup)
    (t : Table) : (workerThread cfg id console m).maxAge t = (ageSetting cfg t).toInt64 := by
  cases t <;> rfl

theorem maxLimit_workerThread (cfg : Config) (id : UInt32) (console : Bool) (m : Startup)
    (t : Table) : (workerThread cfg id console m).maxLimit t = sizeOfInt (limitSetting cfg t) := by
  cases t <;> rfl

/-! ### What a pass of a configured worker deletes -/

/-- No pass of a worker deletes a row of `t` from at or after the reading its
cutoff is computed from, nor more rows than configured. -/
def BoundedOn (cfg : Config) (t : Table) : Prop :=
  ∀ (id : UInt32) (console : Bool) (m : Startup) (i : DeletesInput) (db : Tables),
    let left := ((workerThread cfg id console m).tryDeletes i db).2.1
    (∀ r ∈ db t, r ∉ left t → r.createTs < (i.now t).secs) ∧
      ((db t \ left t).card : ℤ) ≤ max 0 (limitSetting cfg t).toInt

/-- No pass of a worker deletes live rows, nor more rows than configured. -/
def Bounded (cfg : Config) : Prop := ∀ t, BoundedOn cfg t

/-- The limit of a table is not negative, and neither is the age unless the limit
is zero. -/
def SafeSettings (cfg : Config) (t : Table) : Prop :=
  0 ≤ (limitSetting cfg t).toInt ∧
    (0 ≤ (ageSetting cfg t).toInt ∨ (limitSetting cfg t).toInt = 0)

variable {cfg : Config} {id : UInt32} {console : Bool} {m : Startup} {i : DeletesInput}
  {db : Tables} {t : Table}

/-- The rows a pass deletes go before a cutoff computed from the configured age. -/
theorem createTs_lt_of_deleted {r : Row} (hr : r ∈ db t)
    (hgone : r ∉ ((workerThread cfg id console m).tryDeletes i db).2.1 t) :
    r.createTs < (i.now t).secs - (ageSetting cfg t).toInt := by
  rw [Worker.tables_tryDeletes] at hgone
  split at hgone
  · have hlt := (DBI.lt_cutoff_of_removed hr hgone).2
    rw [maxAge_workerThread, Clock.secs_sub _ (inInt_toInt64 _), Int32.toInt_toInt64] at hlt
    exact hlt
  · exact absurd hr hgone

/-- A pass deletes at most the limit, as a `size_t`. -/
theorem card_deleted_le :
    (db t \ ((workerThread cfg id console m).tryDeletes i db).2.1 t).card ≤
      (sizeOfInt (limitSetting cfg t)).toNat := by
  rw [Worker.tables_tryDeletes]
  split
  · rw [← maxLimit_workerThread cfg id console m]
    exact DBI.card_removed_le t
  · simp

theorem boundedOn_of_safeSettings (h : SafeSettings cfg t) : BoundedOn cfg t := by
  obtain ⟨hlimit, hage⟩ := h
  have hsize := toNat_sizeOfInt (limitSetting cfg t)
  rw [if_pos hlimit] at hsize
  intro id console m i db left
  have hcard : (db t \ left t).card ≤ (sizeOfInt (limitSetting cfg t)).toNat := card_deleted_le
  refine ⟨fun r hr hgone => ?_, ?_⟩
  · rcases hage with hage | hzero
    · have hlt : r.createTs < (i.now t).secs - (ageSetting cfg t).toInt :=
        createTs_lt_of_deleted hr hgone
      omega
    · -- nothing is deleted under a limit of zero
      have hpos : 0 < (db t \ left t).card :=
        Finset.card_pos.mpr ⟨r, Finset.mem_sdiff.mpr ⟨hr, hgone⟩⟩
      omega
  · omega

/-! ### How unsafe settings show -/

/-- A table with one row, the other table empty. -/
def oneRow (t : Table) (r : Row) : Tables := fun u => if u = t then {r} else ∅

/-- A pass in which both deletions run, at the reading `now`, and succeed. -/
def passAt (now : Clock) : DeletesInput :=
  ⟨true, now, Picker.inOrder, .succeeds, now, Picker.inOrder, .succeeds, "0"⟩

/-- Under a limit that is not zero, a row before the cutoff goes. -/
theorem tryDeletes_oneRow (cfg : Config) (now : Clock) (r : Row) (t : Table)
    (hlimit : (limitSetting cfg t).toInt ≠ 0)
    (hr : r.createTs < now.secs - (ageSetting cfg t).toInt) :
    ((workerThread cfg id console m).tryDeletes (passAt now) (oneRow t r)).2.1 t = ∅ := by
  have htable : oneRow t r t = {r} := if_pos rfl
  have hnow : (passAt now).now t = now := by cases t <;> rfl
  have hattempt : (passAt now).attempt t = .succeeds := by cases t <;> rfl
  have hnext : (passAt now).isNext = true := rfl
  rw [Worker.tables_tryDeletes, if_pos hnext, DeletesInput.deletion, hattempt,
    DBI.tables_deleteBefore_self t (by decide), htable, hnow, maxAge_workerThread,
    maxLimit_workerThread, Clock.secs_sub _ (inInt_toInt64 _), Int32.toInt_toInt64]
  have hbelow : below Row.createTs {r} (now.secs - (ageSetting cfg t).toInt) = {r} :=
    Finset.filter_eq_self.mpr fun x hx => by rwa [Finset.mem_singleton.mp hx]
  have hsize := toNat_sizeOfInt (limitSetting cfg t)
  have hlo := Int32.le_toInt (limitSetting cfg t)
  have hfull : (below Row.createTs {r} (now.secs - (ageSetting cfg t).toInt)).card ≤
      (sizeOfInt (limitSetting cfg t)).toNat := by
    rw [hbelow, Finset.card_singleton]
    split at hsize <;> omega
  rw [(((passAt now).picker t).isBatch _ _ _).eq_below hfull, hbelow, Finset.sdiff_self]

/-- The reading at which unsafe settings are shown. -/
def shownAt : Clock := .ofEpoch 1000

theorem not_boundedOn_of_negative_limit (h : (limitSetting cfg t).toInt < 0) :
    ¬ BoundedOn cfg t := by
  intro hbounded
  let r : Row := ⟨1, shownAt.secs - (ageSetting cfg t).toInt - 1, []⟩
  have hcard := (hbounded 1 false (.still shownAt) (passAt shownAt) (oneRow t r)).2
  rw [tryDeletes_oneRow cfg shownAt r t h.ne (by show _ - _ - (1 : ℤ) < _; omega),
    Finset.sdiff_empty, show oneRow t r t = {r} from if_pos rfl, Finset.card_singleton] at hcard
  omega

theorem not_boundedOn_of_negative_age (h : (ageSetting cfg t).toInt < 0)
    (hlimit : (limitSetting cfg t).toInt ≠ 0) : ¬ BoundedOn cfg t := by
  intro hbounded
  let r : Row := ⟨1, shownAt.secs, []⟩
  have hlive := (hbounded 1 false (.still shownAt) (passAt shownAt) (oneRow t r)).1 r
  rw [tryDeletes_oneRow cfg shownAt r t hlimit (by show shownAt.secs < _; omega),
    show oneRow t r t = {r} from if_pos rfl] at hlive
  have hnow : ((passAt shownAt).now t).secs = shownAt.secs := by cases t <;> rfl
  have hlt := hlive (Finset.mem_singleton_self r) (Finset.notMem_empty r)
  rw [hnow] at hlt
  exact lt_irrefl _ hlt

/-- A table's settings are safe exactly when no pass goes beyond them. -/
theorem boundedOn_iff (cfg : Config) (t : Table) : BoundedOn cfg t ↔ SafeSettings cfg t := by
  refine ⟨fun h => ?_, boundedOn_of_safeSettings⟩
  have hlimit : 0 ≤ (limitSetting cfg t).toInt :=
    not_lt.mp fun hneg => not_boundedOn_of_negative_limit hneg h
  refine ⟨hlimit, or_iff_not_imp_right.mpr fun hzero => ?_⟩
  exact not_lt.mp fun hneg => not_boundedOn_of_negative_age hneg hzero h

/-- **Which configured integers are safe.**  The limits must not be negative, and
neither must the age, which both tables take from the same key, except for a table
whose limit is zero. -/
theorem bounded_iff (cfg : Config) :
    Bounded cfg ↔ ∀ t, 0 ≤ (limitSetting cfg t).toInt ∧
      (0 ≤ (ageSetting cfg t).toInt ∨ (limitSetting cfg t).toInt = 0) :=
  forall_congr' fun t => boundedOn_iff cfg t

/-- A limit of `-1` bounds nothing. -/
theorem minus_one_unbounded :
    sizeOfInt (-1) = 18446744073709551615 ∧
      ¬ Bounded ((Config.ofInt "app.threads.worker" 1).setInt
        "app.threads.worker.limit.packet" (-1)) := by
  refine ⟨by decide, fun h => ?_⟩
  exact not_boundedOn_of_negative_limit (t := .packet) (by decide) (h .packet)

end App
end AprsPruner
