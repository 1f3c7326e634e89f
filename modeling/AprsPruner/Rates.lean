import AprsPruner.Lib.Run
import AprsPruner.Worker

/-!
# The printed rates

`try_stats` prints the rows that the store has returned since its last report and two
rates, which it labels `/m`.  A rate is the count divided by the seconds since the last
report: over any run of passes, whatever the store returns, it is the number of rows
per second, and so agrees with its label only for a window in which it returned none.

## Main definitions

* `Pass`, `Worker.pass` — a pass, with the counts the store returns.
* `Printed`, `printed` — the reports of a run, with what the store returned.
* `Printed.Truthful` — the rates are rows per minute.

## Main results

* `run_eq_pass` — a pass of the worker is one at the counts the store returns.
* `Counts.pass` — the window counts the rows returned since the last report.
* `rates_truthful_iff` — **when the printed rates are true.**
-/

namespace AprsPruner

open Transition

/-! ### Passes -/

/-- A pass: the readings of `try_stats`, the answer of the timer, and the counts
the store returns. -/
structure Pass where
  /-- The readings of `try_stats`. -/
  readings : StatsReadings
  /-- The host that the report names. -/
  connectedTo : String
  /-- The answer of the timer. -/
  isNext : Bool
  /-- What `deletePacketsByAge` returns. -/
  numPackets : UInt64
  /-- What `deleteRawByAge` returns. -/
  numRaw : UInt64

/-- `Worker::run`, seen from the worker. -/
def Worker.pass (w : Worker) (p : Pass) : Worker × Option Report :=
  let stats := w.tryStats p.readings p.connectedTo
  (if p.isNext then stats.1.countDeletes p.numPackets p.numRaw else stats.1, stats.2.2)

/-- The counts the store returns in a pass over the tables `db`. -/
def DeletesInput.counts (i : DeletesInput) (w : Worker) (db : Tables) : UInt64 × UInt64 :=
  let packets := Store.deletePacketsByAge i.packetNow w.maxPacketAge w.maxPacketLimit
    i.packetPicker i.packetAttempt db
  let raw := Store.deleteRawByAge i.rawNow w.maxRawAge w.maxRawLimit
    i.rawPicker i.rawAttempt packets.tables
  (packets.numAffectedRows, raw.numAffectedRows)

/-- A pass of the worker is one at the counts the store returns. -/
theorem run_eq_pass (r : StatsReadings) (connectedTo : String) (i : DeletesInput) (w : Worker)
    (db : Tables) :
    let counts := i.counts (w.tryStats r connectedTo).1 db
    ((w.run r connectedTo i db).worker, (w.run r connectedTo i db).printed) =
      w.pass ⟨r, connectedTo, i.isNext, counts.1, counts.2⟩ := by
  simp only [Worker.run, Worker.pass, Worker.tryDeletes, DeletesInput.counts]
  split <;> rfl

/-- The rows of a table that the store returns in a pass. -/
def Pass.rows (p : Pass) (t : Table) : ℕ :=
  if p.isNext then
    match t with
    | .packet => p.numPackets.toNat
    | .raw => p.numRaw.toNat
  else 0

/-! ### The reports of a run -/

/-- A report, the rows returned by the store since the one before it, and the seconds from
`_stats.last_report_at` to the reading the divisor is computed from. -/
structure Printed where
  /-- The report. -/
  report : Report
  /-- The rows returned by the store since the report before it. -/
  rows : Table → ℕ
  /-- The seconds since `_stats.last_report_at`. -/
  elapsed : ℤ

/-- The divisor is positive, and the rates are the rows per minute. -/
def Printed.Truthful (x : Printed) : Prop :=
  0 < x.report.diff.toInt ∧ ∀ t, x.report.rateOf t = x.rows t / ((x.elapsed : ℚ) / 60)

/-- The reports of a run of passes.  `rows` are the rows returned by the store since the
last report before it. -/
def printed : Worker → (Table → ℕ) → List Pass → List Printed
  | _, _, [] => []
  | w, rows, p :: ps =>
    let res := w.pass p
    let elapsed := p.readings.diff.secs - w.stats.lastReportAt.toInt
    let left := fun t => (if res.2.isSome then 0 else rows t) + p.rows t
    (res.2.map fun report => ⟨report, rows, elapsed⟩).toList ++ printed res.1 left ps

/-- The readings of a call of `try_stats`, in the order of the reads. -/
def StatsReadings.times (r : StatsReadings) : List ℤ :=
  [r.stompGuard.secs, r.stompInit.secs, r.guard.secs, r.diff.secs, r.init.secs, r.last.secs]

/-- The clock does not go back during the run of a new worker. -/
def ForwardClock (m : Startup) (passes : List Pass) : Prop :=
  (m.statsNow.secs :: m.statsCreated.secs :: m.stompNow.secs :: m.stompCreated.secs ::
    passes.flatMap fun p => p.readings.times).Pairwise (· ≤ ·)

/-- Reports are less than `2 ^ 31` seconds apart, with less than `2 ^ 32` rows. -/
def Printed.InRange (x : Printed) : Prop := x.elapsed < 2 ^ 31 ∧ ∀ t, x.rows t < 2 ^ 32

/-! ### What the window counts -/

/-- The window of a worker counts `rows`, modulo `2 ^ 32`, and closes every minute. -/
structure Counts (w : Worker) (rows : Table → ℕ) : Prop where
  /-- Either count is that of the rows. -/
  deleted : ∀ t, (w.stats.deleted t).toNat = rows t % 2 ^ 32
  /-- The window closes every minute. -/
  interval : w.stats.reportInterval = 60

theorem counts_construct (args : WorkerArgs) (m : Startup) :
    Counts (.construct args m) fun _ => 0 := by
  refine ⟨fun t => ?_, rfl⟩
  cases t <;> rfl

theorem deleted_countDeletes (w : Worker) (numPackets numRaw : UInt64) (t : Table) :
    ((w.countDeletes numPackets numRaw).stats.deleted t).toNat =
      ((w.stats.deleted t).toNat + match t with
        | .packet => numPackets.toNat
        | .raw => numRaw.toNat) % 2 ^ 32 := by
  cases t <;> exact toNat_addSize _ _

theorem reportInterval_countDeletes (w : Worker) (numPackets numRaw : UInt64) :
    (w.countDeletes numPackets numRaw).stats.reportInterval = w.stats.reportInterval := rfl

/-- **A pass counts its rows into the window**, which a report has emptied before. -/
theorem Counts.pass {w : Worker} {rows : Table → ℕ} (h : Counts w rows) (p : Pass) :
    Counts (w.pass p).1
      fun t => (if (w.pass p).2.isSome then 0 else rows t) + p.rows t := by
  -- the window after the reports
  have hstats : Counts (w.tryStats p.readings p.connectedTo).1
      fun t => if (w.pass p).2.isSome then 0 else rows t := by
    simp only [Worker.pass, Worker.tryStats, Worker.reportStats, Worker.stats_tryStompstats]
    split
    · exact ⟨by simpa using h.deleted, by simpa using h.interval⟩
    · refine ⟨fun t => ?_, h.interval⟩
      cases t <;> rfl
  cases hnext : p.isNext with
  | false =>
    simpa [Worker.pass, Pass.rows, hnext] using hstats
  | true =>
    have hpass : (w.pass p).1 =
        (w.tryStats p.readings p.connectedTo).1.countDeletes p.numPackets p.numRaw := by
      simp [Worker.pass, hnext]
    refine ⟨fun t => ?_, ?_⟩
    · rw [hpass, deleted_countDeletes, hstats.deleted t]
      cases t <;> simp [Pass.rows, hnext]
    · rw [hpass, reportInterval_countDeletes, hstats.interval]

/-! ### What a report shows -/

/-- **A report shows the rows of its window and their number per second.** -/
theorem Counts.report {w : Worker} {rows : Table → ℕ} (h : Counts w rows) {p : Pass}
    (hclock : p.readings.guard.secs ≤ p.readings.diff.secs) {report : Report}
    (hreport : (w.pass p).2 = some report)
    (hrange : Printed.InRange
      ⟨report, rows, p.readings.diff.secs - w.stats.lastReportAt.toInt⟩) :
    let elapsed := p.readings.diff.secs - w.stats.lastReportAt.toInt
    report.diff.toInt = elapsed ∧ 0 < elapsed ∧
      ∀ t, (report.deleted t).toNat = rows t ∧ report.rateOf t = rows t / elapsed := by
  obtain ⟨helapsed, hrows⟩ := hrange
  simp only at helapsed hrows
  simp only [Worker.pass, Worker.tryStats, Worker.reportStats,
    Worker.stats_tryStompstats] at hreport
  split at hreport
  · exact absurd hreport (by simp)
  · next hguard =>
    -- the guard: a minute has passed
    rw [h.interval, gt_iff_lt, Int64.not_lt, Int64.le_iff_toInt_le,
      p.readings.guard.secs_sub (show InInt (60 : Int64).toInt by decide)] at hguard
    have hdue : w.stats.lastReportAt.toInt ≤ p.readings.guard.secs - 60 := hguard
    -- the divisor: neither the difference nor its narrowing loses anything
    have hdiff : (p.readings.diff.time - w.stats.lastReportAt).toInt32.toInt =
        p.readings.diff.secs - w.stats.lastReportAt.toInt := by
      rw [Int64.toInt_toInt32, Int64.toInt_sub]
      change ((p.readings.diff.secs - w.stats.lastReportAt.toInt).bmod _).bmod _ = _
      rw [Int.bmod_eq_of_le (m := 2 ^ 64) (by omega) (by omega),
        Int.bmod_eq_of_le (by omega) (by omega)]
    have hdeleted : ∀ t, (w.stats.deleted t).toNat = rows t := fun t => by
      rw [h.deleted t, Nat.mod_eq_of_lt (hrows t)]
    obtain rfl := Option.some.inj hreport
    refine ⟨hdiff, by omega, fun t => ⟨?_, ?_⟩⟩
    · rw [← hdeleted t]
      cases t <;> rfl
    · rw [← hdeleted t, ← hdiff]
      cases t <;> rfl

/-- A number of rows per second is the number per minute only if there are none. -/
theorem per_second_eq_per_minute_iff (rows : ℕ) {elapsed : ℤ} (h : 0 < elapsed) :
    (rows : ℚ) / elapsed = rows / ((elapsed : ℚ) / 60) ↔ rows = 0 := by
  have hpos : (elapsed : ℚ) ≠ 0 := by exact_mod_cast h.ne'
  rw [div_div_eq_mul_div, div_left_inj' hpos]
  constructor
  · intro heq
    have hzero : (rows : ℚ) = 0 := by linarith
    exact_mod_cast hzero
  · rintro rfl
    simp

/-- What holds of a report that shows its window. -/
theorem truthful_iff {x : Printed} (hdiff : x.report.diff.toInt = x.elapsed)
    (hpos : 0 < x.elapsed) (hrate : ∀ t, x.report.rateOf t = x.rows t / x.elapsed) :
    x.Truthful ↔ ∀ t, x.rows t = 0 := by
  rw [Printed.Truthful, hdiff, and_iff_right hpos]
  refine forall_congr' fun t => ?_
  rw [hrate t]
  exact per_second_eq_per_minute_iff _ hpos

/-- Every report of a run shows the rows of its window and their number per second. -/
theorem printed_spec : ∀ (passes : List Pass) (w : Worker) (rows : Table → ℕ), Counts w rows →
    (∀ p ∈ passes, p.readings.guard.secs ≤ p.readings.diff.secs) →
    ∀ x ∈ printed w rows passes, x.InRange →
      x.report.diff.toInt = x.elapsed ∧ 0 < x.elapsed ∧
        ∀ t, (x.report.deleted t).toNat = x.rows t ∧ x.report.rateOf t = x.rows t / x.elapsed := by
  intro passes
  induction passes with
  | nil =>
    intro w rows _ _ x hx
    exact absurd hx (List.not_mem_nil)
  | cons p ps ih =>
    intro w rows h hclock x hx hrange
    rw [printed, List.mem_append] at hx
    rcases hx with hx | hx
    · rw [Option.mem_toList, Option.map_eq_some_iff] at hx
      obtain ⟨report, hreport, rfl⟩ := hx
      exact h.report (hclock p List.mem_cons_self) hreport hrange
    · exact ih _ _ (h.pass p) (fun q hq => hclock q (List.mem_cons_of_mem _ hq)) x hx hrange

theorem ForwardClock.guard_le_diff {m : Startup} {passes : List Pass} (h : ForwardClock m passes) :
    ∀ p ∈ passes, p.readings.guard.secs ≤ p.readings.diff.secs := by
  intro p hp
  have htail := ((List.pairwise_cons.mp (List.pairwise_cons.mp
    (List.pairwise_cons.mp (List.pairwise_cons.mp h).2).2).2).2)
  have hpass := (List.pairwise_flatMap.mp htail).1 p hp
  simp only [StatsReadings.times, List.pairwise_cons, List.mem_cons] at hpass
  exact hpass.2.2.1 _ (Or.inl rfl)

/-! ### When the printed rates are true -/

/-- **The printed rates are true only for windows without a row.**  In every run of
a new worker, each report shows the rows returned by the store since the one before
it and divides them by a positive number of seconds; what is labelled rows per minute
is that only if there are none. -/
theorem rates_truthful_iff (args : WorkerArgs) (m : Startup) (passes : List Pass)
    (hclock : ForwardClock m passes) :
    ∀ x ∈ printed (.construct args m) (fun _ => 0) passes, x.InRange →
      (x.Truthful ↔ ∀ t, x.rows t = 0) ∧
        0 < x.report.diff.toInt ∧
        ∀ t, (x.report.deleted t).toNat = x.rows t ∧
          x.report.rateOf t = x.rows t / x.elapsed := by
  intro x hx hrange
  obtain ⟨hdiff, hpos, hshown⟩ := printed_spec passes _ _ (counts_construct args m)
    hclock.guard_le_diff x hx hrange
  exact ⟨truthful_iff hdiff hpos fun t => (hshown t).2, hdiff ▸ hpos, hshown⟩

/-- A worker to which the store returns `numPackets` rows, and which reports a minute later. -/
def minuteOf (numPackets : UInt64) : List Pass :=
  [⟨.still (.ofEpoch 1000), "localhost:61613", true, numPackets, 0⟩,
    ⟨.still (.ofEpoch 1060), "localhost:61613", false, 0, 0⟩]

/-- Sixty rows returned in a minute are printed as one per minute. -/
theorem sixty_rows_printed_as_one :
    let w := Worker.construct ⟨1, "localhost:61613", "", "", "", "localhost", "", "", ""⟩
      (.still (.ofEpoch 1000))
    ForwardClock (.still (.ofEpoch 1000)) (minuteOf 60) ∧
      ∃ x ∈ printed w (fun _ => 0) (minuteOf 60), x.InRange ∧
        x.report.ppm = 1 ∧ x.rows .packet = 60 ∧ x.elapsed = 60 ∧ ¬ x.Truthful := by
  intro w
  unfold ForwardClock Printed.InRange Printed.Truthful
  decide +kernel

/-- An idle minute: its report is true. -/
theorem idle_minute_truthful :
    let args : WorkerArgs := ⟨1, "localhost:61613", "", "", "", "localhost", "", "", ""⟩
    let m := Startup.still (.ofEpoch 1000)
    ∃ x ∈ printed (.construct args m) (fun _ => 0) (minuteOf 0), x.Truthful := by
  intro args m
  have hprinted : ∃ x ∈ printed (.construct args m) (fun _ => 0) (minuteOf 0),
      x.InRange ∧ ∀ t, x.rows t = 0 := by
    unfold Printed.InRange
    decide +kernel
  obtain ⟨x, hx, hrange, hrows⟩ := hprinted
  have hclock : ForwardClock m (minuteOf 0) := by
    unfold ForwardClock
    decide +kernel
  refine ⟨x, hx, ?_⟩
  exact (rates_truthful_iff args m (minuteOf 0) hclock x hx hrange).1.mpr hrows

end AprsPruner
