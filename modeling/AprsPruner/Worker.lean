import AprsPruner.DBI

/-!
# A worker and its pass

A worker deletes from both tables every few seconds and keeps two windows of
counts: `_stompstats`, published as datapoints about every 5 seconds, and
`_stats`, printed about every 60.  The windows are reset on their own schedules,
each by the function that reports it.

`time(NULL)` is read anew wherever the source reads it, so the readings of a
function are arguments of it.  The timer `_delete_intval` and the connections behind
`_stomp` are outside the model; what the pass learns from them is an argument too.
The statistics of the store have a module of their own.

## Main definitions

* `ObjStats`, `ObjStompstats` — the two windows.
* `Worker`, `Worker.construct` — a worker, and the constructor.
* `Worker.tryStompstats`, `Worker.reportStats`, `Worker.tryStats` — the reports.
* `Worker.tryDeletes`, `Worker.run` — a pass.

## Main results

* `toNat_addSize` — a 64-bit count is added modulo `2 ^ 32`.
* `deleted_tryStompstats`, `deleted_reportStats` — **a report loses nothing**: what
  a window held is shown or is still there.
-/

namespace AprsPruner

/-! ### The two windows -/

/-- `Worker::obj_stats_t`. -/
structure ObjStats where
  /-- Connection attempts. -/
  connects : UInt32
  /-- Connections that were lost. -/
  disconnects : UInt32
  /-- Rows deleted from `packet`. -/
  packets : UInt32
  /-- Rows deleted from `raw`. -/
  raw : UInt32
  /-- Frames received. -/
  framesIn : UInt32
  /-- Frames sent. -/
  framesOut : UInt32
  /-- `report_interval` -/
  reportInterval : Int64
  /-- `last_report_at` -/
  lastReportAt : Int64
  /-- `created_at` -/
  createdAt : Int64

/-- `Worker::aprs_stats_t`. -/
structure AprsStats where
  /-- Rows deleted from `packet`. -/
  packet : UInt32
  /-- Rows deleted from `raw`. -/
  raw : UInt32

/-- `Worker::obj_stompstats_t`. -/
structure ObjStompstats where
  /-- `aprs_stats` -/
  aprsStats : AprsStats
  /-- `report_interval` -/
  reportInterval : Int64
  /-- `last_report_at` -/
  lastReportAt : Int64
  /-- `created_at` -/
  createdAt : Int64

/-- `Worker::init_stats`.  On startup the clock is read a second time. -/
def initStats (now : Clock) (startup : Option Clock) (stats : ObjStats) : ObjStats :=
  { stats with
    connects := 0
    disconnects := 0
    packets := 0
    raw := 0
    framesIn := 0
    framesOut := 0
    lastReportAt := now.time
    createdAt := startup.elim stats.createdAt Clock.time }

/-- `Worker::init_stompstats`. -/
def initStompstats (now : Clock) (startup : Option Clock) (stats : ObjStompstats) :
    ObjStompstats :=
  { stats with
    aprsStats := ⟨0, 0⟩
    lastReportAt := now.time
    createdAt := startup.elim stats.createdAt Clock.time }

/-! ### Workers -/

/-- The constructor's arguments. -/
structure WorkerArgs where
  /-- `thread_id` -/
  threadId : UInt32
  /-- `stomp_hosts` -/
  stompHosts : String
  /-- `stomp_dest` -/
  stompDest : String
  /-- `stomp_login` -/
  stompLogin : String
  /-- `stomp_passcode` -/
  stompPasscode : String
  /-- `db_host` -/
  dbHost : String
  /-- `db_user` -/
  dbUser : String
  /-- `db_pass` -/
  dbPass : String
  /-- `db_database` -/
  dbDatabase : String
  deriving DecidableEq, Repr

/-- A `Worker`, as far as deleting and reporting go: its settings and its two windows. -/
structure Worker where
  /-- The constructor's arguments. -/
  args : WorkerArgs
  /-- The age beyond which rows of `packet` are deleted. -/
  maxPacketAge : Int64
  /-- The age beyond which rows of `raw` are deleted. -/
  maxRawAge : Int64
  /-- How many rows of `packet` one deletion may take. -/
  maxPacketLimit : UInt64
  /-- How many rows of `raw` one deletion may take. -/
  maxRawLimit : UInt64
  /-- It writes to the console. -/
  console : Bool
  /-- `_stats`, that is printed. -/
  stats : ObjStats
  /-- `_stompstats`, that is published. -/
  stompstats : ObjStompstats

/-- What the constructor finds: the memory under the two windows, and its
readings of the clock. -/
structure Startup where
  /-- The memory under `_stats`. -/
  stats : ObjStats
  /-- The memory under `_stompstats`. -/
  stompstats : ObjStompstats
  /-- When `_stats` is reset. -/
  statsNow : Clock
  /-- When `_stats` is created. -/
  statsCreated : Clock
  /-- When `_stompstats` is reset. -/
  stompNow : Clock
  /-- When `_stompstats` is created. -/
  stompCreated : Clock

/-- A startup in cleared memory, the clock standing still. -/
def Startup.still (c : Clock) : Startup :=
  ⟨⟨0, 0, 0, 0, 0, 0, 0, 0, 0⟩, ⟨⟨0, 0⟩, 0, 0, 0⟩, c, c, c, c⟩

namespace Worker

/-- The seconds that `Worker::run` sleeps after a pass. -/
def kDefaultDeleteInterval : Int64 := 10

/-- Ten days, the age unless another is set. -/
def kDefaultMaxPacketAge : Int64 := 86400 * 10

/-- One day, the age unless another is set. -/
def kDefaultMaxRawAge : Int64 := 86400

/-- The limit unless another is set. -/
def kDefaultMaxPacketLimit : UInt64 := 2000

/-- The limit unless another is set. -/
def kDefaultMaxRawLimit : UInt64 := 2000

/-- `Worker::Worker`. -/
def construct (args : WorkerArgs) (m : Startup) : Worker where
  args := args
  maxPacketAge := kDefaultMaxPacketAge
  maxRawAge := kDefaultMaxRawAge
  maxPacketLimit := kDefaultMaxPacketLimit
  maxRawLimit := kDefaultMaxRawLimit
  console := false
  stats := { initStats m.statsNow (some m.statsCreated) m.stats with reportInterval := 60 }
  stompstats :=
    { initStompstats m.stompNow (some m.stompCreated) m.stompstats with reportInterval := 5 }

end Worker

/-! ### The reports -/

/-- A value handed to `datapoint`. -/
structure Datapoint where
  /-- The name. -/
  name : String
  /-- The value. -/
  value : UInt32
  deriving DecidableEq, Repr

/-- What `try_stats` prints, and the divisor of its rates.  The line shows both
rates with the unit `/m`. -/
structure Report where
  /-- Rows deleted from `packet`. -/
  packets : UInt32
  /-- Their rate. -/
  ppm : ℚ
  /-- Rows deleted from `raw`. -/
  raw : UInt32
  /-- Their rate. -/
  rpm : ℚ
  /-- The seconds to the next report. -/
  nextIn : Int64
  /-- Connection attempts. -/
  connects : UInt32
  /-- The host it is connected to. -/
  connectedTo : String
  /-- The divisor of the rates. -/
  diff : Int32

/-- The clock as one call of `try_stats` reads it, in the order of the reads. -/
structure StatsReadings where
  /-- The test of `try_stompstats`. -/
  stompGuard : Clock
  /-- The reset of `_stompstats`. -/
  stompInit : Clock
  /-- The test of `try_stats`. -/
  guard : Clock
  /-- The divisor. -/
  diff : Clock
  /-- The reset of `_stats`. -/
  init : Clock
  /-- The second reading of `last_report_at`. -/
  last : Clock

/-- A call of `try_stats` during which the clock stands still. -/
def StatsReadings.still (c : Clock) : StatsReadings := ⟨c, c, c, c, c, c⟩

/-- `double(count) / diff`, in exact arithmetic.  A zero divisor, which makes the
`double` an infinity or not a number, gives zero here. -/
def rate (count : UInt32) (diff : Int32) : ℚ := count.toNat / diff.toInt

namespace Worker

/-- `Worker::try_stompstats`. -/
def tryStompstats (r : StatsReadings) (w : Worker) : Worker × List Datapoint :=
  if w.stompstats.lastReportAt > r.stompGuard.time - w.stompstats.reportInterval then (w, [])
  else
    ({ w with stompstats := initStompstats r.stompInit none w.stompstats },
      [⟨"aprs_stats.delete.packet", w.stompstats.aprsStats.packet⟩,
        ⟨"aprs_stats.delete.raw", w.stompstats.aprsStats.raw⟩])

/-- `Worker::try_stats` after its call of `try_stompstats`. -/
def reportStats (r : StatsReadings) (connectedTo : String) (w : Worker) :
    Worker × Option Report :=
  if w.stats.lastReportAt > r.guard.time - w.stats.reportInterval then (w, none)
  else
    -- the difference is narrowed to an `int`
    let diff := (r.diff.time - w.stats.lastReportAt).toInt32
    let report : Report :=
      { packets := w.stats.packets
        ppm := rate w.stats.packets diff
        raw := w.stats.raw
        rpm := rate w.stats.raw diff
        nextIn := w.stats.reportInterval
        connects := w.stats.connects
        connectedTo := connectedTo
        diff := diff }
    let stats := initStats r.init none w.stats
    ({ w with stats := { stats with lastReportAt := r.last.time } }, some report)

/-- `Worker::try_stats`. -/
def tryStats (r : StatsReadings) (connectedTo : String) (w : Worker) :
    Worker × List Datapoint × Option Report :=
  let published := w.tryStompstats r
  let printed := published.1.reportStats r connectedTo
  (printed.1, published.2, printed.2)

end Worker

/-! ### Counting the deleted rows -/

/-- `count += n` for an `unsigned int` and a `size_t`. -/
def addSize (count : UInt32) (n : UInt64) : UInt32 := (count.toUInt64 + n).toUInt32

/-- `packet += n`, or `raw += n`. -/
def AprsStats.add (s : AprsStats) (n : UInt64) : Table → AprsStats
  | .packet => { s with packet := addSize s.packet n }
  | .raw => { s with raw := addSize s.raw n }

/-- `packets += n`, or `raw += n`. -/
def ObjStats.add (s : ObjStats) (n : UInt64) : Table → ObjStats
  | .packet => { s with packets := addSize s.packets n }
  | .raw => { s with raw := addSize s.raw n }

namespace Worker

/-- `_stompstats.aprs_stats.packet += n`, or `.raw`. -/
def addStompstats (w : Worker) (t : Table) (n : UInt64) : Worker :=
  { w with stompstats := { w.stompstats with aprsStats := w.stompstats.aprsStats.add n t } }

/-- `_stats.packets += n`, or `.raw`. -/
def addStats (w : Worker) (t : Table) (n : UInt64) : Worker :=
  { w with stats := w.stats.add n t }

/-- The four additions of `try_deletes`. -/
def countDeletes (w : Worker) (numPackets numRaw : UInt64) : Worker :=
  (((w.addStompstats .packet numPackets).addStompstats .raw numRaw).addStats
    .packet numPackets).addStats .raw numRaw

end Worker

/-! ### The pass -/

namespace Store

/-- `Store::deletePacketsByAge`. -/
def deletePacketsByAge : Clock → Int64 → UInt64 → Picker → Attempt → Tables →
    DBI.DeleteResult := DBI.deletePacketsByAge

/-- `Store::deleteRawByAge`. -/
def deleteRawByAge : Clock → Int64 → UInt64 → Picker → Attempt → Tables →
    DBI.DeleteResult := DBI.deleteRawByAge

end Store

/-- What one call of `try_deletes` meets: the answer of the timer, how either
deletion goes, and the milliseconds the stopwatch shows. -/
structure DeletesInput where
  /-- The answer of the timer. -/
  isNext : Bool
  /-- The reading for the cutoff of `packet`. -/
  packetNow : Clock
  /-- MySQL's choice of rows of `packet`. -/
  packetPicker : Picker
  /-- How the deletion from `packet` goes. -/
  packetAttempt : Attempt
  /-- The reading for the cutoff of `raw`. -/
  rawNow : Clock
  /-- MySQL's choice of rows of `raw`. -/
  rawPicker : Picker
  /-- How the deletion from `raw` goes. -/
  rawAttempt : Attempt
  /-- The milliseconds the stopwatch shows. -/
  elapsed : String

/-- What a pass leaves behind. -/
structure PassResult where
  /-- The worker. -/
  worker : Worker
  /-- The tables. -/
  tables : Tables
  /-- What was published. -/
  published : List Datapoint
  /-- The report, if one was due. -/
  printed : Option Report
  /-- What was logged. -/
  log : List LogLine

/-- The line about the rows deleted, unless there were none. -/
def deletesLine (numPackets numRaw : UInt64) (elapsed : String) : List LogLine :=
  if numPackets > 0 ∨ numRaw > 0 then
    [⟨.notice, "Delete packets " ++ toString numPackets ++ ", raw " ++ toString numRaw ++
      " in " ++ elapsed ++ " ms"⟩]
  else []

namespace Worker

/-- `Worker::try_deletes`. -/
def tryDeletes (i : DeletesInput) (w : Worker) (db : Tables) : Worker × Tables × List LogLine :=
  if i.isNext then
    let packets := Store.deletePacketsByAge i.packetNow w.maxPacketAge w.maxPacketLimit
      i.packetPicker i.packetAttempt db
    let raw := Store.deleteRawByAge i.rawNow w.maxRawAge w.maxRawLimit
      i.rawPicker i.rawAttempt packets.tables
    (w.countDeletes packets.numAffectedRows raw.numAffectedRows, raw.tables,
      packets.log ++ raw.log ++
        deletesLine packets.numAffectedRows raw.numAffectedRows i.elapsed)
  else (w, db, [])

/-- `Worker::run`.  The store's `try_stats`, between the two calls, touches
neither the tables nor the worker. -/
def run (r : StatsReadings) (connectedTo : String) (i : DeletesInput) (w : Worker)
    (db : Tables) : PassResult :=
  let stats := w.tryStats r connectedTo
  let deletes := stats.1.tryDeletes i db
  ⟨deletes.1, deletes.2.1, stats.2.1, stats.2.2, deletes.2.2⟩

end Worker

/-! ### Either table -/

/-- The age a worker keeps the rows of a table for. -/
def Worker.maxAge (w : Worker) : Table → Int64
  | .packet => w.maxPacketAge
  | .raw => w.maxRawAge

/-- The rows of a table a worker deletes at once. -/
def Worker.maxLimit (w : Worker) : Table → UInt64
  | .packet => w.maxPacketLimit
  | .raw => w.maxRawLimit

/-- The deleted rows a window counts. -/
def ObjStats.deleted (s : ObjStats) : Table → UInt32
  | .packet => s.packets
  | .raw => s.raw

/-- The deleted rows a window counts. -/
def ObjStompstats.deleted (s : ObjStompstats) : Table → UInt32
  | .packet => s.aprsStats.packet
  | .raw => s.aprsStats.raw

/-- The deleted rows a report shows. -/
def Report.deleted (r : Report) : Table → UInt32
  | .packet => r.packets
  | .raw => r.raw

/-- The rate a report shows. -/
def Report.rateOf (r : Report) : Table → ℚ
  | .packet => r.ppm
  | .raw => r.rpm

/-- The name a table's deletions are published under. -/
def Table.datapoint : Table → String
  | .packet => "aprs_stats.delete.packet"
  | .raw => "aprs_stats.delete.raw"

/-- The reading a table's cutoff is computed from. -/
def DeletesInput.now (i : DeletesInput) : Table → Clock
  | .packet => i.packetNow
  | .raw => i.rawNow

/-- MySQL's choice in a table's deletion. -/
def DeletesInput.picker (i : DeletesInput) : Table → Picker
  | .packet => i.packetPicker
  | .raw => i.rawPicker

/-- How a table's deletion goes. -/
def DeletesInput.attempt (i : DeletesInput) : Table → Attempt
  | .packet => i.packetAttempt
  | .raw => i.rawAttempt

/-- What a table's deletion of a pass does, wherever it comes in the pass. -/
def DeletesInput.deletion (i : DeletesInput) (w : Worker) (t : Table) : Tables → DBI.DeleteResult :=
  t.deleteBefore ((i.now t).time - w.maxAge t) (w.maxLimit t) (i.picker t) (i.attempt t)

theorem Worker.tryDeletes_of_isNext {i : DeletesInput} (h : i.isNext = true) (w : Worker)
    (db : Tables) :
    w.tryDeletes i db =
      let packets := i.deletion w .packet db
      let raw := i.deletion w .raw packets.tables
      (w.countDeletes packets.numAffectedRows raw.numAffectedRows, raw.tables,
        packets.log ++ raw.log ++
          deletesLine packets.numAffectedRows raw.numAffectedRows i.elapsed) := by
  rw [tryDeletes, if_pos h]
  rfl

theorem Worker.tryDeletes_of_not_isNext {i : DeletesInput} (h : i.isNext = false) (w : Worker)
    (db : Tables) : w.tryDeletes i db = (w, db, []) := by
  rw [tryDeletes, h, if_neg Bool.false_ne_true]

/-- **A pass deletes from each table as if the other were not there.** -/
theorem Worker.tables_tryDeletes (i : DeletesInput) (w : Worker) (db : Tables) (t : Table) :
    (w.tryDeletes i db).2.1 t = if i.isNext then (i.deletion w t db).tables t else db t := by
  cases hnext : i.isNext with
  | false =>
    rw [tryDeletes_of_not_isNext hnext]
    simp
  | true =>
    rw [tryDeletes_of_isNext hnext, if_pos rfl]
    cases t with
    | packet => exact DBI.tables_deleteBefore_of_ne (by decide)
    | raw => exact DBI.tables_deleteBefore_congr (DBI.tables_deleteBefore_of_ne (by decide))

/-- **A 64-bit count is added modulo `2 ^ 32`.** -/
theorem toNat_addSize (count : UInt32) (n : UInt64) :
    (addSize count n).toNat = (count.toNat + n.toNat) % 2 ^ 32 := by
  have hlt := count.toNat_lt
  simp only [addSize, UInt64.toNat_toUInt32, UInt64.toNat_add, UInt32.toNat_toUInt64]
  omega

namespace Worker

variable {w : Worker} {t u : Table} {n m : UInt64} {r : StatsReadings} {s : String}

/-! ### What the counting changes -/

@[simp] theorem maxAge_addStompstats : (w.addStompstats t n).maxAge = w.maxAge := by
  funext u; cases u <;> rfl

@[simp] theorem maxLimit_addStompstats : (w.addStompstats t n).maxLimit = w.maxLimit := by
  funext u; cases u <;> rfl

@[simp] theorem maxAge_addStats : (w.addStats t n).maxAge = w.maxAge := by
  funext u; cases u <;> rfl

@[simp] theorem maxLimit_addStats : (w.addStats t n).maxLimit = w.maxLimit := by
  funext u; cases u <;> rfl

@[simp] theorem stats_addStompstats : (w.addStompstats t n).stats = w.stats := rfl

@[simp] theorem stompstats_addStats : (w.addStats t n).stompstats = w.stompstats := rfl

theorem deleted_addStompstats :
    (w.addStompstats t n).stompstats.deleted u =
      if u = t then addSize (w.stompstats.deleted u) n else w.stompstats.deleted u := by
  cases t <;> cases u <;> rfl

theorem deleted_addStats :
    (w.addStats t n).stats.deleted u =
      if u = t then addSize (w.stats.deleted u) n else w.stats.deleted u := by
  cases t <;> cases u <;> rfl

/-! ### What the reports change -/

@[simp] theorem maxAge_tryStompstats : (w.tryStompstats r).1.maxAge = w.maxAge := by
  unfold tryStompstats
  funext u
  cases u <;> split <;> rfl

@[simp] theorem maxLimit_tryStompstats : (w.tryStompstats r).1.maxLimit = w.maxLimit := by
  unfold tryStompstats
  funext u
  cases u <;> split <;> rfl

@[simp] theorem stats_tryStompstats : (w.tryStompstats r).1.stats = w.stats := by
  unfold tryStompstats
  split <;> rfl

@[simp] theorem maxAge_reportStats : (w.reportStats r s).1.maxAge = w.maxAge := by
  unfold reportStats
  funext u
  cases u <;> split <;> rfl

@[simp] theorem maxLimit_reportStats : (w.reportStats r s).1.maxLimit = w.maxLimit := by
  unfold reportStats
  funext u
  cases u <;> split <;> rfl

@[simp] theorem stompstats_reportStats : (w.reportStats r s).1.stompstats = w.stompstats := by
  unfold reportStats
  split <;> rfl

@[simp] theorem maxAge_tryStats : (w.tryStats r s).1.maxAge = w.maxAge := by
  simp [tryStats]

@[simp] theorem maxLimit_tryStats : (w.tryStats r s).1.maxLimit = w.maxLimit := by
  simp [tryStats]

/-- The reports of a pass leave its deletions alone. -/
theorem tables_run (i : DeletesInput) (w : Worker) (db : Tables) (t : Table) :
    (w.run r s i db).tables t = (w.tryDeletes i db).2.1 t := by
  show ((w.tryStats r s).1.tryDeletes i db).2.1 t = _
  rw [tables_tryDeletes, tables_tryDeletes, DeletesInput.deletion, DeletesInput.deletion,
    maxAge_tryStats, maxLimit_tryStats]

end Worker

/-- The deletions from a table that a list of datapoints publishes. -/
def publishedFor (t : Table) (points : List Datapoint) : ℕ :=
  ((points.filter fun d => d.name = t.datapoint).map fun d => d.value.toNat).sum

/-- The deletions from a table that a list of reports shows. -/
def printedFor (t : Table) (reports : List Report) : ℕ :=
  (reports.map fun r => (r.deleted t).toNat).sum

@[simp] theorem publishedFor_append (t : Table) (xs ys : List Datapoint) :
    publishedFor t (xs ++ ys) = publishedFor t xs + publishedFor t ys := by
  simp [publishedFor]

@[simp] theorem printedFor_append (t : Table) (xs ys : List Report) :
    printedFor t (xs ++ ys) = printedFor t xs + printedFor t ys := by
  simp [printedFor]

/-- **Publishing loses nothing**: what the window held is published or still there. -/
theorem deleted_tryStompstats (r : StatsReadings) (w : Worker) (t : Table) :
    publishedFor t (w.tryStompstats r).2 + ((w.tryStompstats r).1.stompstats.deleted t).toNat =
      (w.stompstats.deleted t).toNat := by
  unfold Worker.tryStompstats
  split
  · simp [publishedFor]
  · cases t <;> simp [publishedFor, Table.datapoint, initStompstats, ObjStompstats.deleted]

/-- **Printing loses nothing**: what the window held is printed or still there. -/
theorem deleted_reportStats (r : StatsReadings) (connectedTo : String) (w : Worker) (t : Table) :
    printedFor t (w.reportStats r connectedTo).2.toList +
        ((w.reportStats r connectedTo).1.stats.deleted t).toNat =
      (w.stats.deleted t).toNat := by
  unfold Worker.reportStats
  split
  · simp [printedFor]
  · cases t <;> simp [printedFor, Report.deleted, initStats, ObjStats.deleted]

end AprsPruner
