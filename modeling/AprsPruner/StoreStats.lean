import AprsPruner.Lib.Window
import AprsPruner.Profile
import AprsPruner.Worker

/-!
# The statistics of the store

A store keeps two windows of the same record: `_stompstats`, published about every 5
seconds, and `_stats`, printed about once an hour.  The record has 31 members, and
`init_stats` clears them one by one, in an order of its own.  It misses two of them,
`cache_lastpositions` and `sql_position`: they keep what memory held at construction
and whatever they were updated with since.  Neither of them is published or printed.

The members are updated by code that is not in the repository, so an update is any
function here.  The percentages and the averages of the stopwatch come from outside.

## Main definitions

* `Store.Member`, `Store.ObjStats` — the members, and the record.
* `Store.initStats`, `Store.construct` — clearing the record, and the constructor.
* `Store.tryStompstats`, `Store.tryStats` — the passes that report and clear.
* `Store.step` — what happens to a store.
* `Store.History` — memory at construction, and what happens after it.

## Main results

* `Store.notMem_cleared_iff` — what `init_stats` misses.
* `Store.window_run` — a window is a record that its passes reset.
* `Store.History.counters_final` — what a forgotten member holds.
* `Store.window_starts_empty_iff` — **when a window starts empty.**
* `Store.outputs_construct`, `Store.outputs_initStats` — what memory held, or what was
  counted before a reset, is never reported after it.
-/

namespace AprsPruner

open Transition

namespace Store

/-! ### The record -/

/-- `Store::memcache_stats_t`. -/
structure MemcacheStats where
  /-- Lookups that found the key. -/
  hits : UInt32
  /-- Lookups that did not. -/
  misses : UInt32
  /-- Lookups. -/
  tries : UInt32
  /-- Values stored. -/
  stored : UInt32
  deriving DecidableEq, Repr

/-- `Store::sql_stats_t`. -/
structure SqlStats where
  /-- Queries that found a row. -/
  hits : UInt32
  /-- Queries that did not. -/
  misses : UInt32
  /-- Queries. -/
  tries : UInt32
  /-- Rows inserted. -/
  inserted : UInt32
  /-- Insertions that failed. -/
  failed : UInt32
  deriving DecidableEq, Repr

/-- The members `cache_store` to `cache_positions`. -/
inductive CacheMember where
  /-- `cache_store` -/
  | store : CacheMember
  /-- `cache_callsign` -/
  | callsign : CacheMember
  /-- `cache_dest` -/
  | dest : CacheMember
  /-- `cache_digi` -/
  | digi : CacheMember
  /-- `cache_icon` -/
  | icon : CacheMember
  /-- `cache_message` -/
  | message : CacheMember
  /-- `cache_name` -/
  | name : CacheMember
  /-- `cache_packet` -/
  | packet : CacheMember
  /-- `cache_path` -/
  | path : CacheMember
  /-- `cache_status` -/
  | status : CacheMember
  /-- `cache_duplicates` -/
  | duplicates : CacheMember
  /-- `cache_position` -/
  | position : CacheMember
  /-- `cache_locatorseen` -/
  | locatorseen : CacheMember
  /-- `cache_lastpositions` -/
  | lastpositions : CacheMember
  /-- `cache_positions` -/
  | positions : CacheMember
  deriving DecidableEq, Repr

/-- The members `sql_store` to `sql_status`. -/
inductive SqlMember where
  /-- `sql_store` -/
  | store : SqlMember
  /-- `sql_callsign` -/
  | callsign : SqlMember
  /-- `sql_dest` -/
  | dest : SqlMember
  /-- `sql_digi` -/
  | digi : SqlMember
  /-- `sql_icon` -/
  | icon : SqlMember
  /-- `sql_message` -/
  | message : SqlMember
  /-- `sql_name` -/
  | name : SqlMember
  /-- `sql_packet` -/
  | packet : SqlMember
  /-- `sql_path` -/
  | path : SqlMember
  /-- `sql_position` -/
  | position : SqlMember
  /-- `sql_status` -/
  | status : SqlMember
  deriving DecidableEq, Repr

/-- The members `prof_cache_locatorseen` to `prof_sql_path`. -/
inductive ProfMember where
  /-- `prof_cache_locatorseen` -/
  | cacheLocatorseen : ProfMember
  /-- `prof_cache_lastpositions` -/
  | cacheLastpositions : ProfMember
  /-- `prof_cache_positions` -/
  | cachePositions : ProfMember
  /-- `prof_sql_message` -/
  | sqlMessage : ProfMember
  /-- `prof_sql_path` -/
  | sqlPath : ProfMember
  deriving DecidableEq, Repr

/-- The aggregate members of `Store::obj_stats_t`. -/
inductive Member where
  /-- A member about the cache. -/
  | cache (member : CacheMember) : Member
  /-- A member about a table. -/
  | sql (member : SqlMember) : Member
  /-- A member about running times. -/
  | prof (member : ProfMember) : Member
  deriving DecidableEq, Repr

/-- The type of a member. -/
abbrev Member.Stats : Member → Type
  | .cache _ => MemcacheStats
  | .sql _ => SqlStats
  | .prof _ => ProfileStats

/-- A member whose fields are all 0. -/
def Member.zero : ∀ m : Member, m.Stats
  | .cache _ => ⟨0, 0, 0, 0⟩
  | .sql _ => ⟨0, 0, 0, 0, 0⟩
  | .prof _ => ⟨0, 0⟩

instance (m : Member) : Zero m.Stats := ⟨m.zero⟩

instance : ∀ m : Member, DecidableEq m.Stats
  | .cache _ => inferInstanceAs (DecidableEq MemcacheStats)
  | .sql _ => inferInstanceAs (DecidableEq SqlStats)
  | .prof _ => inferInstanceAs (DecidableEq ProfileStats)

/-- `Store::obj_stats_t`. -/
structure ObjStats where
  /-- The aggregate members. -/
  counters : ∀ m : Member, m.Stats
  /-- `last_report_at` -/
  lastReportAt : Int64
  /-- `report_interval` -/
  reportInterval : Int64
  /-- `created_at` -/
  createdAt : Int64

/-- The members that `init_stats` clears, in its order. -/
def cleared : List Member :=
  [.cache .store, .cache .callsign, .cache .icon, .cache .name, .cache .dest, .cache .digi,
    .cache .message, .cache .packet, .cache .path, .cache .status, .cache .duplicates,
    .cache .positions, .cache .position, .cache .locatorseen,
    .sql .store, .sql .callsign, .sql .icon, .sql .digi, .sql .message, .sql .dest,
    .sql .name, .sql .packet, .sql .path, .sql .status,
    .prof .cacheLocatorseen, .prof .cacheLastpositions, .prof .cachePositions,
    .prof .sqlMessage, .prof .sqlPath]

/-- `Store::init_stats`.  On startup the clock is read a second time. -/
def initStats (now : Clock) (startup : Option Clock) (stats : ObjStats) : ObjStats :=
  { stats with
    counters := Window.reset cleared stats.counters
    lastReportAt := now.time
    createdAt := startup.elim stats.createdAt Clock.time }

theorem counters_initStats (now : Clock) (startup : Option Clock) (s : ObjStats) {m : Member}
    (hm : m ∈ cleared) : (initStats now startup s).counters m = 0 := Window.reset_of_mem hm

/-- The members that `init_stats` does not clear. -/
def forgotten : List Member := [.cache .lastpositions, .sql .position]

/-- **What `init_stats` misses**: it clears every member but two. -/
theorem notMem_cleared_iff (m : Member) : m ∉ cleared ↔ m ∈ forgotten := by
  rcases m with m | m | m <;> cases m <;> decide

end Store

/-! ### Stores -/

/-- A store, as far as its statistics go: the windows `_stats` and `_stompstats`. -/
structure Store where
  /-- `_stats`, that is printed. -/
  stats : Store.ObjStats
  /-- `_stompstats`, that is published. -/
  stompstats : Store.ObjStats

namespace Store

/-- The seconds between two printed reports. -/
def kDefaultReportInterval : Int64 := 3600

/-- What the constructor finds: the memory under the two windows, and its readings of
the clock. -/
structure Startup where
  /-- The memory under `_stats`. -/
  stats : ObjStats
  /-- The memory under `_stompstats`. -/
  stompstats : ObjStats
  /-- When `_stats` is reset. -/
  statsNow : Clock
  /-- When `_stats` is created. -/
  statsCreated : Clock
  /-- When `_stompstats` is reset. -/
  stompNow : Clock
  /-- When `_stompstats` is created. -/
  stompCreated : Clock

/-- `Store::Store`. -/
def construct (reportInterval : Int64) (m : Startup) : Store where
  stats :=
    { initStats m.statsNow (some m.statsCreated) m.stats with reportInterval := reportInterval }
  stompstats :=
    { initStats m.stompNow (some m.stompCreated) m.stompstats with reportInterval := 5 }

/-! ### What is reported -/

/-- A value handed to `datapoint`, a count or a mean, or to `datapoint_float`, a rate. -/
inductive PointValue where
  /-- A count. -/
  | count (n : UInt32) : PointValue
  /-- A mean running time. -/
  | mean (ms : Int32) : PointValue
  /-- A rate. -/
  | rate (percent : ℚ) : PointValue
  deriving DecidableEq, Repr

/-- A value that is published, under its name. -/
structure Point where
  /-- The name. -/
  name : String
  /-- The value. -/
  value : PointValue
  deriving DecidableEq, Repr

/-- A line that `try_stats` prints. -/
inductive ReportLine where
  /-- A line about the cache. -/
  | memcached (name : String) (hits misses tries : UInt32) (rate average : ℚ) : ReportLine
  /-- A line about a table. -/
  | sql (name : String) (hits misses tries : UInt32) (rate : ℚ) : ReportLine
  deriving DecidableEq, Repr

/-- What is reported of the members of a record, one after the other. -/
abbrev Table (α : Type) := List (Σ m : Member, m.Stats → List α)

/-- The report of a record. -/
def Table.report {α : Type} (table : Table α) (counters : ∀ m : Member, m.Stats) : List α :=
  table.flatMap fun entry => entry.2 (counters entry.1)

/-- A table that reads only what `init_stats` clears does not see the rest. -/
theorem Table.report_congr {α : Type} {table : Table α} {s t : ∀ m : Member, m.Stats}
    (htable : ∀ entry ∈ table, entry.1 ∈ cleared) (h : ∀ m ∈ cleared, s m = t m) :
    table.report s = table.report t := by
  refine List.flatMap_congr fun entry hentry => ?_
  rw [h _ (htable entry hentry)]

section Reports

/- `OPENSTATS_PERCENT`, and the averages of the stopwatch. -/
variable (percent : UInt32 → UInt32 → ℚ) (average : String → ℚ)

/-- The six points about a table. -/
def sqlPoints (name : String) (s : SqlStats) : List Point :=
  [⟨"store.num.sql." ++ name ++ ".tries", .count s.tries⟩,
    ⟨"store.num.sql." ++ name ++ ".hits", .count s.hits⟩,
    ⟨"store.num.sql." ++ name ++ ".hitrate", .rate (percent s.hits s.tries)⟩,
    ⟨"store.num.sql." ++ name ++ ".misses", .count s.misses⟩,
    ⟨"store.num.sql." ++ name ++ ".inserted", .count s.inserted⟩,
    ⟨"store.num.sql." ++ name ++ ".failed", .count s.failed⟩]

/-- The points about icons, without the number inserted. -/
def sqlIconPoints (s : SqlStats) : List Point :=
  [⟨"store.num.sql.icon.tries", .count s.tries⟩,
    ⟨"store.num.sql.icon.hits", .count s.hits⟩,
    ⟨"store.num.sql.icon.hitrate", .rate (percent s.hits s.tries)⟩,
    ⟨"store.num.sql.icon.misses", .count s.misses⟩,
    ⟨"store.num.sql.icon.failed", .count s.failed⟩]

/-- The points about packets: they are only inserted. -/
def sqlPacketPoints (s : SqlStats) : List Point :=
  [⟨"store.num.sql.packet.inserted", .count s.inserted⟩,
    ⟨"store.num.sql.packet.failed", .count s.failed⟩]

/-- The five points about a cache. -/
def cachePoints (name : String) (s : MemcacheStats) : List Point :=
  [⟨"store.num.cache." ++ name ++ ".tries", .count s.tries⟩,
    ⟨"store.num.cache." ++ name ++ ".misses", .count s.misses⟩,
    ⟨"store.num.cache." ++ name ++ ".hits", .count s.hits⟩,
    ⟨"store.num.cache." ++ name ++ ".hitrate", .rate (percent s.hits s.tries)⟩,
    ⟨"store.num.cache." ++ name ++ ".stored", .count s.stored⟩]

/-- The points about the status, in another order. -/
def cacheStatusPoints (s : MemcacheStats) : List Point :=
  [⟨"store.num.cache.status.tries", .count s.tries⟩,
    ⟨"store.num.cache.status.hits", .count s.hits⟩,
    ⟨"store.num.cache.status.misses", .count s.misses⟩,
    ⟨"store.num.cache.status.hitrate", .rate (percent s.hits s.tries)⟩,
    ⟨"store.num.cache.status.stored", .count s.stored⟩]

/-- The mean running time of a member. -/
def meanPoint (name : String) (s : ProfileStats) : List Point := [⟨name, .mean s.mean⟩]

/-- What `try_stompstats` publishes, in its order. -/
def published : Table Point :=
  [⟨.sql .callsign, sqlPoints percent "callsign"⟩,
    ⟨.sql .icon, sqlIconPoints percent⟩,
    ⟨.sql .name, sqlPoints percent "name"⟩,
    ⟨.sql .dest, sqlPoints percent "dest"⟩,
    ⟨.sql .digi, sqlPoints percent "digi"⟩,
    ⟨.sql .message, sqlPoints percent "message"⟩,
    ⟨.prof .sqlMessage, meanPoint "store.num.sql.message.time.get"⟩,
    ⟨.sql .packet, sqlPacketPoints⟩,
    ⟨.cache .callsign, cachePoints percent "callsign"⟩,
    ⟨.cache .icon, cachePoints percent "icon"⟩,
    ⟨.cache .name, cachePoints percent "name"⟩,
    ⟨.cache .dest, cachePoints percent "dest"⟩,
    ⟨.cache .digi, cachePoints percent "digi"⟩,
    ⟨.cache .message, cachePoints percent "message"⟩,
    ⟨.sql .path, sqlPoints percent "path"⟩,
    ⟨.prof .sqlPath, meanPoint "store.num.sql.path.time.get"⟩,
    ⟨.cache .path, cachePoints percent "path"⟩,
    ⟨.sql .status, sqlPoints percent "status"⟩,
    ⟨.cache .status, cacheStatusPoints percent⟩,
    ⟨.cache .duplicates, cachePoints percent "duplicates"⟩,
    ⟨.cache .locatorseen, fun s => [⟨"store.num.cache.locator.stored", .count s.stored⟩]⟩,
    ⟨.prof .cacheLocatorseen, meanPoint "store.num.cache.locator.time.put"⟩,
    ⟨.cache .positions, cachePoints percent "positions"⟩]

/-- The line about a cache. -/
def memcachedLine (name key : String) (s : MemcacheStats) : List ReportLine :=
  [.memcached name s.hits s.misses s.tries (percent s.hits s.tries) (average key)]

/-- The line about a table. -/
def sqlLine (name : String) (s : SqlStats) : List ReportLine :=
  [.sql name s.hits s.misses s.tries (percent s.hits s.tries)]

/-- What `try_stats` prints, in its order. -/
def printed : Table ReportLine :=
  [⟨.cache .callsign, memcachedLine percent average "callsign" "memcached.callsign"⟩,
    ⟨.cache .name, memcachedLine percent average "name" "memcached.name"⟩,
    ⟨.cache .icon, memcachedLine percent average "icon" "memcached.icon"⟩,
    ⟨.cache .dest, memcachedLine percent average "dest" "memcached.dest"⟩,
    ⟨.cache .digi, memcachedLine percent average "digi" "memcached.digi"⟩,
    ⟨.cache .message, memcachedLine percent average "message" "memcached.message"⟩,
    ⟨.cache .path, memcachedLine percent average "path" "memcached.path"⟩,
    ⟨.cache .status, memcachedLine percent average "status" "memcached.status"⟩,
    ⟨.cache .position, memcachedLine percent average "pos" "memcached.position"⟩,
    ⟨.cache .positions, memcachedLine percent average "poss" "memcached.positions"⟩,
    ⟨.cache .duplicates, memcachedLine percent average "dups" "memcached.duplicates"⟩,
    ⟨.sql .callsign, sqlLine percent "callsign"⟩,
    ⟨.sql .name, sqlLine percent "name"⟩,
    ⟨.sql .icon, sqlLine percent "icon"⟩,
    ⟨.sql .dest, sqlLine percent "dest"⟩,
    ⟨.sql .digi, sqlLine percent "digi"⟩,
    ⟨.sql .message, sqlLine percent "message"⟩,
    ⟨.sql .path, sqlLine percent "path"⟩,
    ⟨.sql .status, sqlLine percent "status"⟩]

/-- What is published is cleared afterwards. -/
theorem published_cleared : ∀ entry ∈ published percent, entry.1 ∈ cleared := by
  simp only [published, List.forall_mem_cons]
  decide

/-- What is printed is cleared afterwards. -/
theorem printed_cleared : ∀ entry ∈ printed percent average, entry.1 ∈ cleared := by
  simp only [printed, List.forall_mem_cons]
  decide

end Reports

/-! ### What happens to a store -/

/-- The clock as one call of `try_stats` reads it, in the order of the reads. -/
structure Readings where
  /-- The test of `try_stompstats`. -/
  stompGuard : Clock
  /-- The reset of `_stompstats`. -/
  stompInit : Clock
  /-- The test of `try_stats`. -/
  guard : Clock
  /-- The reset of `_stats`. -/
  init : Clock

/-- What a pass reports. -/
structure Reported where
  /-- What is published. -/
  published : List Point
  /-- What is printed. -/
  printed : List ReportLine
  deriving DecidableEq, Repr

/-- `Store::try_stompstats`. -/
def tryStompstats (percent : UInt32 → UInt32 → ℚ) (guard init : Clock) (s : Store) :
    Store × List Point :=
  if s.stompstats.lastReportAt > guard.time - s.stompstats.reportInterval then (s, [])
  else
    ({ s with stompstats := initStats init none s.stompstats },
      (published percent).report s.stompstats.counters)

/-- `Store::try_stats` after its call of `try_stompstats`. -/
def reportStats (percent : UInt32 → UInt32 → ℚ) (average : String → ℚ) (guard init : Clock)
    (s : Store) : Store × List ReportLine :=
  if s.stats.lastReportAt > guard.time - s.stats.reportInterval then (s, [])
  else
    ({ s with stats := initStats init none s.stats },
      (printed percent average).report s.stats.counters)

/-- `Store::try_stats`. -/
def tryStats (percent : UInt32 → UInt32 → ℚ) (average : String → ℚ) (r : Readings) (s : Store) :
    Store × Reported :=
  let published := s.tryStompstats percent r.stompGuard r.stompInit
  let printed := published.1.reportStats percent average r.guard r.init
  (printed.1, ⟨published.2, printed.2⟩)

/-- One of the two windows. -/
inductive WindowName where
  /-- `_stats` -/
  | stats : WindowName
  /-- `_stompstats` -/
  | stompstats : WindowName
  deriving DecidableEq, Repr

/-- The window of a name. -/
def window (s : Store) : WindowName → ObjStats
  | .stats => s.stats
  | .stompstats => s.stompstats

/-- One member of a record is updated. -/
def ObjStats.count (m : Member) (f : m.Stats → m.Stats) (s : ObjStats) : ObjStats :=
  { s with counters := Function.update s.counters m (f (s.counters m)) }

/-- One member of a window is updated. -/
def count (w : WindowName) (m : Member) (f : m.Stats → m.Stats) (s : Store) : Store :=
  match w with
  | .stats => { s with stats := s.stats.count m f }
  | .stompstats => { s with stompstats := s.stompstats.count m f }

/-- What happens to a store: a counter is updated, or a pass is made. -/
inductive Event where
  /-- A member of a window is updated. -/
  | count (w : WindowName) (m : Member) (f : m.Stats → m.Stats) : Event
  /-- `try_stompstats` is called. -/
  | tryStompstats (guard init : Clock) : Event
  /-- `try_stats` is called. -/
  | tryStats (average : String → ℚ) (r : Readings) : Event

/-- A store takes an event and reports what it has to. -/
def step (percent : UInt32 → UInt32 → ℚ) (s : Store) : Event → Store × Reported
  | .count w m f => (s.count w m f, ⟨[], []⟩)
  | .tryStompstats guard init =>
    let published := s.tryStompstats percent guard init
    (published.1, ⟨published.2, []⟩)
  | .tryStats average r => s.tryStats percent average r

/-- Memory at construction, and what happens to the store after it. -/
structure History where
  /-- The interval given to the constructor. -/
  reportInterval : Int64
  /-- What the constructor finds. -/
  startup : Startup
  /-- What happens to the store. -/
  events : List Event

/-- The memory under a window. -/
def Startup.memory (m : Startup) : WindowName → ObjStats
  | .stats => m.stats
  | .stompstats => m.stompstats

/-- The store that a history ends with. -/
def History.final (percent : UInt32 → UInt32 → ℚ) (h : History) : Store :=
  finalState (step percent) (construct h.reportInterval h.startup) h.events

/-- An event as a window sees it: what is counted in the other one is nothing to it. -/
def Event.on (w : WindowName) : Event → Window.Event Member.Stats
  | .count w' m f => if w' = w then .update m f else .pass
  | .tryStompstats _ _ => .pass
  | .tryStats _ _ => .pass

/-- What memory held under a window, with every update that was made in the window. -/
def History.total (h : History) (w : WindowName) : ∀ m : Member, m.Stats :=
  Window.total (h.startup.memory w).counters (h.events.map (Event.on w))

variable {percent : UInt32 → UInt32 → ℚ}

/-! ### A window as a record that is reset -/

theorem stats_tryStompstats (guard init : Clock) (s : Store) :
    (s.tryStompstats percent guard init).1.stats = s.stats := by
  rw [tryStompstats]
  split <;> rfl

theorem stompstats_reportStats (average : String → ℚ) (guard init : Clock) (s : Store) :
    (s.reportStats percent average guard init).1.stompstats = s.stompstats := by
  rw [reportStats]
  split <;> rfl

/-- `try_stompstats` resets its window or leaves it. -/
theorem step_tryStompstats (guard init : Clock) (s : Store) :
    Window.Step cleared s.stompstats.counters .pass
      (s.tryStompstats percent guard init).1.stompstats.counters := by
  rw [tryStompstats]
  split
  · exact .event _ .pass
  · exact .due _

/-- `try_stats` resets its own window or leaves it. -/
theorem step_reportStats (percent : UInt32 → UInt32 → ℚ) (average : String → ℚ)
    (guard init : Clock) (s : Store) :
    Window.Step cleared s.stats.counters .pass
      (s.reportStats percent average guard init).1.stats.counters := by
  rw [reportStats]
  split
  · exact .event _ .pass
  · exact .due _

/-- **One event is an event of each window.** -/
theorem window_step (s : Store) (e : Event) (w : WindowName) :
    Window.Step cleared (s.window w).counters (e.on w)
      ((s.step percent e).1.window w).counters := by
  cases e with
  | count w' m f =>
    cases w' <;> cases w <;> first | exact .event _ (.update m f) | exact .event _ .pass
  | tryStompstats guard init =>
    cases w with
    | stats =>
      rw [step, window, window, stats_tryStompstats]
      exact .event _ .pass
    | stompstats => exact step_tryStompstats guard init s
  | tryStats average r =>
    cases w with
    | stats =>
      have hstep := step_reportStats percent average r.guard r.init
        (s.tryStompstats percent r.stompGuard r.stompInit).1
      rwa [stats_tryStompstats] at hstep
    | stompstats =>
      rw [step, tryStats, window, window, stompstats_reportStats]
      exact step_tryStompstats r.stompGuard r.stompInit s

/-- **A window is a record that its passes reset.** -/
theorem window_run (w : WindowName) : ∀ (es : List Event) (s : Store),
    Run (Window.Step cleared) (s.window w).counters (es.map (Event.on w))
      ((finalState (step percent) s es).window w).counters := by
  intro es
  induction es with
  | nil => exact fun s => .nil _
  | cons e es ih => exact fun s => .cons (window_step s e w) (ih _)

/-- The constructor resets both windows. -/
theorem step_construct (reportInterval : Int64) (m : Startup) (w : WindowName) :
    Window.Step cleared (m.memory w).counters .pass
      ((construct reportInterval m).window w).counters := by
  cases w <;> exact .due _

/-- A window, from the memory it was built in. -/
theorem History.run (percent : UInt32 → UInt32 → ℚ) (h : History) (w : WindowName) :
    Run (Window.Step cleared) (h.startup.memory w).counters (.pass :: h.events.map (Event.on w))
      ((h.final percent).window w).counters :=
  .cons (step_construct _ _ w) (window_run w _ _)

/-! ### When a window starts empty -/

/-- `init_stats` empties every counter, keeps the report interval, and keeps the time of
creation unless on startup. -/
structure StartsEmpty (now : Clock) (startup : Option Clock) (s : ObjStats) : Prop where
  /-- No counter is left. -/
  counters : ∀ m, (initStats now startup s).counters m = 0
  /-- The report interval stays. -/
  reportInterval : (initStats now startup s).reportInterval = s.reportInterval
  /-- The time of creation stays, unless on startup. -/
  createdAt : startup = none → (initStats now startup s).createdAt = s.createdAt

/-- A window starts empty exactly if its reset leaves nothing. -/
theorem startsEmpty_iff (now : Clock) (startup : Option Clock) (s : ObjStats) :
    StartsEmpty now startup s ↔ ∀ m, Window.reset cleared s.counters m = 0 := by
  constructor
  · exact fun h => h.counters
  · refine fun h => ⟨h, rfl, ?_⟩
    rintro rfl
    rfl

/-- **A forgotten member is never reset**: it holds what memory held there, with every
update since. -/
theorem History.counters_final (percent : UInt32 → UInt32 → ℚ) (h : History) (w : WindowName)
    {m : Member} (hm : m ∈ forgotten) : ((h.final percent).window w).counters m = h.total w m :=
  Window.apply_of_run (h.run percent w) ((notMem_cleared_iff m).mpr hm)

/-- **When a window starts empty**: exactly if `cache_lastpositions` and `sql_position` are
empty before it.  After any history that is if what memory held in them, with every
update since, is nothing; and two histories end in the same counters after a reset
exactly if that is the same for both. -/
theorem window_starts_empty_iff (percent : UInt32 → UInt32 → ℚ) (w : WindowName) (now : Clock)
    (startup : Option Clock) :
    (∀ s, StartsEmpty now startup s ↔ ∀ m ∈ forgotten, s.counters m = 0) ∧
    (∀ h : History, StartsEmpty now startup ((h.final percent).window w) ↔
      ∀ m ∈ forgotten, h.total w m = 0) ∧
    ∀ (h h' : History) now' startup',
      (initStats now startup ((h.final percent).window w)).counters =
          (initStats now' startup' ((h'.final percent).window w)).counters ↔
        ∀ m ∈ forgotten, h.total w m = h'.total w m := by
  simp only [← notMem_cleared_iff, startsEmpty_iff]
  refine ⟨fun s => Window.reset_eq_zero_iff, fun h => ?_, fun h h' now' startup' => ?_⟩
  · have hrun := Window.reset_run_eq_zero_iff (h.run percent w)
    exact hrun
  · have hruns := Window.reset_run_eq_iff (h.run percent w) (h'.run percent w)
    exact hruns

/-- Memory in which only `sql_position` is not empty. -/
def dirty : ObjStats := ⟨Function.update Member.zero (.sql .position) ⟨7, 0, 0, 0, 0⟩, 0, 0, 0⟩

/-- A store is built in such memory, and passes over both windows when they are due. -/
def dirtyHistory : History where
  reportInterval := kDefaultReportInterval
  startup := ⟨dirty, dirty, .ofEpoch 1000, .ofEpoch 1000, .ofEpoch 1000, .ofEpoch 1000⟩
  events := [.tryStats (fun _ => 0)
    ⟨.ofEpoch 9000, .ofEpoch 9000, .ofEpoch 9000, .ofEpoch 9000⟩]

/-- What memory held in `sql_position` survives the constructor and the reset after it. -/
theorem sql_position_survives :
    ¬ StartsEmpty (.ofEpoch 1000) (some (.ofEpoch 1000)) dirty ∧
      ∀ w, ((dirtyHistory.final fun _ _ => 0).window w).lastReportAt = 9000 ∧
        ((dirtyHistory.final fun _ _ => 0).window w).counters (.sql .position) =
          ⟨7, 0, 0, 0, 0⟩ := by
  constructor
  · intro h
    exact absurd (h.counters (.sql .position)) (by decide)
  · intro w
    cases w <;> decide

/-! ### What is reported -/

/-- Two records are alike but for the forgotten members and the time of their creation. -/
structure Alike (s t : ObjStats) : Prop where
  /-- They agree on what is cleared. -/
  counters : ∀ m ∈ cleared, s.counters m = t.counters m
  /-- They were last reset at the same second. -/
  lastReportAt : s.lastReportAt = t.lastReportAt
  /-- They have the same report interval. -/
  reportInterval : s.reportInterval = t.reportInterval

/-- Two records are alike after a reset if they are reported in the same interval. -/
theorem alike_initStats {s t : ObjStats} (h : s.reportInterval = t.reportInterval) (now : Clock)
    (startup : Option Clock) : Alike (initStats now startup s) (initStats now startup t) where
  counters _ hm := by rw [counters_initStats _ _ _ hm, counters_initStats _ _ _ hm]
  lastReportAt := rfl
  reportInterval := h

theorem Alike.count {s t : ObjStats} (h : Alike s t) (m : Member) (f : m.Stats → m.Stats) :
    Alike (s.count m f) (t.count m f) := by
  refine ⟨fun m' hm' => ?_, h.lastReportAt, h.reportInterval⟩
  rcases eq_or_ne m' m with rfl | hne
  · simp [ObjStats.count, h.counters _ hm']
  · simp [ObjStats.count, hne, h.counters _ hm']

/-- Both windows of two stores are alike. -/
def AllAlike (s t : Store) : Prop := Alike s.stats t.stats ∧ Alike s.stompstats t.stompstats

variable {s t : Store}

theorem AllAlike.tryStompstats (h : AllAlike s t) (guard init : Clock) :
    (s.tryStompstats percent guard init).2 = (t.tryStompstats percent guard init).2 ∧
      AllAlike (s.tryStompstats percent guard init).1 (t.tryStompstats percent guard init).1 := by
  obtain ⟨hstats, hstomp⟩ := h
  rw [Store.tryStompstats, Store.tryStompstats, hstomp.lastReportAt, hstomp.reportInterval]
  split
  · exact ⟨rfl, hstats, hstomp⟩
  · exact ⟨Table.report_congr (published_cleared percent) hstomp.counters, hstats,
      alike_initStats hstomp.reportInterval init none⟩

theorem AllAlike.reportStats (h : AllAlike s t) (average : String → ℚ) (guard init : Clock) :
    (s.reportStats percent average guard init).2 = (t.reportStats percent average guard init).2 ∧
      AllAlike (s.reportStats percent average guard init).1
        (t.reportStats percent average guard init).1 := by
  obtain ⟨hstats, hstomp⟩ := h
  rw [Store.reportStats, Store.reportStats, hstats.lastReportAt, hstats.reportInterval]
  split
  · exact ⟨rfl, hstats, hstomp⟩
  · exact ⟨Table.report_congr (printed_cleared percent average) hstats.counters,
      alike_initStats hstats.reportInterval init none, hstomp⟩

/-- Stores whose windows are alike report the same and stay alike. -/
theorem AllAlike.step (h : AllAlike s t) (e : Event) :
    (s.step percent e).2 = (t.step percent e).2 ∧
      AllAlike (s.step percent e).1 (t.step percent e).1 := by
  cases e with
  | count w m f =>
    refine ⟨rfl, ?_⟩
    cases w with
    | stats => exact ⟨h.1.count m f, h.2⟩
    | stompstats => exact ⟨h.1, h.2.count m f⟩
  | tryStompstats guard init =>
    obtain ⟨hpublished, halike⟩ := h.tryStompstats guard init
    exact ⟨congrArg (Reported.mk · []) hpublished, halike⟩
  | tryStats average r =>
    obtain ⟨hpublished, halike⟩ := h.tryStompstats r.stompGuard r.stompInit
    obtain ⟨hprinted, halike'⟩ := halike.reportStats average r.guard r.init
    exact ⟨congrArg₂ Reported.mk hpublished hprinted, halike'⟩

/-- Stores whose windows are alike report the same over any events. -/
theorem AllAlike.outputs_eq (h : AllAlike s t) (es : List Event) :
    outputs (Store.step percent) s es = outputs (Store.step percent) t es :=
  outputs_eq_of_related (fun _ => True) (fun _ _ e halike _ => halike.step e) es s t h
    fun _ _ => trivial

/-- **What memory held before construction is never reported.** -/
theorem outputs_construct (percent : UInt32 → UInt32 → ℚ) (reportInterval : Int64) (m : Startup)
    (stats stompstats : ObjStats) (es : List Event) :
    outputs (step percent)
        (construct reportInterval { m with stats := stats, stompstats := stompstats }) es =
      outputs (step percent) (construct reportInterval m) es := by
  -- the interval may as well be set before the reset
  have halike : ∀ (s t : ObjStats) (i : Int64) (now created : Clock),
      Alike { initStats now (some created) s with reportInterval := i }
        { initStats now (some created) t with reportInterval := i } :=
    fun s t i now created => alike_initStats (s := { s with reportInterval := i })
      (t := { t with reportInterval := i }) rfl now (some created)
  exact AllAlike.outputs_eq ⟨halike _ _ _ _ _, halike _ _ _ _ _⟩ es

/-- **What was counted before a reset of both windows is not reported after it.** -/
theorem outputs_initStats (percent : UInt32 → UInt32 → ℚ) (now now' : Clock)
    (hstats : s.stats.reportInterval = t.stats.reportInterval)
    (hstomp : s.stompstats.reportInterval = t.stompstats.reportInterval) (es : List Event) :
    outputs (step percent) ⟨initStats now none s.stats, initStats now' none s.stompstats⟩ es =
      outputs (step percent) ⟨initStats now none t.stats, initStats now' none t.stompstats⟩ es :=
  AllAlike.outputs_eq
    ⟨alike_initStats hstats now none, alike_initStats hstomp now' none⟩ es

end Store

end AprsPruner
