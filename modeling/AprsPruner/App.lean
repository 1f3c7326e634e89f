import AprsPruner.Worker

/-!
# The application: starting and joining the workers

`App::onInitializeThreads` creates the statistics object and one thread for each
configured worker; `App::onDeinitializeThreads` joins them and deletes the object.
A worker thread builds its `Worker` from the configuration.

The return value of `pthread_create` is not looked at: whatever the call leaves in
`thread_id` goes onto the deque, and is joined later.

## Main definitions

* `App.workerThread` — the worker a thread builds from the configuration.
* `App.onInitializeThreads`, `App.onDeinitializeThreads` — the two functions.
* `App.startedIds` — the ids of the threads that were really started.
* `App.JoinSet` — exactly these are kept, and joined.

## Main results

* `App.workers_onInitializeThreads` — what every call left behind is kept.
* `App.calls_onDeinitializeThreads` — every id kept is joined once, in order.
* `App.joinSet_iff` — **the right ids are joined iff no creation fails.**
-/

namespace AprsPruner

/-! ### Configuring a worker -/

namespace Worker

/-- `Worker::maxPacketAge`. -/
def setMaxPacketAge (w : Worker) (age : Int64) : Worker := { w with maxPacketAge := age }

/-- `Worker::maxRawAge`. -/
def setMaxRawAge (w : Worker) (age : Int64) : Worker := { w with maxRawAge := age }

/-- `Worker::maxPacketLimit`. -/
def setMaxPacketLimit (w : Worker) (limit : UInt64) : Worker := { w with maxPacketLimit := limit }

/-- `Worker::maxRawLimit`. -/
def setMaxRawLimit (w : Worker) (limit : UInt64) : Worker := { w with maxRawLimit := limit }

/-- `Worker::set_console`. -/
def setConsole (w : Worker) (onoff : Bool) : Worker := { w with console := onoff }

end Worker

/-- An `int` converted to a `size_t`: a negative one wraps around. -/
def sizeOfInt (x : Int32) : UInt64 := x.toInt64.toUInt64

namespace App

/-- The arguments `App::WorkerThread` passes to the constructor.  Where the source
names no default, the string is empty. -/
def workerArgs (cfg : Config) (id : UInt32) : WorkerArgs where
  threadId := id
  stompHosts := cfg.getString "app.threads.worker.stomp.hosts" "localhost:61613"
  stompDest := cfg.getString "app.threads.worker.stomp.destination" "/queue/feeds.aprs.*"
  stompLogin := cfg.getString "app.threads.worker.stomp.login" ""
  stompPasscode := cfg.getString "app.threads.worker.stomp.passcode" ""
  dbHost := cfg.getString "app.threads.worker.sql.host" "localhost"
  dbUser := cfg.getString "app.threads.worker.sql.user" ""
  dbPass := cfg.getString "app.threads.worker.sql.pass" ""
  dbDatabase := cfg.getString "app.threads.worker.sql.database" ""

/-- The worker `App::WorkerThread` has made when it enters its loop. -/
def workerThread (cfg : Config) (id : UInt32) (console : Bool) (m : Startup) : Worker :=
  let w := Worker.construct (workerArgs cfg id) m
  let w := w.setMaxPacketAge
    (cfg.getInt "app.threads.worker.age.packet" (86400 * 10)).toInt64
  let w := w.setMaxPacketLimit (sizeOfInt (cfg.getInt "app.threads.worker.limit.packet" 2000))
  -- the raw age is read under the key of the packet age
  let w := w.setMaxRawAge (cfg.getInt "app.threads.worker.age.packet" 86400).toInt64
  let w := w.setMaxRawLimit (sizeOfInt (cfg.getInt "app.threads.worker.limit.raw" 2000))
  w.setConsole console

/-! ### Starting and joining the threads -/

/-- A `pthread_t`. -/
abbrev PthreadT := UInt64

/-- How a call of `pthread_create` goes: it starts a thread and stores its id, or
it fails and leaves an indeterminate value. -/
inductive CreateResult where
  /-- A thread is started, and its id stored. -/
  | started (id : PthreadT) : CreateResult
  /-- No thread is started; what `thread_id` holds is left as it is. -/
  | failed (junk : PthreadT) : CreateResult
  deriving DecidableEq, Repr

/-- The value of the local `thread_id` after the call. -/
def CreateResult.threadId : CreateResult → PthreadT
  | .started id => id
  | .failed junk => junk

/-- The thread the call started, if any. -/
def CreateResult.startedId : CreateResult → Option PthreadT
  | .started id => some id
  | .failed _ => none

/-- The arguments of the statistics object. -/
structure StompStatsArgs where
  /-- `source` -/
  source : String
  /-- `instance` -/
  instanceName : String
  /-- `update_interval` -/
  updateInterval : Int64
  /-- `maxqueue` -/
  maxqueue : Int32
  /-- `hosts` -/
  hosts : String
  /-- `login` -/
  login : String
  /-- `passcode` -/
  passcode : String
  /-- `dest` -/
  dest : String
  deriving DecidableEq, Repr

/-- The statistics object `App::onInitializeThreads` asks for. -/
def stompStatsArgs (cfg : Config) : StompStatsArgs where
  source := cfg.getString "app.stompstats.source" "aprspruner"
  instanceName := cfg.getString "app.stompstats.instance" "devel"
  updateInterval := (cfg.getInt "app.stompstats.interval" 300).toInt64
  maxqueue := cfg.getInt "app.stompstats.maxqueue" 100
  hosts := cfg.getString "app.stompstats.hosts" "localhost:61613"
  login := cfg.getString "app.stompstats.login" "aprspruner-stompstats"
  passcode := cfg.getString "app.stompstats.passcode" "aprspruner-stompstats"
  dest := cfg.getString "app.stompstats.destination" "/topic/stats.devel"

/-- The number of iterations of `for(int i=0; i < num_workers; i++)`. -/
def numWorkers (cfg : Config) : ℕ := (cfg.getInt "app.threads.worker" 0).toInt.toNat

/-- The iterations from `i` on, `n` of them. -/
def startWorkers (create : ℕ → CreateResult) (workers : List PthreadT) (log : List LogLine) :
    ℕ → ℕ → List PthreadT × List LogLine
  | _, 0 => (workers, log)
  | i, n + 1 =>
    let id := (create i).threadId
    startWorkers create (workers ++ [id])
      (log ++ [⟨.notice, "*** WorkerThread " ++ toString id ++ " Initialized"⟩]) (i + 1) n

/-- What `App::onInitializeThreads` sets up. -/
structure Threads where
  /-- The arguments of the statistics object. -/
  stats : StompStatsArgs
  /-- `_workers` -/
  workers : List PthreadT
  /-- What is logged. -/
  log : List LogLine

/-- `App::onInitializeThreads`.  `create i` is how the call in iteration `i` goes. -/
def onInitializeThreads (cfg : Config) (create : ℕ → CreateResult) : Threads :=
  let started := startWorkers create [] [] 0 (numWorkers cfg)
  ⟨stompStatsArgs cfg, started.1, started.2⟩

/-- The calls of `App::onDeinitializeThreads` that act on other objects. -/
inductive ShutdownCall where
  /-- `pthread_join` -/
  | join (id : PthreadT) : ShutdownCall
  /-- `_stats->stop()` -/
  | stopStats : ShutdownCall
  /-- `delete _stats` -/
  | deleteStats : ShutdownCall
  deriving DecidableEq, Repr

/-- The loop over `_workers`: its calls, what it logs and the deque it leaves. -/
def joinWorkers : List PthreadT → List ShutdownCall × List LogLine × List PthreadT
  | [] => ([], [], [])
  | id :: workers =>
    let rest := joinWorkers workers
    (.join id :: rest.1,
      ⟨.notice, "*** Waiting for WorkerThread " ++ toString id ++ " to Deinitialize"⟩ :: rest.2.1,
      rest.2.2)

/-- `App::onDeinitializeThreads`: its calls, what it logs and the deque it leaves.
It runs after `App::onInitializeThreads`, so `_stats` is set. -/
def onDeinitializeThreads (workers : List PthreadT) :
    List ShutdownCall × List LogLine × List PthreadT :=
  let joined := joinWorkers workers
  (joined.1 ++ [.stopStats, .deleteStats], joined.2)

/-! ### What is kept and what is joined -/

theorem startWorkers_fst (create : ℕ → CreateResult) : ∀ (n i : ℕ) (workers : List PthreadT)
    (log : List LogLine), (startWorkers create workers log i n).1 =
      workers ++ (List.range' i n).map fun k => (create k).threadId := by
  intro n
  induction n with
  | zero => intro i workers log; simp [startWorkers]
  | succ n ih =>
    intro i workers log
    rw [startWorkers, ih, List.range'_succ, List.map_cons, List.append_assoc, List.singleton_append]

/-- **What every call left behind is kept**, in the order of the calls. -/
theorem workers_onInitializeThreads (cfg : Config) (create : ℕ → CreateResult) :
    (onInitializeThreads cfg create).workers =
      (List.range (numWorkers cfg)).map fun i => (create i).threadId := by
  rw [onInitializeThreads, startWorkers_fst, List.nil_append, List.range_eq_range']

theorem joinWorkers_eq (workers : List PthreadT) :
    (joinWorkers workers).1 = workers.map .join ∧ (joinWorkers workers).2.2 = [] := by
  induction workers with
  | nil => exact ⟨rfl, rfl⟩
  | cons id workers ih => exact ⟨congrArg (_ :: ·) ih.1, ih.2⟩

/-- **Every id kept is joined once, in order**, before the statistics object goes. -/
theorem calls_onDeinitializeThreads (workers : List PthreadT) :
    (onDeinitializeThreads workers).1 = workers.map .join ++ [.stopStats, .deleteStats] ∧
      (onDeinitializeThreads workers).2.2 = [] := by
  obtain ⟨hcalls, hleft⟩ := joinWorkers_eq workers
  exact ⟨by rw [onDeinitializeThreads, hcalls], hleft⟩

/-- The threads joined by a list of calls. -/
def joinedIds (calls : List ShutdownCall) : List PthreadT :=
  calls.filterMap fun
    | .join id => some id
    | _ => none

theorem joinedIds_onDeinitializeThreads (workers : List PthreadT) :
    joinedIds (onDeinitializeThreads workers).1 = workers := by
  rw [(calls_onDeinitializeThreads workers).1, joinedIds, List.filterMap_append,
    List.filterMap_map]
  simp

/-! ### The join set -/

/-- The ids of the threads that were really started, in order. -/
def startedIds (cfg : Config) (create : ℕ → CreateResult) : List PthreadT :=
  (List.range (numWorkers cfg)).filterMap fun i => (create i).startedId

/-- The deque holds exactly the ids of the started threads, each once and in
order, and exactly these are joined, which leaves the deque empty. -/
def JoinSet (cfg : Config) (create : ℕ → CreateResult) : Prop :=
  let workers := (onInitializeThreads cfg create).workers
  workers = startedIds cfg create ∧ workers.Nodup ∧
    joinedIds (onDeinitializeThreads workers).1 = startedIds cfg create ∧
    (onDeinitializeThreads workers).2.2 = []

/-- A list of results yields as many ids as calls only if every call succeeded. -/
theorem map_threadId_eq_filterMap_iff (results : List CreateResult) :
    results.map CreateResult.threadId = results.filterMap CreateResult.startedId ↔
      ∀ res ∈ results, ∃ id, res = .started id := by
  induction results with
  | nil => simp
  | cons res results ih =>
    cases res with
    | started id =>
      simp only [List.map_cons, List.filterMap_cons, CreateResult.threadId,
        CreateResult.startedId, List.cons.injEq, true_and, ih, List.forall_mem_cons]
      exact ⟨fun h => ⟨⟨id, rfl⟩, h⟩, fun h => h.2⟩
    | failed junk =>
      -- one id too many on the left
      refine iff_of_false (fun h => ?_) fun h => by simpa using h _ List.mem_cons_self
      have hle := List.length_filterMap_le CreateResult.startedId results
      have hlen := congrArg List.length h
      simp only [List.map_cons, List.length_cons, List.length_map, List.filterMap_cons,
        CreateResult.startedId] at hlen
      omega

theorem workers_eq_startedIds_iff (cfg : Config) (create : ℕ → CreateResult) :
    (onInitializeThreads cfg create).workers = startedIds cfg create ↔
      ∀ i < numWorkers cfg, ∃ id, create i = .started id := by
  have h := map_threadId_eq_filterMap_iff ((List.range (numWorkers cfg)).map create)
  rw [List.map_map, List.filterMap_map] at h
  rw [workers_onInitializeThreads, startedIds]
  simpa [Function.comp_def] using h

/-- **The right ids are joined iff no creation fails.**  Threads that run at the
same time have different ids. -/
theorem joinSet_iff (cfg : Config) (create : ℕ → CreateResult)
    (hids : (startedIds cfg create).Nodup) :
    JoinSet cfg create ↔ ∀ i < numWorkers cfg, ∃ id, create i = .started id := by
  rw [← workers_eq_startedIds_iff, JoinSet, joinedIds_onDeinitializeThreads]
  constructor
  · intro h
    exact h.1
  · intro h
    exact ⟨h, h ▸ hids, h, (calls_onDeinitializeThreads _).2⟩

/-- Two workers, both started. -/
theorem two_started_joined :
    JoinSet (.ofInt "app.threads.worker" 2) fun i => .started (UInt64.ofNat (i + 7)) := by
  apply (joinSet_iff _ _ (by decide)).mpr
  intro i _
  exact ⟨_, rfl⟩

/-- Three workers, the second of which cannot be started: what its call left
behind is joined. -/
theorem junk_id_joined :
    let create : ℕ → CreateResult := fun i =>
      if i = 1 then .failed 0 else .started (UInt64.ofNat (i + 7))
    let cfg := Config.ofInt "app.threads.worker" 3
    (onDeinitializeThreads (onInitializeThreads cfg create).workers).1 =
        [.join 7, .join 0, .join 9, .stopStats, .deleteStats] ∧
      ¬ JoinSet cfg create := by
  unfold JoinSet
  decide

end App
end AprsPruner
