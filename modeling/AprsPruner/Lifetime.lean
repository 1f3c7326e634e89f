import AprsPruner.App
import AprsPruner.Lib.Run

/-!
# The lifetime of the statistics object

All workers report to one `StompStats` object, which the main thread creates before
it starts them and deletes after it has joined them.  The main thread and the
worker threads take their steps in any order.  A thread that has been started and
has not returned is on the deque, or about to be put there, until a join on its id
returns; so none is left when the object goes.

`pthread_create` may fail, and then leaves any value in `thread_id`, the id of
another thread included.  A join on the id of a thread waits until it has returned,
and a join on any other id does nothing.

## Main definitions

* `Phase`, `Thread` — a worker thread and where it is.
* `MainPc` — where the main thread is.
* `Life`, `Life.step` — both together, and their steps.
* `Life.MainMove` — what a step of the main thread can do.
* `Life.Inv` — no running thread is out of sight of the main thread.

## Main results

* `Life.Inv.step` — **every step keeps the running threads in sight.**
* `stats_outlive_workers` — the object is there whenever a worker uses it.
* `main_refines` — the main thread does what `App::onInitializeThreads` and
  `App::onDeinitializeThreads` do.
-/

namespace AprsPruner

open Transition App

/-! ### The parties -/

/-- What has become of the statistics object. -/
inductive StatsPhase where
  /-- There is none yet. -/
  | absent : StatsPhase
  /-- It has been constructed. -/
  | created : StatsPhase
  /-- It has been started. -/
  | started : StatsPhase
  /-- It has been stopped. -/
  | stopped : StatsPhase
  /-- It has been deleted. -/
  | deleted : StatsPhase
  deriving DecidableEq, Repr

/-- Where `App::WorkerThread` is. -/
inductive Phase where
  /-- `new Worker`, and its settings. -/
  | construct : Phase
  /-- `replace_stats` -/
  | replaceStats : Phase
  /-- `init` -/
  | init : Phase
  /-- `while(!a->is_done())` -/
  | testDone : Phase
  /-- `run` -/
  | run : Phase
  /-- `delete worker` -/
  | deleteWorker : Phase
  /-- The thread has returned. -/
  | returned : Phase
  deriving DecidableEq, Repr

/-- The step uses the statistics object: it describes statistics, publishes
datapoints or, in the destructor, destroys statistics. -/
def Phase.usesStats : Phase → Bool
  | .replaceStats | .init | .run | .deleteWorker => true
  | _ => false

/-- Where a worker thread is after its next step.  A pass uses the object any
number of times, `more` of them to come. -/
def Phase.next (done more : Bool) : Phase → Option Phase
  | .construct => some .replaceStats
  | .replaceStats => some .init
  | .init => some .testDone
  | .testDone => some (if done then .deleteWorker else .run)
  | .run => some (if more then .run else .testDone)
  | .deleteWorker => some .returned
  | .returned => none

/-- A thread that `pthread_create` has started. -/
structure Thread where
  /-- Its `pthread_t`. -/
  id : PthreadT
  /-- Where it is. -/
  phase : Phase
  deriving DecidableEq, Repr

/-- Where the main thread is. -/
inductive MainPc where
  /-- `new stomp::StompStats` -/
  | newStats : MainPc
  /-- `_stats->start()` -/
  | startStats : MainPc
  /-- Iteration `i` of the loop: its test, and `pthread_create`. -/
  | spawn (i : ℕ) : MainPc
  /-- `_workers.push_back(thread_id)` -/
  | pushBack (i : ℕ) (id : PthreadT) : MainPc
  /-- It waits for `done`. -/
  | waitDone : MainPc
  /-- `while(!_workers.empty())`, and `_workers.front()` -/
  | front : MainPc
  /-- `pthread_join(thread_id, NULL)` -/
  | join (id : PthreadT) : MainPc
  /-- `_workers.pop_front()` -/
  | popFront : MainPc
  /-- `_stats->stop()` -/
  | stopStats : MainPc
  /-- `delete _stats` -/
  | deleteStats : MainPc
  /-- `App::onDeinitializeThreads` has returned. -/
  | finished : MainPc
  deriving DecidableEq, Repr

/-- The main thread, the statistics object, the deque and the threads, with how
every creation went and the calls made on the way out. -/
structure Life where
  /-- Where the main thread is. -/
  main : MainPc
  /-- What has become of the statistics object. -/
  stats : StatsPhase
  /-- `is_done()` -/
  done : Bool
  /-- `_workers` -/
  workers : List PthreadT
  /-- The threads started so far. -/
  threads : List Thread
  /-- How the creations went. -/
  results : List CreateResult
  /-- The calls made on the way out. -/
  calls : List ShutdownCall
  deriving DecidableEq, Repr

/-- The main thread takes its next step, with the outcome of `pthread_create` should
it make that call; a worker thread takes its next step; or a signal sets `done`. -/
inductive LifeEvent where
  /-- The main thread takes a step. -/
  | main (create : CreateResult) : LifeEvent
  /-- The thread of index `j` takes a step. -/
  | worker (j : ℕ) (more : Bool) : LifeEvent
  /-- A signal sets `done`. -/
  | setDone : LifeEvent
  deriving DecidableEq, Repr

namespace Life

/-- Before `App::onInitializeThreads`. -/
def start : Life := ⟨.newStats, .absent, false, [], [], [], []⟩

/-- `pthread_create`.  A new thread's id is none that is in use. -/
def spawnThread (i : ℕ) (s : Life) : CreateResult → Option Life
  | .started id =>
    if ∃ th ∈ s.threads, th.id = id then none
    else some
      { s with
        threads := s.threads ++ [⟨id, .construct⟩]
        results := s.results ++ [.started id]
        main := .pushBack i id }
  | .failed junk => some
      { s with
        results := s.results ++ [.failed junk]
        main := .pushBack i junk }

/-- The next step of the main thread, with `n` workers configured.  It waits for
`done` before it goes on to `App::onDeinitializeThreads`. -/
def mainStep (n : ℕ) (create : CreateResult) (s : Life) : Option Life :=
  match s.main with
  | .newStats => some { s with stats := .created, main := .startStats }
  | .startStats => some { s with stats := .started, main := .spawn 0 }
  | .spawn i => if i < n then s.spawnThread i create else some { s with main := .waitDone }
  | .pushBack i id => some { s with workers := s.workers ++ [id], main := .spawn (i + 1) }
  | .waitDone => if s.done then some { s with main := .front } else none
  | .front =>
    match s.workers with
    | [] => some { s with main := .stopStats }
    | id :: _ => some { s with main := .join id }
  | .join id =>
    if ∀ th ∈ s.threads, th.id = id → th.phase = .returned then
      some { s with calls := s.calls ++ [.join id], main := .popFront }
    else none
  | .popFront => some { s with workers := s.workers.tail, main := .front }
  | .stopStats =>
    some { s with stats := .stopped, calls := s.calls ++ [.stopStats], main := .deleteStats }
  | .deleteStats =>
    some { s with stats := .deleted, calls := s.calls ++ [.deleteStats], main := .finished }
  | .finished => none

/-- One step of any party, if it can take one. -/
def step (n : ℕ) (s : Life) : LifeEvent → Option Life
  | .main create => s.mainStep n create
  | .worker j more =>
    match s.threads[j]? with
    | none => none
    | some th => (th.phase.next s.done more).map fun phase =>
        { s with threads := s.threads.set j { th with phase := phase } }
  | .setDone => some { s with done := true }

/-- One step as a relation. -/
def Step (n : ℕ) : Life → LifeEvent → Life → Prop := Takes (step n)

end Life

/-! ### What a step of the main thread can do -/

/-- What a step of the main thread can do, with `n` workers configured. -/
inductive Life.MainMove (n : ℕ) (s : Life) : CreateResult → Life → Prop
  /-- The statistics object is constructed. -/
  | newStats {create : CreateResult} : s.main = .newStats →
      MainMove n s create { s with stats := .created, main := .startStats }
  /-- The statistics object is started. -/
  | startStats {create : CreateResult} : s.main = .startStats →
      MainMove n s create { s with stats := .started, main := .spawn 0 }
  /-- `pthread_create` starts a thread. -/
  | started (i : ℕ) (id : PthreadT) : s.main = .spawn i → i < n →
      MainMove n s (.started id)
        { s with
          threads := s.threads ++ [⟨id, .construct⟩]
          results := s.results ++ [.started id]
          main := .pushBack i id }
  /-- `pthread_create` fails. -/
  | failed (i : ℕ) (junk : PthreadT) : s.main = .spawn i → i < n →
      MainMove n s (.failed junk)
        { s with results := s.results ++ [.failed junk], main := .pushBack i junk }
  /-- The loop of `App::onInitializeThreads` is through. -/
  | spawned {create : CreateResult} (i : ℕ) : s.main = .spawn i → ¬ i < n →
      MainMove n s create { s with main := .waitDone }
  /-- An id is put onto the deque. -/
  | pushBack {create : CreateResult} (i : ℕ) (id : PthreadT) : s.main = .pushBack i id →
      MainMove n s create { s with workers := s.workers ++ [id], main := .spawn (i + 1) }
  /-- `done` is set. -/
  | waitDone {create : CreateResult} : s.main = .waitDone → s.done →
      MainMove n s create { s with main := .front }
  /-- The loop of `App::onDeinitializeThreads` is through. -/
  | noneLeft {create : CreateResult} : s.main = .front → s.workers = [] →
      MainMove n s create { s with main := .stopStats }
  /-- There is an id to be joined. -/
  | front {create : CreateResult} {id : PthreadT} {rest : List PthreadT} : s.main = .front →
      s.workers = id :: rest → MainMove n s create { s with main := .join id }
  /-- A join returns. -/
  | join {create : CreateResult} (id : PthreadT) : s.main = .join id →
      (∀ th ∈ s.threads, th.id = id → th.phase = .returned) →
      MainMove n s create { s with calls := s.calls ++ [.join id], main := .popFront }
  /-- An id is taken from the deque. -/
  | popFront {create : CreateResult} : s.main = .popFront →
      MainMove n s create { s with workers := s.workers.tail, main := .front }
  /-- The statistics object is stopped. -/
  | stopStats {create : CreateResult} : s.main = .stopStats →
      MainMove n s create
        { s with stats := .stopped, calls := s.calls ++ [.stopStats], main := .deleteStats }
  /-- The statistics object is deleted. -/
  | deleteStats {create : CreateResult} : s.main = .deleteStats →
      MainMove n s create
        { s with stats := .deleted, calls := s.calls ++ [.deleteStats], main := .finished }

theorem Life.mainMove_of_mainStep {n : ℕ} {s s' : Life} {create : CreateResult}
    (h : s.mainStep n create = some s') : MainMove n s create s' := by
  unfold mainStep at h
  split at h
  case h_1 hm => obtain rfl := Option.some.inj h; exact .newStats hm
  case h_2 hm => obtain rfl := Option.some.inj h; exact .startStats hm
  case h_3 i hm =>
    split at h
    · next hi =>
      cases create with
      | started id =>
        simp only [spawnThread] at h
        split at h
        · exact absurd h (by simp)
        · obtain rfl := Option.some.inj h; exact .started i id hm hi
      | failed junk => obtain rfl := Option.some.inj h; exact .failed i junk hm hi
    · next hi => obtain rfl := Option.some.inj h; exact .spawned i hm hi
  case h_4 i id hm => obtain rfl := Option.some.inj h; exact .pushBack i id hm
  case h_5 hm =>
    split at h
    · next hdone => obtain rfl := Option.some.inj h; exact .waitDone hm hdone
    · exact absurd h (by simp)
  case h_6 hm =>
    split at h
    · next hworkers => obtain rfl := Option.some.inj h; exact .noneLeft hm hworkers
    · next id rest hworkers => obtain rfl := Option.some.inj h; exact .front hm hworkers
  case h_7 id hm =>
    split at h
    · next hret => obtain rfl := Option.some.inj h; exact .join id hm hret
    · exact absurd h (by simp)
  case h_8 hm => obtain rfl := Option.some.inj h; exact .popFront hm
  case h_9 hm => obtain rfl := Option.some.inj h; exact .stopStats hm
  case h_10 hm => obtain rfl := Option.some.inj h; exact .deleteStats hm
  case h_11 => exact absurd h (by simp)

/-! ### The invariant -/

/-- What has become of the statistics object when the main thread is there. -/
def MainPc.statsPhase : MainPc → StatsPhase
  | .newStats => .absent
  | .startStats => .created
  | .deleteStats => .stopped
  | .finished => .deleted
  | _ => .started

/-- The main thread has started no thread yet. -/
def MainPc.beforeThreads : MainPc → Bool
  | .newStats | .startStats => true
  | _ => false

/-- The main thread is past the loop that joins the workers. -/
def MainPc.pastJoins : MainPc → Bool
  | .stopStats | .deleteStats | .finished => true
  | _ => false

/-- The main thread has started the object and is not about to join a thread. -/
def MainPc.betweenJoins : MainPc → Bool
  | .spawn _ | .pushBack _ _ | .waitDone | .front => true
  | _ => false

/-- The id the main thread is about to put onto the deque. -/
def MainPc.holds : MainPc → Option PthreadT
  | .pushBack _ id => some id
  | _ => none

namespace Life

/-- The main thread is where the object says, and no running thread is out of its
sight. -/
structure Inv (s : Life) : Prop where
  /-- The statistics object is as the main thread has left it. -/
  stats : s.stats = s.main.statsPhase
  /-- No thread is started before the loop. -/
  early : s.main.beforeThreads → s.threads = []
  /-- A thread has returned, is on the deque or is about to be. -/
  tracked : ∀ th ∈ s.threads, th.phase = .returned ∨ th.id ∈ s.workers ∨
    s.main.holds = some th.id
  /-- The id to be joined is the first on the deque. -/
  front : ∀ id, s.main = .join id → s.workers.head? = some id
  /-- The threads of an id that was joined have returned. -/
  joined : s.main = .popFront → ∀ th ∈ s.threads, s.workers.head? = some th.id →
    th.phase = .returned
  /-- Past the loop the deque is empty. -/
  empty : s.main.pastJoins → s.workers = []

theorem inv_start : Inv start := by
  constructor <;> simp [start, MainPc.statsPhase, MainPc.pastJoins]

variable {n : ℕ} {s s' : Life}

/-- Between the joins, the invariant is that no running thread is out of sight. -/
theorem Inv.of_tracked (hmain : s.main.betweenJoins) (hstats : s.stats = .started)
    (htracked : ∀ th ∈ s.threads, th.phase = .returned ∨ th.id ∈ s.workers ∨
      s.main.holds = some th.id) : Inv s := by
  constructor <;> cases hm : s.main <;>
    simp_all [MainPc.betweenJoins, MainPc.statsPhase, MainPc.beforeThreads, MainPc.pastJoins]

/-- **A thread that still runs keeps the object alive.** -/
theorem Inv.started_of_running (h : Inv s) {th : Thread} (hth : th ∈ s.threads)
    (hrun : th.phase ≠ .returned) : s.stats = .started ∧ ¬ s.main.pastJoins := by
  have hearly : ¬ s.main.beforeThreads := fun he => by
    rw [h.early he] at hth
    exact absurd hth List.not_mem_nil
  have hpast : ¬ s.main.pastJoins := fun hp => by
    rcases h.tracked th hth with hret | hdeque | hheld
    · exact hrun hret
    · rw [h.empty hp] at hdeque
      exact absurd hdeque List.not_mem_nil
    · cases hm : s.main <;> simp_all [MainPc.pastJoins, MainPc.holds]
  refine ⟨?_, hpast⟩
  rw [h.stats]
  cases hm : s.main <;> simp_all [MainPc.statsPhase, MainPc.beforeThreads, MainPc.pastJoins]

/-- A step of a worker thread: it was running, and its id stays. -/
theorem Inv.worker_step (h : Inv s) {j : ℕ} {more : Bool}
    (hs : s.step n (.worker j more) = some s') : Inv s' := by
  rw [step] at hs
  split at hs
  · exact absurd hs (by simp)
  · next th hth =>
    obtain ⟨phase, hnext, rfl⟩ := Option.map_eq_some_iff.mp hs
    have hmem : th ∈ s.threads := List.mem_of_getElem? hth
    have hrun : th.phase ≠ .returned := fun hret => by simp [hret, Phase.next] at hnext
    refine ⟨h.stats, fun he => ?_, ?_, h.front, ?_, h.empty⟩
    · have hnil := h.early he
      rw [hnil] at hmem
      exact absurd hmem List.not_mem_nil
    · intro th' hth'
      rcases List.mem_or_eq_of_mem_set hth' with hold | rfl
      · exact h.tracked th' hold
      · exact Or.inr ((h.tracked th hmem).resolve_left hrun)
    · intro hpop th' hth' hhead
      rcases List.mem_or_eq_of_mem_set hth' with hold | rfl
      · exact h.joined hpop th' hold hhead
      · exact absurd (h.joined hpop th hmem hhead) hrun

/-- A step of the main thread. -/
theorem Inv.main_move (h : Inv s) {create : CreateResult} (hmove : MainMove n s create s') :
    Inv s' := by
  obtain ⟨main, stats, done, workers, threads, results, calls⟩ := s
  have htracked := h.tracked
  cases hmove with
  | newStats hm =>
    obtain rfl : main = _ := hm
    exact ⟨rfl, fun _ => h.early rfl, htracked, by simp, by simp, by simp [MainPc.pastJoins]⟩
  | startStats hm =>
    obtain rfl : main = _ := hm
    exact .of_tracked rfl rfl htracked
  | started i id hm =>
    obtain rfl : main = _ := hm
    refine .of_tracked rfl h.stats fun th hth => ?_
    rcases List.mem_append.mp hth with hold | hnew
    · exact (htracked th hold).imp_right fun hseen => Or.inl (hseen.resolve_right nofun)
    · obtain rfl := List.mem_singleton.mp hnew
      exact Or.inr (Or.inr rfl)
  | failed i junk hm =>
    obtain rfl : main = _ := hm
    exact .of_tracked rfl h.stats fun th hth =>
      (htracked th hth).imp_right fun hseen => Or.inl (hseen.resolve_right nofun)
  | spawned i hm =>
    obtain rfl : main = _ := hm
    exact .of_tracked rfl h.stats htracked
  | pushBack i id hm =>
    obtain rfl : main = _ := hm
    refine .of_tracked rfl h.stats fun th hth => ?_
    -- the thread that was about to be put onto the deque is there now
    rcases htracked th hth with hret | hdeque | hheld
    · exact Or.inl hret
    · exact Or.inr (Or.inl (List.mem_append_left _ hdeque))
    · obtain rfl : id = th.id := Option.some.inj hheld
      exact Or.inr (Or.inl (List.mem_append_right _ (List.mem_singleton_self _)))
  | waitDone hm =>
    obtain rfl : main = _ := hm
    exact .of_tracked rfl h.stats htracked
  | noneLeft hm hworkers =>
    obtain rfl : main = _ := hm
    exact ⟨h.stats, by simp [MainPc.beforeThreads], htracked, by simp, by simp, fun _ => hworkers⟩
  | front hm hworkers =>
    obtain rfl : main = _ := hm
    refine ⟨h.stats, by simp [MainPc.beforeThreads], htracked, fun id hid => ?_, by simp,
      by simp [MainPc.pastJoins]⟩
    rw [← MainPc.join.inj hid]
    exact List.head?_eq_some_iff.mpr ⟨_, hworkers⟩
  | join id hm hret =>
    obtain rfl : main = _ := hm
    refine ⟨h.stats, by simp [MainPc.beforeThreads], htracked, by simp, fun _ th hth hhead => ?_,
      by simp [MainPc.pastJoins]⟩
    -- the join has returned, so have all threads of that id
    have hid : some id = some th.id := (h.front id rfl).symm.trans hhead
    exact hret th hth (Option.some.inj hid).symm
  | popFront hm =>
    obtain rfl : main = _ := hm
    refine .of_tracked rfl h.stats fun th hth => ?_
    rcases htracked th hth with hret | hdeque | hheld
    · exact Or.inl hret
    · cases workers with
      | nil => exact absurd hdeque List.not_mem_nil
      | cons id workers =>
        rcases List.mem_cons.mp hdeque with hid | hdeque
        · exact Or.inl (h.joined rfl th hth (congrArg some hid).symm)
        · exact Or.inr (Or.inl hdeque)
    · simp [MainPc.holds] at hheld
  | stopStats hm | deleteStats hm =>
    obtain rfl : main = _ := hm
    exact ⟨rfl, by simp [MainPc.beforeThreads], htracked, by simp, by simp, fun _ => h.empty rfl⟩

/-- **Every step keeps the running threads in sight.** -/
theorem Inv.step {e : LifeEvent} (h : Inv s) (hs : s.step n e = some s') : Inv s' := by
  cases e with
  | main create => exact h.main_move (mainMove_of_mainStep hs)
  | worker j more => exact h.worker_step hs
  | setDone =>
    obtain rfl := Option.some.inj hs
    exact ⟨h.stats, h.early, h.tracked, h.front, h.joined, h.empty⟩

theorem inv_of_run {es : List LifeEvent} (h : Run (Step n) start es s) : Inv s :=
  h.invariant (fun _ _ _ hinv hs => hinv.step hs) inv_start

/-! ### The main thread alone -/

/-- How far the main thread has come: the ids left by the creations are on the
deque, the first of them joined. -/
def Progress (n : ℕ) (s : Life) : Prop :=
  let ids := s.results.map CreateResult.threadId
  match s.main with
  | .newStats | .startStats => s.results = [] ∧ s.workers = [] ∧ s.calls = []
  | .spawn i => s.results.length = i ∧ i ≤ n ∧ s.workers = ids ∧ s.calls = []
  | .pushBack i id => s.results.length = i + 1 ∧ i + 1 ≤ n ∧ s.workers ++ [id] = ids ∧ s.calls = []
  | .waitDone => s.results.length = n ∧ s.workers = ids ∧ s.calls = []
  | .front | .join _ =>
    s.results.length = n ∧ ∃ joined, ids = joined ++ s.workers ∧ s.calls = joined.map .join
  | .popFront =>
    s.results.length = n ∧ ∃ joined, ids = joined ++ s.workers.tail ∧ s.calls = joined.map .join
  | .stopStats => s.results.length = n ∧ s.calls = ids.map .join
  | .deleteStats => s.results.length = n ∧ s.calls = ids.map .join ++ [.stopStats]
  | .finished => s.results.length = n ∧ s.calls = ids.map .join ++ [.stopStats, .deleteStats]

theorem Progress.main_move (hinv : Inv s) (h : Progress n s) {create : CreateResult}
    (hmove : MainMove n s create s') : Progress n s' := by
  obtain ⟨main, stats, done, workers, threads, results, calls⟩ := s
  cases hmove with
  | newStats hm =>
    obtain rfl : main = _ := hm
    exact h
  | startStats hm =>
    obtain rfl : main = _ := hm
    obtain ⟨hresults, hworkers, hcalls⟩ := h
    simp only at hresults hworkers hcalls
    subst hresults hworkers hcalls
    exact ⟨rfl, Nat.zero_le n, rfl, rfl⟩
  | started i id hm hlt | failed i id hm hlt =>
    -- whatever the outcome, its id is about to be put onto the deque
    obtain rfl : main = _ := hm
    obtain ⟨hlen, -, hworkers, hcalls⟩ := h
    simp only at hlen hworkers hcalls
    simp [Progress, hlen, hworkers, hcalls, Nat.succ_le_of_lt hlt, CreateResult.threadId]
  | spawned i hm hge =>
    obtain rfl : main = _ := hm
    obtain ⟨hlen, hle, hworkers, hcalls⟩ := h
    exact ⟨hlen.trans (Nat.le_antisymm hle (not_lt.mp hge)), hworkers, hcalls⟩
  | pushBack i id hm =>
    obtain rfl : main = _ := hm
    exact h
  | waitDone hm =>
    obtain rfl : main = _ := hm
    obtain ⟨hlen, hworkers, hcalls⟩ := h
    exact ⟨hlen, [], hworkers.symm, hcalls⟩
  | noneLeft hm hworkers =>
    obtain rfl : main = _ := hm
    obtain ⟨hlen, joined, hids, hcalls⟩ := h
    obtain rfl : workers = [] := hworkers
    rw [List.append_nil] at hids
    exact ⟨hlen, by rw [hids]; exact hcalls⟩
  | front hm =>
    obtain rfl : main = _ := hm
    exact h
  | join id hm =>
    obtain rfl : main = _ := hm
    obtain ⟨hlen, joined, hids, hcalls⟩ := h
    simp only at hids hcalls
    -- the id joined is the first on the deque
    obtain ⟨rest, rfl⟩ : ∃ rest, workers = id :: rest :=
      List.head?_eq_some_iff.mp (hinv.front id rfl)
    refine ⟨hlen, joined ++ [id], ?_, ?_⟩
    · simpa using hids
    · simp [hcalls]
  | popFront hm =>
    obtain rfl : main = _ := hm
    exact h
  | stopStats hm =>
    obtain rfl : main = _ := hm
    exact ⟨h.1, congrArg (· ++ [ShutdownCall.stopStats]) h.2⟩
  | deleteStats hm =>
    obtain rfl : main = _ := hm
    obtain ⟨hlen, hcalls⟩ := h
    simp only at hcalls
    exact ⟨hlen, by simp [hcalls]⟩

theorem Progress.step {e : LifeEvent} (hinv : Inv s) (h : Progress n s)
    (hs : s.step n e = some s') : Progress n s' := by
  cases e with
  | main create => exact h.main_move hinv (mainMove_of_mainStep hs)
  | worker j more =>
    rw [Life.step] at hs
    split at hs
    · exact absurd hs (by simp)
    · obtain ⟨phase, -, rfl⟩ := Option.map_eq_some_iff.mp hs
      exact h
  | setDone => obtain rfl := Option.some.inj hs; exact h

theorem progress_of_run {es : List LifeEvent} (h : Run (Step n) start es s) : Progress n s := by
  have hboth : Inv s ∧ Progress n s := by
    refine h.invariant (P := fun s => Inv s ∧ Progress n s) ?_ ⟨inv_start, rfl, rfl, rfl⟩
    rintro s e s' ⟨hinv, hprogress⟩ hs
    exact ⟨hinv.step hs, hprogress.step hinv hs⟩
  exact hboth.2

/-- How the creation in iteration `i` went. -/
def created (s : Life) (i : ℕ) : CreateResult := s.results.getD i (.failed 0)

theorem workers_created (cfg : Config) (hlen : s.results.length = numWorkers cfg) :
    (onInitializeThreads cfg s.created).workers = s.results.map CreateResult.threadId := by
  rw [workers_onInitializeThreads, ← hlen]
  refine List.ext_getElem (by simp) fun i h₁ h₂ => ?_
  have hi : i < s.results.length := by simpa using h₁
  simp [created, hi]

end Life

/-- **The main thread does what `App::onInitializeThreads` and
`App::onDeinitializeThreads` do**, whatever the workers do meanwhile. -/
theorem main_refines (cfg : Config) {es : List LifeEvent} {s : Life}
    (h : Run (Life.Step (numWorkers cfg)) .start es s) :
    (s.main = .waitDone → s.workers = (onInitializeThreads cfg s.created).workers) ∧
      (s.main = .finished →
        s.calls = (onDeinitializeThreads (onInitializeThreads cfg s.created).workers).1) := by
  have hprogress := Life.progress_of_run h
  refine ⟨fun hm => ?_, fun hm => ?_⟩
  · rw [Life.Progress, hm] at hprogress
    obtain ⟨hlen, hworkers, -⟩ := hprogress
    rw [hworkers, Life.workers_created cfg hlen]
  · rw [Life.Progress, hm] at hprogress
    obtain ⟨hlen, hcalls⟩ := hprogress
    rw [hcalls, Life.workers_created cfg hlen, (calls_onDeinitializeThreads _).1]

/-- **The statistics object is there whenever a worker uses it.**  For every number
of workers, every outcome of every `pthread_create` and every order of steps: a
worker thread whose next step uses the object finds it started, and once the main
thread is past the loop that joins the workers, every thread that was started has
deleted its worker and returned. -/
theorem stats_outlive_workers (cfg : Config) (es : List LifeEvent) (s : Life)
    (h : Run (Life.Step (numWorkers cfg)) .start es s) :
    (∀ th ∈ s.threads, th.phase.usesStats → s.stats = .started) ∧
      (s.main.pastJoins → ∀ th ∈ s.threads, th.phase = .returned) := by
  have hinv := Life.inv_of_run h
  refine ⟨fun th hth huses => ?_, fun hpast th hth => ?_⟩
  · refine (hinv.started_of_running hth fun hret => ?_).1
    rw [hret] at huses
    exact absurd huses (by decide)
  · by_contra hrun
    exact (hinv.started_of_running hth hrun).2 hpast

/-- Two workers, the second of which cannot be started and leaves the id of the
first: the main thread joins it twice, and the object goes after it has returned. -/
theorem joined_twice_returns :
    let ok : LifeEvent := .main (.started 7)
    let work : LifeEvent := .worker 0 false
    let es := [ok, ok, ok, ok, work, .main (.failed 7), work, ok, ok, work, .setDone, work, ok, ok,
      work, ok, ok, ok, ok, ok, ok, ok, ok]
    ∃ s, steps (Life.step 2) .start es = some s ∧ s.main = .finished ∧ s.threads.length = 1 ∧
      s.calls = [.join 7, .join 7, .stopStats, .deleteStats] ∧
      ∀ th ∈ s.threads, th.phase = .returned := by
  intro ok work es
  have hend : ∃ s, steps (Life.step 2) .start es = some s ∧ s.main = .finished ∧
      s.threads.length = 1 ∧ s.calls = [.join 7, .join 7, .stopStats, .deleteStats] := by
    refine ⟨⟨.finished, .deleted, true, [], [⟨7, .returned⟩], [.started 7, .failed 7],
      [.join 7, .join 7, .stopStats, .deleteStats]⟩, ?_⟩
    decide
  obtain ⟨s, hs, hmain, hlen, hcalls⟩ := hend
  have hrun : Run (Life.Step (numWorkers (.ofInt "app.threads.worker" 2))) .start es s :=
    run_of_steps (by rw [show numWorkers (.ofInt "app.threads.worker" 2) = 2 by decide]; exact hs)
  exact ⟨s, hs, hmain, hlen, hcalls, (stats_outlive_workers _ es s hrun).2 (by rw [hmain]; rfl)⟩

/-- One worker that cannot be started: the main thread joins the id it was left with. -/
theorem unstarted_joined :
    let cfg : Config := .ofInt "app.threads.worker" 1
    let step : LifeEvent := .main (.failed 7)
    ∃ s, Run (Life.Step (numWorkers cfg)) .start
        [step, step, step, step, step, .setDone, step, step, step, step, step, step, step] s ∧
      s.main = .finished ∧
      s.calls = (onDeinitializeThreads (onInitializeThreads cfg s.created).workers).1 := by
  intro cfg step
  have hend : ∃ s, steps (Life.step (numWorkers cfg)) .start
      [step, step, step, step, step, .setDone, step, step, step, step, step, step, step] =
        some s ∧ s.main = .finished := by
    refine ⟨⟨.finished, .deleted, true, [], [], [.failed 7], [.join 7, .stopStats, .deleteStats]⟩,
      ?_⟩
    decide
  obtain ⟨s, hs, hmain⟩ := hend
  have hrun := run_of_steps hs
  exact ⟨s, hrun, hmain, (main_refines cfg hrun).2 hmain⟩

end AprsPruner
