import AprsPruner.Bounds
import AprsPruner.Conservation
import AprsPruner.Lifetime
import AprsPruner.Retention

/-!
# The daemon

The main thread, the worker threads it starts, the tables, the clock, the other
clients and the signals, all together and in any order.  A worker thread runs its
`Worker`, built from the configuration, one pass after the other until it finds
`done` set; only the handler of `SIGINT` sets it.

A thread is known by the iteration of `App::onInitializeThreads` that started it,
whose number the `ThreadMessage` carries.  What the constructor of each worker will
find is given at the start, and is read when the thread gets there.

## Main definitions

* `Signal`, `App.rcvSignal` — the signals, and their handlers.
* `Daemon`, `DaemonEvent`, `Daemon.step` — all parties together.
* `Daemon.Move` — what one step can do.
* `Daemon.Inv` — a worker is in the middle of a pass only while its thread runs it.

## Main results

* `Daemon.move_of_step` — what one step of the daemon can do.
* `Daemon.shows_life`, `Daemon.shows_system` — **the daemon's runs are runs of its
  threads and of its workers.**
* `retained_by_settings` — what the configured ages and limits promise.
-/

namespace AprsPruner

open BatchPrune Transition App

/-! ### Signals -/

/-- The signals the application handles. -/
inductive Signal where
  /-- `SIGHUP` -/
  | sighup : Signal
  /-- `SIGUSR1` -/
  | sigusr1 : Signal
  /-- `SIGUSR2` -/
  | sigusr2 : Signal
  /-- `SIGINT` -/
  | sigint : Signal
  /-- `SIGPIPE` -/
  | sigpipe : Signal
  deriving DecidableEq, Repr

/-- The handlers `App::rcvSighup` to `App::rcvSigpipe`: what becomes of `done`, and
what is logged.  The handler of `SIGHUP` also reopens the log. -/
def App.rcvSignal (done : Bool) : Signal → Bool × LogLine
  | .sighup => (done, ⟨.notice, "### SIGHUP Received"⟩)
  | .sigusr1 => (done, ⟨.notice, "### SIGHUS1 Received"⟩)
  | .sigusr2 => (done, ⟨.notice, "### SIGUSR2 Received"⟩)
  | .sigint => (true, ⟨.notice, "### SIGINT Received"⟩)
  | .sigpipe => (done, ⟨.notice, "### SIGPIPE Received"⟩)

/-! ### What a step of the workers removes -/

theorem Pc.deletes_eq_some_iff {pc : Pc} {t : Table} : pc.deletes = some t ↔ pc = .delete t := by
  cases pc <;> simp [Pc.deletes]

section

variable {n : ℕ} {s : System n}

theorem System.db_subset_insert (s : System n) (t u : Table) (r : Row) :
    s.db t ⊆ (s.step (.insert u r)).db t := by
  rw [System.step]
  split
  · exact Finset.Subset.refl _
  · rcases eq_or_ne t u with rfl | hne
    · simp only [System.addRow, Function.update_self]
      exact Finset.subset_insert _ _
    · simp only [System.addRow, Function.update_of_ne hne]
      exact Finset.Subset.refl _

/-- A worker that is not at its `DELETE` from the table leaves it as it was. -/
theorem System.db_work_of_ne {k : Fin n} {i : Input} {t : Table}
    (h : (s.procs k).pc.deletes ≠ some t) : (s.step (.work k i)).db t = s.db t := by
  show ((s.procs k).step i s.now s.db).2 t = s.db t
  cases hpc : (s.procs k).pc.deletes with
  | none => rw [Proc.step_of_not_delete hpc]
  | some u =>
    rw [Proc.step_of_delete hpc]
    exact DBI.tables_deleteBefore_of_ne fun heq => h (by rw [hpc, heq])

theorem System.procs_insert (s : System n) (t : Table) (r : Row) :
    (s.step (.insert t r)).procs = s.procs :=
  System.procs_step_of_not_work fun k i => by simp

theorem System.gone_step (s : System n) (e : Event n) (t : Table) :
    ((s.step e).ever t \ (s.step e).db t).card =
      (s.ever t \ s.db t).card + (s.db t \ (s.step e).db t).card := System.card_gone_step s e t

/-- **What a step removes**: nothing, or what a worker at its `DELETE` may remove. -/
theorem System.removed_step (s : System n) (e : Event n) (t : Table) :
    s.db t \ (s.step e).db t = ∅ ∨ ∃ k i, e = .work k i ∧ (s.procs k).pc = .delete t ∧
      (s.db t \ (s.step e).db t).card ≤ ((s.procs k).worker.maxLimit t).toNat := by
  have hstep := System.stock_step s e t
  have hdb : (s.step e).db t = ((s.step e).stock t).live := rfl
  rw [hdb]
  generalize (s.step e).stock t = after at hstep
  cases hstep with
  | same => exact Or.inl (Finset.sdiff_self _)
  | insert r _ => exact Or.inl (Finset.sdiff_eq_empty_iff_subset.mpr Finset.subset_union_left)
  | delete k i R hpc hR =>
    have hback : s.db t \ ((s.stock t).remove R).live = R :=
      Finset.sdiff_sdiff_eq_self hR.subset_live
    rw [hback]
    exact Or.inr ⟨k, i, rfl, Pc.deletes_eq_some_iff.mp hpc, hR.card_le_limit⟩

/-- A step removes at most the largest limit any worker has for the table. -/
theorem Policy.card_removed_le {workers : Fin n → Worker} (h : Policy workers s) (e : Event n)
    (t : Table) {m : ℕ} (hm : ∀ k, ((workers k).maxLimit t).toNat ≤ m) :
    (s.db t \ (s.step e).db t).card ≤ m := by
  rcases System.removed_step s e t with hnone | ⟨k, i, -, -, hcard⟩
  · rw [hnone, Finset.card_empty]
    exact Nat.zero_le m
  · rw [h.maxLimit k] at hcard
    exact hcard.trans (hm k)

end

/-! ### All parties together -/

/-- The worker is between two statements of a pass. -/
def Proc.midPass (p : Proc) : Bool := p.pc ≠ .tryStompstats

/-- The iterations of `App::onInitializeThreads` that have called `pthread_create`. -/
def MainPc.iteration (n : ℕ) : MainPc → ℕ
  | .newStats | .startStats => 0
  | .spawn i => i
  | .pushBack i _ => i + 1
  | _ => n

/-- The main thread with the threads it has started, the iterations that started
them, the workers over their tables, and what the signal handlers have logged. -/
structure Daemon (n : ℕ) where
  /-- The main thread and the threads it has started. -/
  life : Life
  /-- The iterations that started the threads. -/
  slots : List (Fin n)
  /-- The workers over their tables. -/
  sys : System n
  /-- What the signal handlers have logged. -/
  log : List LogLine

/-- What happens next: the main thread or a worker thread takes a step, a signal is
handled, the clock shows another time or a client inserts a row. -/
inductive DaemonEvent where
  /-- The main thread takes a step; `create` is how `pthread_create` goes, if that is it. -/
  | main (create : CreateResult) : DaemonEvent
  /-- The thread of index `j` takes a step. -/
  | worker (j : ℕ) (i : Input) : DaemonEvent
  /-- A signal is handled. -/
  | signal (sig : Signal) : DaemonEvent
  /-- The clock shows another time. -/
  | tick (c : Clock) : DaemonEvent
  /-- A client inserts a row. -/
  | insert (t : Table) (r : Row) : DaemonEvent

namespace Daemon

/-- Before `App::onInitializeThreads`, under a configuration. -/
def start (cfg : Config) (console : Bool) (boot : Fin (numWorkers cfg) → Startup) (now : Clock)
    (db : Tables) : Daemon (numWorkers cfg) where
  life := .start
  slots := []
  sys := .start now db fun k => workerThread cfg (UInt32.ofNat (k + 1)) console (boot k)
  log := []

variable {n : ℕ}

/-- The iteration of a thread that `pthread_create` is about to start. -/
def newSlots (d : Daemon n) (create : CreateResult) : List (Fin n) :=
  match d.life.main, create with
  | .spawn i, .started _ => if h : i < n then [⟨i, h⟩] else []
  | _, _ => []

/-- One step of any party, if it can take one.  A thread in the phase `run` takes
the next step of its worker, and is through with `Worker::run` at the end of the
pass. -/
def step (d : Daemon n) : DaemonEvent → Option (Daemon n)
  | .main create => (d.life.step n (.main create)).map fun life =>
      { d with life := life, slots := d.slots ++ d.newSlots create }
  | .worker j i =>
    match d.life.threads[j]?, d.slots[j]? with
    | some th, some k =>
      let sys := if th.phase = .run then d.sys.step (.work k i) else d.sys
      (d.life.step n (.worker j (sys.procs k).midPass)).map fun life =>
        { d with life := life, sys := sys }
    | _, _ => none
  | .signal sig =>
    let res := rcvSignal d.life.done sig
    some { d with life := { d.life with done := res.1 }, log := d.log ++ [res.2] }
  | .tick c => some { d with sys := d.sys.step (.tick c) }
  | .insert t r => some { d with sys := d.sys.step (.insert t r) }

/-- One step as a relation; the clock does not go back. -/
def Step (d : Daemon n) (e : DaemonEvent) (d' : Daemon n) : Prop :=
  d.step e = some d' ∧ ∀ c, e = .tick c → d.sys.now.secs ≤ c.secs

/-! ### What one step can do -/

/-- The thread of index `j` in another phase. -/
def setPhase (d : Daemon n) (j : ℕ) (th : Thread) (phase : Phase) : Life :=
  { d.life with threads := d.life.threads.set j { th with phase := phase } }

/-- The worker `k` after its next step. -/
def stepped (d : Daemon n) (k : Fin n) (i : Input) : Proc :=
  ((d.sys.procs k).step i d.sys.now d.sys.db).1

/-- What one step of the daemon can do. -/
inductive Move (d : Daemon n) : DaemonEvent → Daemon n → Prop
  /-- The main thread takes a step. -/
  | main (create : CreateResult) (life : Life) : d.life.mainStep n create = some life →
      Move d (.main create) { d with life := life, slots := d.slots ++ d.newSlots create }
  /-- A thread takes the next step of its worker's pass. -/
  | pass (j : ℕ) (i : Input) (th : Thread) (k : Fin n) : d.life.threads[j]? = some th →
      d.slots[j]? = some k → th.phase = .run →
      Move d (.worker j i)
        { d with
          life := d.setPhase j th (if (d.stepped k i).midPass then .run else .testDone)
          sys := d.sys.step (.work k i) }
  /-- A thread takes a step outside a pass. -/
  | thread (j : ℕ) (i : Input) (th : Thread) (phase : Phase) : d.life.threads[j]? = some th →
      th.phase ≠ .run → th.phase.next d.life.done false = some phase →
      Move d (.worker j i) { d with life := d.setPhase j th phase }
  /-- A signal is handled. -/
  | signal (sig : Signal) (log : List LogLine) :
      Move d (.signal sig)
        { d with life := { d.life with done := d.life.done || sig = .sigint }, log := log }
  /-- The clock shows another time. -/
  | tick (c : Clock) : Move d (.tick c) { d with sys := d.sys.step (.tick c) }
  /-- A client inserts a row. -/
  | insert (t : Table) (r : Row) :
      Move d (.insert t r) { d with sys := d.sys.step (.insert t r) }

/-- **Only the handler of `SIGINT` sets `done`**, and none clears it. -/
theorem fst_rcvSignal (done : Bool) (sig : Signal) :
    (rcvSignal done sig).1 = (done || sig = .sigint) := by
  cases sig <;> simp [rcvSignal]

/-- What `more` says matters only in the phase `run`. -/
theorem next_of_ne_run {phase : Phase} (h : phase ≠ .run) (done more : Bool) :
    phase.next done more = phase.next done false := by
  cases phase <;> first | rfl | exact absurd rfl h

theorem next_of_run {phase : Phase} (h : phase = .run) (done more : Bool) :
    phase.next done more = some (if more then .run else .testDone) := by
  rw [h, Phase.next]

variable {d d' : Daemon n} {e : DaemonEvent}

theorem move_of_step (h : d.step e = some d') : Move d e d' := by
  cases e with
  | main create =>
    obtain ⟨life, hlife, rfl⟩ := Option.map_eq_some_iff.mp h
    exact .main create life hlife
  | worker j i =>
    simp only [step] at h
    split at h
    · next th k hth hk =>
      obtain ⟨life, hlife, rfl⟩ := Option.map_eq_some_iff.mp h
      simp only [Life.step, hth] at hlife
      obtain ⟨phase, hphase, rfl⟩ := Option.map_eq_some_iff.mp hlife
      by_cases hrun : th.phase = .run
      · rw [hrun, if_pos rfl, Phase.next, System.procs_work_self] at hphase
        obtain rfl := Option.some.inj hphase
        simp only [hrun, if_true]
        exact .pass j i th k hth hk hrun
      · rw [next_of_ne_run hrun] at hphase
        simp only [hrun, if_false]
        exact .thread j i th phase hth hrun hphase
    · exact absurd h (by simp)
  | signal sig =>
    simp only [step, fst_rcvSignal] at h
    obtain rfl := Option.some.inj h
    exact .signal sig _
  | tick c => obtain rfl := Option.some.inj h; exact .tick c
  | insert t r => obtain rfl := Option.some.inj h; exact .insert t r

/-- The threads after a step of the main thread: those before, or one more in the
iteration that started it. -/
theorem threads_mainStep {create : CreateResult} {life : Life}
    (h : d.life.mainStep n create = some life) :
    life.done = d.life.done ∧
      (life.threads = d.life.threads ∧ d.newSlots create = [] ∨
        ∃ i id, ∃ hi : i < n, d.life.main = .spawn i ∧ life.main = .pushBack i id ∧
          life.threads = d.life.threads ++ [⟨id, .construct⟩] ∧
          d.newSlots create = [⟨i, hi⟩]) := by
  have hmove := Life.mainMove_of_mainStep h
  unfold newSlots
  cases hmove with
  | started i id hm hi =>
    refine ⟨rfl, Or.inr ⟨i, id, hi, hm, rfl, rfl, ?_⟩⟩
    rw [hm]
    exact dif_pos hi
  | failed i junk hm => exact ⟨rfl, Or.inl ⟨rfl, by rw [hm]⟩⟩
  | spawned i hm hi =>
    refine ⟨rfl, Or.inl ⟨rfl, ?_⟩⟩
    rw [hm]
    cases create with
    | started id => exact dif_neg hi
    | failed junk => rfl
  | newStats hm | startStats hm | pushBack i id hm | waitDone hm | noneLeft hm | front hm
  | join id hm | popFront hm | stopStats hm | deleteStats hm =>
    exact ⟨rfl, Or.inl ⟨rfl, by rw [hm]⟩⟩

/-- A step of a worker thread, as the threads see it. -/
theorem step_setPhase {j : ℕ} {th : Thread} {phase : Phase} {more : Bool}
    (hth : d.life.threads[j]? = some th) (hnext : th.phase.next d.life.done more = some phase) :
    d.life.step n (.worker j more) = some (d.setPhase j th phase) := by
  simp only [Life.step, hth, hnext, Option.map_some, setPhase]

/-! ### The invariant -/

/-- Every thread belongs to an iteration of its own, and a worker is in the middle
of a pass only while its thread runs it. -/
structure Inv (d : Daemon n) : Prop where
  /-- No running thread is out of sight of the main thread. -/
  life : d.life.Inv
  /-- Every thread has an iteration. -/
  length : d.slots.length = d.life.threads.length
  /-- No two threads have the same. -/
  nodup : d.slots.Nodup
  /-- There are no more iterations than workers. -/
  le : d.life.main.iteration n ≤ n
  /-- An iteration that started a thread is past its `pthread_create`. -/
  started : ∀ k ∈ d.slots, k.val < d.life.main.iteration n
  /-- A worker in the middle of a pass has a thread that runs it. -/
  idle : ∀ k, (d.sys.procs k).midPass → ∃ (j : ℕ) (th : Thread), d.life.threads[j]? = some th ∧
    d.slots[j]? = some k ∧ th.phase = .run

theorem inv_start (cfg : Config) (console : Bool) (boot : Fin (numWorkers cfg) → Startup)
    (now : Clock) (db : Tables) : (start cfg console boot now db).Inv := by
  refine ⟨Life.inv_start, rfl, List.nodup_nil, Nat.zero_le _, by simp [start], fun k h => ?_⟩
  simp [start, System.start, Proc.start, Proc.midPass] at h

/-- The loop of `App::onInitializeThreads` goes forward. -/
theorem iteration_mainStep {s s' : Life} {create : CreateResult}
    (h : s.mainStep n create = some s') (hle : s.main.iteration n ≤ n) :
    s.main.iteration n ≤ s'.main.iteration n ∧ s'.main.iteration n ≤ n := by
  cases Life.mainMove_of_mainStep h with
  | started i id hm hi | failed i id hm hi =>
    rw [hm]
    exact ⟨Nat.le_succ i, hi⟩
  | spawned i hm =>
    rw [hm] at hle ⊢
    exact ⟨hle, le_rfl⟩
  | pushBack i id hm =>
    rw [hm] at hle ⊢
    exact ⟨le_rfl, hle⟩
  | newStats hm | startStats hm => rw [hm]; exact ⟨le_rfl, Nat.zero_le n⟩
  | waitDone hm | noneLeft hm | front hm | join id hm | popFront hm | stopStats hm
  | deleteStats hm => rw [hm]; exact ⟨le_rfl, le_rfl⟩

/-- A thread elsewhere than at `j` is where it was. -/
theorem threads_setPhase_of_ne {j j' : ℕ} {th : Thread} {phase : Phase} (h : j' ≠ j) :
    (d.setPhase j th phase).threads[j']? = d.life.threads[j']? :=
  List.getElem?_set_ne h.symm

theorem threads_setPhase_self {j : ℕ} {th : Thread} {phase : Phase}
    (h : d.life.threads[j]? = some th) :
    (d.setPhase j th phase).threads[j]? = some { th with phase := phase } := by
  obtain ⟨hlt, -⟩ := List.getElem?_eq_some_iff.mp h
  exact List.getElem?_set_self hlt

/-- **Every step keeps the threads to their own workers.** -/
theorem Inv.move (h : d.Inv) (hmove : Move d e d') : d'.Inv := by
  cases hmove with
  | main create life hlife =>
    have hiter := iteration_mainStep hlife h.le
    have hlater : ∀ k ∈ d.slots, k.val < life.main.iteration n :=
      fun k hk => (h.started k hk).trans_le hiter.1
    obtain ⟨-, ⟨hthreads, hnone⟩ | ⟨i, id, hi, hspawn, hpush, hthreads, hnew⟩⟩ :=
      threads_mainStep hlife
    · simp only [hnone, List.append_nil]
      refine ⟨h.life.main_move (Life.mainMove_of_mainStep hlife), ?_, h.nodup, hiter.2, hlater,
        fun k hk => ?_⟩
      · rw [hthreads]; exact h.length
      · simp only [hthreads]; exact h.idle k hk
    · have hbefore : ∀ k ∈ d.slots, k.val < i := by
        simpa [hspawn, MainPc.iteration] using h.started
      refine ⟨h.life.main_move (Life.mainMove_of_mainStep hlife), ?_, ?_, hiter.2, ?_,
        fun k hk => ?_⟩
      · simp [hthreads, hnew, h.length]
      · rw [hnew, List.nodup_append]
        refine ⟨h.nodup, List.nodup_singleton _, fun k hk l hl => ?_⟩
        obtain rfl := List.mem_singleton.mp hl
        exact Fin.ne_of_lt (hbefore k hk)
      · intro k hk
        rw [hnew] at hk
        rcases List.mem_append.mp hk with hold | hk
        · exact hlater k hold
        · obtain rfl := List.mem_singleton.mp hk
          simp [hpush, MainPc.iteration]
      · obtain ⟨j, th, hth, hj, hrun⟩ := h.idle k hk
        obtain ⟨hlt, -⟩ := List.getElem?_eq_some_iff.mp hth
        obtain ⟨hlt', -⟩ := List.getElem?_eq_some_iff.mp hj
        refine ⟨j, th, ?_, ?_, hrun⟩
        · simp only [hthreads]; rw [List.getElem?_append_left hlt, hth]
        · simp only [hnew]; rw [List.getElem?_append_left hlt', hj]
  | pass j i th k hth hk hrun =>
    have hlife := step_setPhase (n := n) hth (next_of_run hrun d.life.done (d.stepped k i).midPass)
    refine ⟨h.life.worker_step hlife, ?_, h.nodup, h.le, h.started, fun l hl => ?_⟩
    · simp [setPhase, h.length]
    · rcases eq_or_ne l k with rfl | hne
      · -- this worker is in the middle of its pass, so its thread goes on running it
        rw [System.procs_work_self] at hl
        exact ⟨j, _, threads_setPhase_self hth, hk, if_pos hl⟩
      · rw [System.procs_work_of_ne hne] at hl
        obtain ⟨j', th', hth', hj', hrun'⟩ := h.idle l hl
        have hother : j' ≠ j := fun heq => hne (by
          rw [heq, hk] at hj'
          exact (Option.some.inj hj').symm)
        exact ⟨j', th', (threads_setPhase_of_ne hother).trans hth', hj', hrun'⟩
  | thread j i th phase hth hrun hnext =>
    refine ⟨h.life.worker_step (step_setPhase (n := n) hth hnext), ?_, h.nodup, h.le, h.started,
      fun l hl => ?_⟩
    · simp [setPhase, h.length]
    · obtain ⟨j', th', hth', hj', hrun'⟩ := h.idle l hl
      have hother : j' ≠ j := fun heq => hrun (by
        rw [heq, hth] at hth'
        rw [Option.some.inj hth', hrun'])
      exact ⟨j', th', (threads_setPhase_of_ne hother).trans hth', hj', hrun'⟩
  | signal sig log =>
    exact ⟨⟨h.life.stats, h.life.early, h.life.tracked, h.life.front, h.life.joined,
      h.life.empty⟩, h.length, h.nodup, h.le, h.started, h.idle⟩
  | tick c => exact ⟨h.life, h.length, h.nodup, h.le, h.started, h.idle⟩
  | insert t r =>
    refine ⟨h.life, h.length, h.nodup, h.le, h.started, ?_⟩
    rw [System.procs_insert]
    exact h.idle

theorem Step.move (h : Step d e d') : Move d e d' := move_of_step h.1

theorem inv_of_run {es : List DaemonEvent} (h : Run Step d es d') (h₀ : d.Inv) : d'.Inv :=
  h.invariant (fun _ _ _ hinv hs => hinv.move hs.move) h₀

/-! ### The daemon and its parts -/

/-- What the threads see of an event. -/
def showsLife : DaemonEvent → List LifeEvent → Prop
  | .main create, es => es = [.main create]
  | .worker j _, es => ∃ more, es = [.worker j more]
  | .signal sig, es => es = if sig = .sigint then [.setDone] else []
  | .tick _, es | .insert _ _, es => es = []

/-- What the workers see of an event.  A step of a thread is none of its worker's
unless the thread runs a pass. -/
def showsSystem : DaemonEvent → List (Event n) → Prop
  | .tick c, es => es = [.tick c]
  | .insert t r, es => es = [.insert t r]
  | .worker _ i, es => es = [] ∨ ∃ k, es = [.work k i]
  | .main _, es | .signal _, es => es = []

theorem Step.shows_life (h : Step d e d') :
    ∃ es, showsLife e es ∧ Run (Life.Step n) d.life es d'.life := by
  cases h.move with
  | main create life hlife => exact ⟨_, rfl, Run.single hlife⟩
  | pass j i th k hth hk hrun =>
    exact ⟨_, ⟨_, rfl⟩, Run.single (step_setPhase hth (next_of_run hrun _ _))⟩
  | thread j i th phase hth hrun hnext => exact ⟨_, ⟨_, rfl⟩, Run.single (step_setPhase hth hnext)⟩
  | signal sig log =>
    refine ⟨_, rfl, ?_⟩
    by_cases hsig : sig = .sigint
    · rw [if_pos hsig]
      refine Run.single ?_
      simp [Life.Step, Takes, Life.step, hsig]
    · rw [if_neg hsig]
      simp only [hsig, decide_false, Bool.or_false]
      exact .nil _
  | tick c | insert t r => exact ⟨[], rfl, .nil _⟩

theorem Step.shows_system (h : Step d e d') :
    ∃ es, showsSystem e es ∧ Run Forward d.sys es d'.sys := by
  cases h.move with
  | main create life hlife => exact ⟨[], rfl, .nil _⟩
  | pass j i th k hth hk hrun =>
    exact ⟨_, Or.inr ⟨k, rfl⟩, Run.single ⟨rfl, fun c hc => by simp at hc⟩⟩
  | thread j i th phase hth hrun hnext => exact ⟨[], Or.inl rfl, .nil _⟩
  | signal sig log => exact ⟨[], rfl, .nil _⟩
  | tick c => exact ⟨_, rfl, Run.single ⟨rfl, fun c' hc => by cases hc; exact h.2 c rfl⟩⟩
  | insert t r => exact ⟨_, rfl, Run.single ⟨rfl, fun c hc => by simp at hc⟩⟩

theorem shows_life {es : List DaemonEvent} (h : Run Step d es d') :
    ∃ ess, List.Forall₂ showsLife es ess ∧ Run (Life.Step n) d.life ess.flatten d'.life :=
  h.refines (P := fun _ => True) life (fun _ _ _ _ hs => ⟨trivial, hs.shows_life⟩) trivial

theorem shows_system {es : List DaemonEvent} (h : Run Step d es d') :
    ∃ ess, List.Forall₂ showsSystem es ess ∧ Run Forward d.sys ess.flatten d'.sys :=
  h.refines (P := fun _ => True) sys (fun _ _ _ _ hs => ⟨trivial, hs.shows_system⟩) trivial

/-! ### What the settings promise -/

variable {cfg : Config} {console : Bool} {boot : Fin (numWorkers cfg) → Startup} {now : Clock}
  {db : Tables}

/-- The workers of the daemon, built from the configuration. -/
def workers (cfg : Config) (console : Bool) (boot : Fin (numWorkers cfg) → Startup)
    (k : Fin (numWorkers cfg)) : Worker :=
  workerThread cfg (UInt32.ofNat (k + 1)) console (boot k)

theorem inInt_workers (k : Fin (numWorkers cfg)) (t : Table) :
    InInt ((workers cfg console boot k).maxAge t).toInt := by
  rw [workers, maxAge_workerThread]
  exact inInt_toInt64 _

theorem maxAge_workers (k : Fin (numWorkers cfg)) (t : Table) :
    ((workers cfg console boot k).maxAge t).toInt = (ageSetting cfg t).toInt := by
  rw [workers, maxAge_workerThread, Int32.toInt_toInt64]

theorem policy_of_run {es : List DaemonEvent} {d : Daemon (numWorkers cfg)}
    (h : Run Step (start cfg console boot now db) es d) :
    Policy (workers cfg console boot) d.sys := by
  obtain ⟨ess, -, hrun⟩ := shows_system h
  exact AprsPruner.policy_of_run inInt_workers hrun (policy_start now db _)

/-- A step of the daemon removes at most the largest limit. -/
theorem card_removed_le_of_step {ws : Fin n → Worker} (hpolicy : Policy ws d.sys) (h : Step d e d')
    (t : Table) {m : ℕ} (hm : ∀ k, ((ws k).maxLimit t).toNat ≤ m) :
    (d.sys.db t \ d'.sys.db t).card ≤ m := by
  cases h.move with
  | pass j i th k hth hk hrun => exact hpolicy.card_removed_le (.work k i) t hm
  | tick c => exact hpolicy.card_removed_le (.tick c) t hm
  | insert u r => exact hpolicy.card_removed_le (.insert u r) t hm
  | main create life hlife => simp
  | thread j i th phase hth hrun hnext => simp
  | signal sig log => simp

/-- **A row leaves a table only in a step of a thread that runs a pass.** -/
theorem pass_of_deleted (h : Step d e d') {t : Table} {r : Row} (hr : r ∈ d.sys.db t)
    (hgone : r ∉ d'.sys.db t) :
    ∃ (j : ℕ) (i : Input) (th : Thread) (k : Fin n), e = .worker j i ∧
      d.life.threads[j]? = some th ∧ th.phase = .run ∧ d'.sys = d.sys.step (.work k i) := by
  cases h.move with
  | pass j i th k hth hk hrun => exact ⟨j, i, th, k, rfl, hth, hrun, rfl⟩
  | main create life hlife => exact absurd hr hgone
  | thread j i th phase hth hrun hnext => exact absurd hr hgone
  | signal sig log => exact absurd hr hgone
  | tick c => exact absurd hr hgone
  | insert u s =>
    exact absurd (System.db_subset_insert d.sys t u s hr) hgone

/-! ### Runs on fixed inputs -/

/-- Events without a tick of the clock, if each of them can happen, are a run. -/
theorem run_of_untimed {es : List DaemonEvent} (hticks : ∀ c, DaemonEvent.tick c ∉ es)
    (h : steps step d es = some d') : Run Step d es d' :=
  (Transition.run_of_steps h).mono fun _ he _ _ hs =>
    ⟨hs, fun c hc => absurd (hc ▸ he) (hticks c)⟩

/-- One worker, over tables with a row of eleven days and one of five. -/
def oneWorker : Daemon (numWorkers (.ofInt "app.threads.worker" 1)) :=
  start (.ofInt "app.threads.worker" 1) false (fun _ => .still (.ofEpoch 2000000))
    (.ofEpoch 2000000) fun _ => {⟨1, 1049600, []⟩, ⟨2, 1568000, []⟩}

/-- The steps that start the worker, and `k` steps of its passes. -/
def startedUp (k : ℕ) : List DaemonEvent :=
  let i : Input :=
    ⟨.still (.ofEpoch 2000000), "localhost:61613", true, Picker.inOrder, .succeeds, "0"⟩
  List.replicate 5 (.main (.started 7)) ++ List.replicate (4 + k) (.worker 0 i)

theorem tick_notMem_startedUp (k : ℕ) (c : Clock) : DaemonEvent.tick c ∉ startedUp k := by
  intro h
  rcases List.mem_append.mp h with h | h <;> exact absurd (List.eq_of_mem_replicate h) (by simp)

end Daemon

open Daemon in
/-- **What the configured ages and limits promise.**  For every configuration, in
every state the daemon reaches under a clock that does not go back, whatever the main
thread, its threads, the clients and the signals have done: a row leaves a table only
by the step of a thread that runs a pass, while the statistics object is started and
the main thread is not past the joins, and is then older than the configured age; a
step removes at most the configured limit, as a `size_t`, so that a negative limit
bounds next to nothing; and every row that is not older than the configured age is
still there. -/
theorem retained_by_settings (cfg : Config) (console : Bool)
    (boot : Fin (numWorkers cfg) → Startup) (now : Clock) (db : Tables) (es : List DaemonEvent)
    (d : Daemon (numWorkers cfg)) (h : Run Step (start cfg console boot now db) es d) :
    (∀ e d', Step d e d' → ∀ t, ∀ r ∈ d.sys.db t, r ∉ d'.sys.db t →
      (∃ (j : ℕ) (i : Input) (th : Thread), e = .worker j i ∧ d.life.threads[j]? = some th ∧
        th.phase = .run) ∧ d.life.stats = .started ∧ ¬ d.life.main.pastJoins ∧
        r.createTs < d.sys.now.secs - (ageSetting cfg t).toInt) ∧
    (∀ e d', Step d e d' → ∀ t,
      (d.sys.db t \ d'.sys.db t).card ≤ (sizeOfInt (limitSetting cfg t)).toNat) ∧
    ∀ t r, r ∈ db t ∨ DaemonEvent.insert t r ∈ es →
      d.sys.now.secs - (ageSetting cfg t).toInt ≤ r.createTs → r ∈ d.sys.db t := by
  have hpolicy := Daemon.policy_of_run h
  have hinv := inv_of_run h (inv_start cfg console boot now db)
  refine ⟨fun e d' hs t r hr hgone => ?_, fun e d' hs t => ?_, fun t r hr hts => ?_⟩
  · obtain ⟨j, i, th, k, rfl, hth, hrun, hsys⟩ := pass_of_deleted hs hr hgone
    rw [hsys] at hgone
    obtain ⟨l, i', hwork, -, hlt⟩ := hpolicy.lt_of_deleted hr hgone
    rw [maxAge_workers] at hlt
    have hrunning : th.phase ≠ .returned := by simp [hrun]
    have hstarted := hinv.life.started_of_running (List.mem_of_getElem? hth) hrunning
    exact ⟨⟨j, i, th, rfl, hth, hrun⟩, hstarted.1, hstarted.2, hlt⟩
  · have hlimit : ∀ k, ((workers cfg console boot k).maxLimit t).toNat ≤
        (sizeOfInt (limitSetting cfg t)).toNat := fun k => by
      rw [workers, maxLimit_workerThread]
    exact card_removed_le_of_step hpolicy hs t hlimit
  · obtain ⟨ess, hshows, hrun⟩ := shows_system h
    obtain ⟨os, hos, hbound⟩ := run_stock (m := (ageSetting cfg t).toInt) inInt_workers t
      (fun k => (maxAge_workers k t).ge) hrun (policy_start now db _)
    have hever : r ∈ (d.sys.stock t).ever := by
      refine mem_ever_of_run hrun (hr.imp_right fun hr => ?_)
      exact mem_flatten_of_shows (fun ds hds => by rw [hds]; exact List.mem_singleton_self _)
        hshows hr
    exact live_of_bounds_le hos hbound rfl hever hts

open Daemon in
/-- The worker has run its `DELETE` from `packet`, and the row of five days is there. -/
theorem row_of_five_days_kept :
    ∃ d, steps Daemon.step oneWorker (startedUp 6) = some d ∧
      ⟨2, 1568000, []⟩ ∈ d.sys.db .packet := by
  obtain ⟨d, hd⟩ := Option.isSome_iff_exists.mp
    (show (steps Daemon.step oneWorker (startedUp 6)).isSome by decide)
  have hrun := run_of_untimed (tick_notMem_startedUp 6) hd
  have hnow : (steps Daemon.step oneWorker (startedUp 6)).map (fun d => d.sys.now.secs) =
      some 2000000 := by
    decide +kernel
  rw [hd, Option.map_some, Option.some.injEq] at hnow
  refine ⟨d, hd, (retained_by_settings _ _ _ _ _ _ d hrun).2.2 .packet _ (Or.inl (by decide)) ?_⟩
  rw [hnow]
  decide

end AprsPruner
