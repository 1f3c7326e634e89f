import AprsPruner.Daemon
import AprsPruner.Lib.Drain

/-!
# Shutdown

Once `done` is set, the main thread joins its threads, and each of them ends the
pass it is in and returns.  So the number of steps left is bounded, and nothing waits
for ever, unless a `pthread_create` that failed has left the id of a thread that is no
worker's: the threads of the statistics object are stopped only after the joins, and a
join on one of them does not return.

## Main definitions

* `Pc.rank`, `Phase.rank`, `Life.mainRank` — the steps that are left.
* `DaemonEvent.own` — the steps of the daemon itself.
* `Daemon.load` — a quantity summed over the threads, with where their workers are.
* `Daemon.StepAmong others` — the steps, in a process with other threads.
* `Daemon.Halted`, `Daemon.JoinsNone` — where they end, and that they do.

## Main results

* `Daemon.drains` — **after `done`, every step of the daemon uses some rank up.**
* `Daemon.exists_own_step_iff` — when the daemon can take a step.
* `shutdown_terminates` — **when the daemon ends, and after how many steps.**
-/

namespace AprsPruner

open BatchPrune Transition App

/-! ### The steps that are left -/

/-- The statements left in a pass. -/
def Pc.rank : Pc → ℕ
  | .tryStompstats => 14
  | .reportStats => 13
  | .storeTryStats => 12
  | .isNext => 11
  | .cutoff .packet => 10
  | .delete .packet => 9
  | .cutoff .raw => 8
  | .delete .raw => 7
  | .addStompstats .packet => 6
  | .addStompstats .raw => 5
  | .addStats .packet => 4
  | .addStats .raw => 3
  | .logDeletes => 2
  | .sleep => 1

/-- **A pass ends**: a statement that is not its last leaves fewer. -/
theorem Pc.rank_next (isNext : Bool) (pc : Pc) (h : pc.next isNext ≠ .tryStompstats) :
    (pc.next isNext).rank < pc.rank := by
  cases pc with
  | isNext => cases isNext <;> simp [next, rank]
  | cutoff t | delete t | addStompstats t | addStats t => cases t <;> simp [next, rank]
  | sleep => exact absurd rfl h
  | _ => simp [next, rank]

theorem Pc.rank_pos (pc : Pc) : 0 < pc.rank := by
  cases pc with
  | cutoff t | delete t | addStompstats t | addStats t => cases t <;> decide
  | _ => decide

theorem Pc.rank_le (pc : Pc) : pc.rank ≤ 14 := by
  cases pc with
  | cutoff t | delete t | addStompstats t | addStats t => cases t <;> decide
  | _ => decide

/-- The steps a thread has left once `done` is set. -/
def Phase.rank : Phase → Pc → ℕ
  | .construct, _ => 5
  | .replaceStats, _ => 4
  | .init, _ => 3
  | .testDone, _ => 2
  | .run, pc => 2 + pc.rank
  | .deleteWorker, _ => 1
  | .returned, _ => 0

theorem Phase.rank_le (phase : Phase) (pc : Pc) : phase.rank pc ≤ 16 := by
  have hpc := pc.rank_le
  cases phase <;> simp only [rank] <;> omega

/-- A thread that is not in a pass goes on, if `done` is set. -/
theorem Phase.rank_next {phase phase' : Phase} (hrun : phase ≠ .run)
    (h : phase.next true false = some phase') (pc : Pc) : phase'.rank pc < phase.rank pc := by
  cases phase with
  | run => exact absurd rfl hrun
  | returned => exact absurd h (by simp [next])
  | _ => obtain rfl := Option.some.inj h; exact Nat.lt_succ_self _

/-- The steps the main thread has left once `done` is set.  Each iteration still to
come starts a thread and makes a join necessary. -/
def Life.mainRank (n : ℕ) (s : Life) : ℕ :=
  match s.main with
  | .newStats => 10 * n + 3 * s.workers.length + 7
  | .startStats => 10 * n + 3 * s.workers.length + 6
  | .spawn i => 10 * (n - i) + 3 * s.workers.length + 5
  | .pushBack i _ => 10 * (n - (i + 1)) + 3 * s.workers.length + 9
  | .waitDone => 3 * s.workers.length + 4
  | .front => 3 * s.workers.length + 3
  | .join _ => 3 * s.workers.tail.length + 5
  | .popFront => 3 * s.workers.tail.length + 4
  | .stopStats => 2
  | .deleteStats => 1
  | .finished => 0

/-- **Every step of the main thread brings it nearer to its end**, the five steps of
a thread it may start included. -/
theorem Life.mainRank_mainStep {n : ℕ} {s s' : Life} {create : CreateResult}
    (h : s.mainStep n create = some s') :
    s'.mainRank n + 5 * s'.threads.length < s.mainRank n + 5 * s.threads.length := by
  cases mainMove_of_mainStep h with
  | started i id hm hi =>
    simp only [mainRank, hm, List.length_append, List.length_singleton]
    omega
  | failed i junk hm hi | spawned i hm hi =>
    simp only [mainRank, hm]
    omega
  | pushBack i id hm =>
    simp only [mainRank, hm, List.length_append, List.length_singleton]
    omega
  | front hm hworkers =>
    simp only [mainRank, hm, hworkers, List.length_cons, List.tail_cons]
    omega
  | noneLeft hm hworkers => simp [mainRank, hm]
  | newStats hm | startStats hm | waitDone hm | join id hm | popFront hm | stopStats hm
  | deleteStats hm => simp [mainRank, hm]

/-- Once `done` is set and the workers' threads have returned, the main thread goes on. -/
theorem Life.mainStep_isSome {n : ℕ} {s : Life} {junk : PthreadT} (hdone : s.done = true)
    (hret : ∀ th ∈ s.threads, th.phase = .returned) (hmain : s.main ≠ .finished) :
    (s.mainStep n (.failed junk)).isSome := by
  cases hm : s.main with
  | finished => exact absurd hm hmain
  | spawn i =>
    simp only [mainStep, hm, spawnThread]
    split <;> rfl
  | front =>
    simp only [mainStep, hm]
    split <;> rfl
  | join id =>
    simp only [mainStep, hm]
    rw [if_pos fun th hth _ => hret th hth]
    rfl
  | waitDone => simp [mainStep, hm, hdone]
  | _ => simp [mainStep, hm]

/-- The steps of the daemon itself. -/
def DaemonEvent.own : DaemonEvent → Bool
  | .main _ | .worker _ _ => true
  | .signal _ | .tick _ | .insert _ _ => false

namespace Daemon

variable {n : ℕ} {d d' : Daemon n} {e : DaemonEvent}

/-! ### A quantity of every thread -/

/-- The quantity `f` of the thread of index `j`. -/
def loadAt (f : Phase → Pc → ℕ) (d : Daemon n) (j : ℕ) : ℕ :=
  match d.life.threads[j]?, d.slots[j]? with
  | some th, some k => f th.phase (d.sys.procs k).pc
  | _, _ => 0

/-- The quantity `f` of all threads together. -/
def load (f : Phase → Pc → ℕ) (d : Daemon n) : ℕ :=
  ∑ j ∈ Finset.range d.life.threads.length, d.loadAt f j

theorem loadAt_eq {f : Phase → Pc → ℕ} {j : ℕ} {th : Thread} {k : Fin n}
    (hth : d.life.threads[j]? = some th) (hk : d.slots[j]? = some k) :
    d.loadAt f j = f th.phase (d.sys.procs k).pc := by
  rw [loadAt, hth, hk]

/-- The thread of an index that has one belongs to an iteration. -/
theorem Inv.exists_slot (h : d.Inv) {j : ℕ} {th : Thread} (hth : d.life.threads[j]? = some th) :
    ∃ k, d.slots[j]? = some k := by
  obtain ⟨hlt, -⟩ := List.getElem?_eq_some_iff.mp hth
  exact ⟨_, List.getElem?_eq_getElem (h.length ▸ hlt)⟩

/-- Two states whose threads differ at `j` only differ in the load by what that
thread has more. -/
theorem load_add_of_ne {f : Phase → Pc → ℕ} {j : ℕ}
    (hlen : d'.life.threads.length = d.life.threads.length) (hj : j < d.life.threads.length)
    (hne : ∀ j', j' ≠ j → d'.loadAt f j' = d.loadAt f j') :
    d'.load f + d.loadAt f j = d.load f + d'.loadAt f j := by
  have hmem : j ∈ Finset.range d.life.threads.length := Finset.mem_range.mpr hj
  have hrest : ∑ j' ∈ (Finset.range d.life.threads.length).erase j, d'.loadAt f j' =
      ∑ j' ∈ (Finset.range d.life.threads.length).erase j, d.loadAt f j' :=
    Finset.sum_congr rfl fun j' hj' => hne j' (Finset.ne_of_mem_erase hj')
  rw [load, load, hlen, ← Finset.add_sum_erase _ _ hmem, ← Finset.add_sum_erase _ (d.loadAt f) hmem,
    hrest]
  omega

theorem loadAt_setPhase_self (f : Phase → Pc → ℕ) (phase : Phase) (sys : System n) {j : ℕ}
    {th : Thread} {k : Fin n} (hth : d.life.threads[j]? = some th) (hk : d.slots[j]? = some k) :
    ({ d with life := d.setPhase j th phase, sys := sys } : Daemon n).loadAt f j =
      f phase (sys.procs k).pc := by
  rw [loadAt, threads_setPhase_self hth, hk]

/-- A thread's step leaves the load of the other threads, if it moves no other thread's
worker. -/
theorem loadAt_setPhase_of_ne (h : d.Inv) (f : Phase → Pc → ℕ) (phase : Phase) {sys : System n}
    {j j' : ℕ} {th : Thread} {k : Fin n} (hk : d.slots[j]? = some k)
    (hprocs : ∀ l, l ≠ k → sys.procs l = d.sys.procs l) (hne : j' ≠ j) :
    ({ d with life := d.setPhase j th phase, sys := sys } : Daemon n).loadAt f j' =
      d.loadAt f j' := by
  simp only [loadAt, threads_setPhase_of_ne hne]
  split
  · next th' k' hth' hk' =>
    obtain ⟨hlt, hval⟩ := List.getElem?_eq_some_iff.mp hk
    obtain ⟨hlt', hval'⟩ := List.getElem?_eq_some_iff.mp hk'
    have hother : k' ≠ k := fun heq =>
      hne ((List.Nodup.getElem_inj_iff h.nodup).mp (hval'.trans (heq.trans hval.symm)))
    rw [hprocs k' hother]
  · rfl

/-- **A thread's step moves the load of this thread only**, if it moves no other
thread's worker. -/
theorem load_setPhase (h : d.Inv) (f : Phase → Pc → ℕ) (phase : Phase) (sys : System n) {j : ℕ}
    {th : Thread} {k : Fin n} (hth : d.life.threads[j]? = some th)
    (hk : d.slots[j]? = some k) (hprocs : ∀ l, l ≠ k → sys.procs l = d.sys.procs l) :
    ({ d with life := d.setPhase j th phase, sys := sys } : Daemon n).load f +
        f th.phase (d.sys.procs k).pc = d.load f + f phase (sys.procs k).pc := by
  obtain ⟨hlt, -⟩ := List.getElem?_eq_some_iff.mp hth
  have hlen : (d.setPhase j th phase).threads.length = d.life.threads.length := by
    simp [setPhase]
  have hload := load_add_of_ne (f := f) hlen hlt fun j' hne =>
    loadAt_setPhase_of_ne h f phase hk hprocs hne
  rw [loadAt_eq hth hk] at hload
  rw [hload, loadAt_setPhase_self f phase sys hth hk]

theorem loadAt_of_le {f : Phase → Pc → ℕ} {j : ℕ} (h : d.life.threads.length ≤ j) :
    d.loadAt f j = 0 := by
  rw [loadAt, List.getElem?_eq_none h]

/-- The load may be summed beyond the threads there are. -/
theorem load_eq_sum {f : Phase → Pc → ℕ} {N : ℕ} (h : d.life.threads.length ≤ N) :
    d.load f = ∑ j ∈ Finset.range N, d.loadAt f j := by
  refine Finset.sum_subset (Finset.range_mono h) fun j _ hj => ?_
  exact loadAt_of_le (not_lt.mp (mt Finset.mem_range.mpr hj))

/-- A step of the main thread leaves the load of the threads there are, and a new thread
brings its own. -/
theorem loadAt_main (h : d.Inv) {f : Phase → Pc → ℕ} {c : ℕ} (hc : ∀ pc, f .construct pc = c)
    {create : CreateResult} {life : Life} (hlife : d.life.mainStep n create = some life) (j : ℕ) :
    ({ d with life := life, slots := d.slots ++ d.newSlots create } : Daemon n).loadAt f j =
      d.loadAt f j +
        if d.life.threads.length ≤ j ∧ j < life.threads.length then c else 0 := by
  obtain ⟨-, ⟨hthreads, hnone⟩ | ⟨i, id, hi, -, -, hthreads, hnew⟩⟩ := threads_mainStep hlife
  · rw [if_neg (by rw [hthreads]; omega), Nat.add_zero]
    simp only [loadAt, hthreads, hnone, List.append_nil]
  · have hlen : life.threads.length = d.life.threads.length + 1 := by simp [hthreads]
    rcases lt_trichotomy j d.life.threads.length with hlt | rfl | hgt
    · rw [if_neg (by omega), Nat.add_zero]
      simp only [loadAt, hthreads]
      rw [List.getElem?_append_left hlt, List.getElem?_append_left (h.length.symm ▸ hlt)]
    · rw [if_pos (by omega), loadAt_of_le le_rfl, Nat.zero_add]
      have hth : life.threads[d.life.threads.length]? = some ⟨id, .construct⟩ := by
        rw [hthreads, List.getElem?_concat_length]
      have hk : (d.slots ++ d.newSlots create)[d.life.threads.length]? = some ⟨i, hi⟩ := by
        rw [hnew, ← h.length, List.getElem?_concat_length]
      exact (loadAt_eq hth hk).trans (hc _)
    · rw [if_neg (by omega), Nat.add_zero, loadAt_of_le hgt.le]
      exact loadAt_of_le (hlen ▸ hgt)

/-- A new thread brings its own load. -/
theorem load_main (h : d.Inv) {f : Phase → Pc → ℕ} {c : ℕ} (hc : ∀ pc, f .construct pc = c)
    {create : CreateResult} {life : Life} (hlife : d.life.mainStep n create = some life) :
    ({ d with life := life, slots := d.slots ++ d.newSlots create } : Daemon n).load f +
      c * d.life.threads.length = d.load f + c * life.threads.length := by
  have hat := loadAt_main h hc hlife
  have hold : ∑ j ∈ Finset.range d.life.threads.length,
      ({ d with life := life, slots := d.slots ++ d.newSlots create } : Daemon n).loadAt f j =
        d.load f := Finset.sum_congr rfl fun j hj => by
    rw [hat, if_neg (not_and_of_not_left _ (not_le.mpr (Finset.mem_range.mp hj))), Nat.add_zero]
  obtain ⟨-, ⟨hthreads, -⟩ | ⟨i, id, hi, -, -, hthreads, -⟩⟩ := threads_mainStep hlife
  · rw [load, hthreads, hold]
  · have hlen : life.threads.length = d.life.threads.length + 1 := by simp [hthreads]
    rw [load, hlen, Finset.sum_range_succ, hold, hat, loadAt_of_le le_rfl, hlen,
      if_pos ⟨le_rfl, Nat.lt_succ_self _⟩, Nat.mul_succ]
    omega

/-! ### The daemon ends -/

/-- The steps that are left once `done` is set. -/
def rank (d : Daemon n) : ℕ := d.life.mainRank n + d.load Phase.rank

/-- The daemon is on its way out. -/
structure Ending (d : Daemon n) : Prop extends d.Inv where
  /-- `done` is set. -/
  done : d.life.done = true

theorem Ending.move (h : d.Ending) (hmove : Move d e d') : d'.Ending := by
  refine ⟨h.toInv.move hmove, ?_⟩
  cases hmove with
  | main create life hlife => exact (threads_mainStep hlife).1.trans h.done
  | signal sig log => simp [h.done]
  | _ => exact h.done

/-- A thread that has taken its last step of a pass tests `done`. -/
theorem rank_of_pass (k : Fin n) (i : Input) :
    Phase.rank (if (d.stepped k i).midPass then .run else .testDone) (d.stepped k i).pc <
      Phase.rank .run (d.sys.procs k).pc := by
  have hpos := (d.sys.procs k).pc.rank_pos
  split
  · next hmid =>
    have hnext : (d.stepped k i).pc = (d.sys.procs k).pc.next i.isNext := Proc.pc_step
    rw [Proc.midPass, hnext] at hmid
    have hlt := Pc.rank_next i.isNext (d.sys.procs k).pc (by simpa using hmid)
    rw [hnext]
    simp only [Phase.rank]
    omega
  · simp only [Phase.rank]
    omega

theorem lt_of_add_eq_of_lt {x y a b : ℕ} (h : x + a = y + b) (hlt : b < a) : x < y := by
  omega

/-- **After `done`, every step of the daemon uses some rank up**, and nothing else
that happens gives it more. -/
theorem drains : Drains (Step (n := n)) Ending DaemonEvent.own rank where
  stays d e d' h hs := h.move hs.move
  falls d e d' h hs howns := by
    cases hs.move with
    | main create life hlife =>
      have hmain := Life.mainRank_mainStep hlife
      have hload := load_main h.toInv (f := Phase.rank) (c := 5) (fun _ => rfl) hlife
      simp only [rank]
      omega
    | pass j i th k hth hk hrun =>
      have hload := load_setPhase h.toInv Phase.rank
        (if (d.stepped k i).midPass then .run else .testDone) (d.sys.step (.work k i)) hth hk
        fun l hl => System.procs_work_of_ne hl i
      have hless := rank_of_pass (d := d) k i
      rw [hrun, System.procs_work_self] at hload
      exact Nat.add_lt_add_left (lt_of_add_eq_of_lt hload hless) _
    | thread j i th phase hth hrun hnext =>
      obtain ⟨k, hk⟩ := h.toInv.exists_slot hth
      have hload := load_setPhase h.toInv Phase.rank phase d.sys hth hk fun _ _ => rfl
      rw [h.done] at hnext
      exact Nat.add_lt_add_left (lt_of_add_eq_of_lt hload (Phase.rank_next hrun hnext _)) _
    | signal sig log => exact absurd howns Bool.false_ne_true
    | tick c => exact absurd howns Bool.false_ne_true
    | insert t r => exact absurd howns Bool.false_ne_true
  keeps d e d' h hs hother := by
    cases hs.move with
    | main create life hlife => exact absurd rfl hother
    | pass j i th k hth hk hrun => exact absurd rfl hother
    | thread j i th phase hth hrun hnext => exact absurd rfl hother
    | signal sig log => exact le_rfl
    | tick c => exact le_rfl
    | insert t r =>
      simp only [rank, load, loadAt, System.procs_insert]
      exact le_rfl

/-- A thread that has not returned can take a step. -/
theorem exists_worker_step (h : d.Inv) {th : Thread} (hth : th ∈ d.life.threads)
    (hrun : th.phase ≠ .returned) : ∃ (j : ℕ) (i : Input) (d' : Daemon n),
      Step d (.worker j i) d' := by
  obtain ⟨j, hj⟩ := List.getElem?_of_mem hth
  obtain ⟨k, hk⟩ := h.exists_slot hj
  have hnext : ∀ done more, ∃ phase, th.phase.next done more = some phase := by
    intro done more
    cases hphase : th.phase with
    | returned => exact absurd hphase hrun
    | _ => exact ⟨_, rfl⟩
  let i : Input := ⟨.still d.sys.now, "", true, Picker.inOrder, .succeeds, ""⟩
  obtain ⟨phase, hphase⟩ := hnext d.life.done
    ((if th.phase = .run then d.sys.step (.work k i) else d.sys).procs k).midPass
  have hstep : (d.step (.worker j i)).isSome := by
    simp only [step, hj, hk]
    rw [step_setPhase hj hphase]
    rfl
  obtain ⟨d', hd'⟩ := Option.isSome_iff_exists.mp hstep
  exact ⟨j, i, d', hd', fun c hc => by cases hc⟩

/-- Each iteration starts one thread at most. -/
theorem Inv.length_le (h : d.Inv) : d.life.threads.length ≤ d.life.main.iteration n := by
  have hsub : (d.slots.map Fin.val).toFinset ⊆ Finset.range (d.life.main.iteration n) := by
    intro k hk
    obtain ⟨l, hl, rfl⟩ := List.mem_map.mp (List.mem_toFinset.mp hk)
    exact Finset.mem_range.mpr (h.started l hl)
  have hcard := Finset.card_le_card hsub
  rwa [List.toFinset_card_of_nodup (h.nodup.map Fin.val_injective), List.length_map,
    Finset.card_range, h.length] at hcard

theorem load_rank_le (d : Daemon n) : d.load Phase.rank ≤ 16 * d.life.threads.length := by
  refine (Finset.sum_le_card_nsmul _ _ 16 fun j _ => ?_).trans ?_
  · rw [loadAt]
    split
    · exact Phase.rank_le _ _
    · exact Nat.zero_le _
  · rw [Finset.card_range, smul_eq_mul, Nat.mul_comm]

/-- **How many steps are left at most.** -/
theorem rank_le (h : d.Inv) (hprogress : d.life.Progress n) : d.rank ≤ 19 * n + 7 := by
  have hload := load_rank_le d
  have hlen := h.length_le
  have hiter := h.le
  suffices hmain : d.life.mainRank n + 16 * d.life.main.iteration n ≤ 19 * n + 7 by
    rw [rank]
    omega
  clear hload hlen h
  obtain ⟨⟨main, stats, done, workers, threads, results, calls⟩, slots, sys, log⟩ := d
  simp only [Life.mainRank] at hprogress hiter ⊢
  -- the deque holds no more ids than iterations have left one
  cases main with
  | newStats | startStats =>
    obtain ⟨-, hworkers, -⟩ := hprogress
    simp only at hworkers
    simp only [MainPc.iteration, hworkers, List.length_nil]
    omega
  | spawn i =>
    obtain ⟨hlen, hle, hworkers, -⟩ := hprogress
    simp only at hlen hworkers
    simp only [MainPc.iteration, hworkers, List.length_map, hlen] at *
    omega
  | pushBack i id =>
    obtain ⟨hlen, hle, hworkers, -⟩ := hprogress
    simp only at hlen hworkers
    have hworkers := congrArg List.length hworkers
    simp only [List.length_append, List.length_singleton, List.length_map, hlen] at hworkers
    simp only [MainPc.iteration]
    omega
  | waitDone =>
    obtain ⟨hlen, hworkers, -⟩ := hprogress
    simp only at hlen hworkers
    simp only [MainPc.iteration, hworkers, List.length_map, hlen]
    omega
  | front | join id | popFront =>
    obtain ⟨hlen, joined, hids, -⟩ := hprogress
    simp only at hlen hids
    have hids := congrArg List.length hids
    simp only [List.length_append, List.length_map, hlen, List.length_tail] at hids
    simp only [MainPc.iteration, List.length_tail]
    omega
  | stopStats | deleteStats | finished =>
    simp only [MainPc.iteration]
    omega

end Daemon

/-! ### The other threads of the process -/

/-- The ids that the main thread holds and has yet to join. -/
def Life.toJoin (s : Life) : List PthreadT :=
  match s.main with
  | .pushBack _ id => s.workers ++ [id]
  | .popFront => s.workers.tail
  | _ => s.workers

/-- **What a step does to the ids to be joined**: a creation leaves one more, and a join
takes the first away. -/
theorem Life.toJoin_mainMove {n : ℕ} {s s' : Life} {create : CreateResult} (h : s.Inv)
    (hmove : MainMove n s create s') :
    s'.toJoin = s.toJoin ∨ s'.toJoin = s.toJoin ++ [create.threadId] ∨
      ∃ id, s.main = .join id ∧ s.toJoin = id :: s'.toJoin := by
  cases hmove with
  | started i id hm | failed i id hm => exact Or.inr (Or.inl (by simp [toJoin, hm]; rfl))
  | join id hm =>
    obtain ⟨rest, hrest⟩ := List.head?_eq_some_iff.mp (h.front id hm)
    exact Or.inr (Or.inr ⟨id, hm, by simp [toJoin, hm, hrest]⟩)
  | newStats hm | startStats hm | spawned i hm | pushBack i id hm | waitDone hm | noneLeft hm
  | front hm | popFront hm | stopStats hm | deleteStats hm =>
    exact Or.inl (by simp [toJoin, hm])

namespace Daemon

section

variable {n : ℕ} {d d' : Daemon n} {e : DaemonEvent} {others : Set PthreadT}

/-- A step of the daemon in a process with other threads, whose ids are `others` and
which go on for as long as the main thread joins: no thread is started under such an id,
and no join on one returns. -/
structure StepAmong (others : Set PthreadT) (d : Daemon n) (e : DaemonEvent) (d' : Daemon n) :
    Prop where
  /-- It is a step of the daemon. -/
  step : Step d e d'
  /-- A new thread's id is none that is in use. -/
  started : ∀ id ∈ others, e ≠ .main (.started id)
  /-- The main thread is not in a join that does not return. -/
  join : ∀ create, e = .main create → ∀ id ∈ others, d.life.main ≠ .join id

/-- A thread of the daemon steps whatever other threads there are. -/
theorem StepAmong.of_worker {j : ℕ} {i : Input} (h : Step d (.worker j i) d') :
    StepAmong others d (.worker j i) d' where
  step := h
  started id _ he := by cases he
  join create he := by cases he

/-- So does the main thread, if it starts no thread and is in no join on one of them. -/
theorem StepAmong.of_main {id : PthreadT} (h : d.step (.main (.failed id)) = some d')
    (hne : ∀ id ∈ others, d.life.main ≠ .join id) :
    StepAmong others d (.main (.failed id)) d' where
  step := ⟨h, fun c hc => by cases hc⟩
  started id _ he := by cases he
  join _ _ := hne

/-- The main thread joins none of the other threads, with the ids that it holds. -/
def JoinsNone (others : Set PthreadT) (d : Daemon n) : Prop := ∀ id ∈ d.life.toJoin, id ∉ others

/-- Nothing is left to do, or to wait for but a join that does not return. -/
structure Halted (others : Set PthreadT) (d : Daemon n) : Prop where
  /-- The main thread has finished, or is in a join on another thread. -/
  main : d.life.main = .finished ∨ ∃ id ∈ others, d.life.main = .join id
  /-- The worker threads have returned. -/
  returned : ∀ th ∈ d.life.threads, th.phase = .returned

/-- A step whose creation, should it fail, leaves none of the ids keeps the main thread
from joining them. -/
theorem JoinsNone.step (hinv : d.Inv) (h : JoinsNone others d) (hs : StepAmong others d e d')
    (hjunk : ∀ id ∈ others, e ≠ .main (.failed id)) : JoinsNone others d' := by
  cases hs.step.move with
  | main create life hlife =>
    intro id hid hother
    rcases Life.toJoin_mainMove hinv.life (Life.mainMove_of_mainStep hlife) with
      hsame | hmore | ⟨id', -, hless⟩
    · exact h id (hsame ▸ hid) hother
    · have hid : id ∈ d.life.toJoin ++ [create.threadId] := hmore ▸ hid
      rcases List.mem_append.mp hid with hold | hnew
      · exact h id hold hother
      · obtain rfl := List.mem_singleton.mp hnew
        cases create with
        | started id => exact hs.started id hother rfl
        | failed junk => exact hjunk junk hother rfl
    · exact h id (hless ▸ List.mem_cons_of_mem _ hid) hother
  | _ => exact h

/-- A run whose creations, if they fail, leave none of the ids keeps the main thread from
joining them. -/
theorem JoinsNone.run {es : List DaemonEvent} (h : Run (StepAmong others) d es d')
    (hinv : d.Inv) (hnone : JoinsNone others d)
    (hjunk : ∀ id ∈ others, DaemonEvent.main (.failed id) ∉ es) : JoinsNone others d' := by
  induction h with
  | nil => exact hnone
  | cons hs _ ih =>
    refine ih (hinv.move hs.step.move) ?_ fun id hid he => hjunk id hid (List.mem_cons_of_mem _ he)
    exact hnone.step hinv hs fun id hid he => hjunk id hid (he ▸ List.mem_cons_self)

/-- **An id of another thread stays to be joined**: the join on it does not return. -/
theorem not_joinsNone_step (hinv : d.Inv) (h : ¬ JoinsNone others d)
    (hs : StepAmong others d e d') : ¬ JoinsNone others d' := by
  cases hs.step.move with
  | main create life hlife =>
    intro hnone
    refine h fun id hid hother => ?_
    rcases Life.toJoin_mainMove hinv.life (Life.mainMove_of_mainStep hlife) with
      hsame | hmore | ⟨id', hm, hless⟩
    · exact hnone id (hsame.symm ▸ hid) hother
    · exact hnone id (hmore.symm ▸ List.mem_append_left _ hid) hother
    · rw [hless] at hid
      rcases List.mem_cons.mp hid with rfl | hid
      · exact hs.join create rfl id hother hm
      · exact hnone id hid hother
  | _ => exact h

/-- The main thread is not in a join on another thread, if it joins none. -/
theorem JoinsNone.main_ne (hinv : d.Inv) (h : JoinsNone others d) {id : PthreadT}
    (hid : id ∈ others) : d.life.main ≠ .join id := by
  intro hm
  obtain ⟨rest, hrest⟩ := List.head?_eq_some_iff.mp (hinv.life.front id hm)
  exact h id (by simp [Life.toJoin, hm, hrest]) hid

/-- The main thread has nothing to join once it has finished. -/
theorem joinsNone_of_finished (hinv : d.Inv) (h : d.life.main = .finished) :
    JoinsNone others d := by
  have hempty : d.life.workers = [] := hinv.life.empty (by rw [h]; rfl)
  simp [JoinsNone, Life.toJoin, h, hempty]

/-- **Unless the daemon has halted, it can take a step**: the main thread can, or it
waits for a thread that can.  Should the step create a thread, the creation may fail and
leave any value. -/
theorem exists_own_step (h : d.Ending) (hnot : ¬ Halted others d) (junk : PthreadT) :
    ∃ e d', DaemonEvent.own e ∧ StepAmong others d e d' ∧ ∀ id, e = .main (.failed id) →
      id = junk := by
  by_cases hret : ∀ th ∈ d.life.threads, th.phase = .returned
  · have hmain : d.life.main ≠ .finished ∧ ∀ id ∈ others, d.life.main ≠ .join id := by
      refine ⟨fun hm => hnot ⟨Or.inl hm, hret⟩, fun id hid hm => ?_⟩
      exact hnot ⟨Or.inr ⟨id, hid, hm⟩, hret⟩
    have hlife : (d.life.mainStep n (.failed junk)).isSome :=
      Life.mainStep_isSome h.done hret hmain.1
    have hstep : (d.step (.main (.failed junk))).isSome := by
      simp only [step, Life.step, Option.isSome_map, hlife]
    obtain ⟨d', hd'⟩ := Option.isSome_iff_exists.mp hstep
    exact ⟨.main (.failed junk), d', rfl, .of_main hd' hmain.2,
      fun id hid => (CreateResult.failed.inj (DaemonEvent.main.inj hid)).symm⟩
  · push Not at hret
    obtain ⟨th, hth, hphase⟩ := hret
    obtain ⟨j, i, d', hs⟩ := exists_worker_step h.toInv hth hphase
    exact ⟨.worker j i, d', rfl, .of_worker hs, fun id hid => by cases hid⟩

/-- **The daemon can take a step exactly if it has not halted.** -/
theorem exists_own_step_iff (h : d.Ending) :
    (∃ e d', DaemonEvent.own e ∧ StepAmong others d e d') ↔ ¬ Halted others d := by
  refine ⟨?_, fun hnot => ?_⟩
  · rintro ⟨e, d', howns, hs⟩ hhalted
    cases hs.step.move with
    | main create life hlife =>
      rcases hhalted.main with hm | ⟨id, hid, hm⟩
      · exact absurd hlife (by simp [Life.mainStep, hm])
      · exact hs.join create rfl id hid hm
    | pass j i th k hth hk hrun =>
      rw [hhalted.returned th (List.mem_of_getElem? hth)] at hrun
      exact absurd hrun (by decide)
    | thread j i th phase hth hrun hnext =>
      rw [hhalted.returned th (List.mem_of_getElem? hth)] at hnext
      exact absurd hnext (by simp [Phase.next])
    | signal sig log | tick c | insert t r => exact absurd howns Bool.false_ne_true
  · obtain ⟨e, d', howns, hs, -⟩ := exists_own_step h hnot 0
    exact ⟨e, d', howns, hs⟩

theorem run_of_runAmong {es : List DaemonEvent} (h : Run (StepAmong others) d es d') :
    Run Step d es d' := h.mono fun _ _ _ _ hs => hs.step

/-- A run in which no thread is started under an id of another thread, and no creation
that fails leaves one, is a run among them. -/
theorem runAmong_of_run {es : List DaemonEvent} (h : Run Step d es d') (hinv : d.Inv)
    (hnone : JoinsNone others d)
    (hes : ∀ create, DaemonEvent.main create ∈ es → create.threadId ∉ others) :
    Run (StepAmong others) d es d' := by
  induction h with
  | nil => exact .nil _
  | @cons d _ _ e _ hs _ ih =>
    have hfirst : ∀ create, e = .main create → create.threadId ∉ others :=
      fun create he => hes create (he ▸ List.mem_cons_self)
    have hamong : StepAmong others d e _ :=
      ⟨hs, fun id hid he => hfirst _ he hid, fun _ _ _ hid => hnone.main_ne hinv hid⟩
    refine .cons hamong (ih (hinv.move hs.move) ?_ fun create he =>
      hes create (List.mem_cons_of_mem _ he))
    exact hnone.step hinv hamong fun id hid he => hfirst _ he hid

/-- The steps that leave no id of another thread behind use some rank up too. -/
theorem drains_joinsNone : Drains
    (fun d e d' => StepAmong (n := n) others d e d' ∧ ∀ id ∈ others, e ≠ .main (.failed id))
    (fun d => d.Ending ∧ JoinsNone others d) DaemonEvent.own rank where
  stays _ _ _ h hs := ⟨drains.stays _ _ _ h.1 hs.1.step, h.2.step h.1.toInv hs.1 hs.2⟩
  falls _ _ _ h hs := drains.falls _ _ _ h.1 hs.1.step
  keeps _ _ _ h hs := drains.keeps _ _ _ h.1 hs.1.step

end

end Daemon

open Daemon in
/-- **The daemon ends after `SIGINT`.**  The process has other threads, whose ids are
`others`, that go on for as long as the main thread joins, as those of the statistics
object do.  For every configuration, in every state the daemon reaches in which `done` is
set, and whatever happens around it while the clock does not go back: its own threads take
at most `19 * n + 7` more steps, `n` being the number of workers configured; and they can
take one exactly until the threads of the workers have returned and the main thread has
finished or is in a join on one of the others.  In such a join it never is as long as no
creation that failed has left the id of one.  And, unless the others have all ids there
are, the daemon can come to its end exactly if the main thread holds no such id. -/
theorem shutdown_terminates (cfg : Config) (console : Bool)
    (boot : Fin (numWorkers cfg) → Startup) (now : Clock) (db : Tables) (others : Set PthreadT)
    (es : List DaemonEvent) (d : Daemon (numWorkers cfg))
    (h : Run (StepAmong others) (start cfg console boot now db) es d)
    (hdone : d.life.done = true) :
    (∀ es' d', Run (StepAmong others) d es' d' →
      es'.countP DaemonEvent.own ≤ 19 * numWorkers cfg + 7 ∧
      ((∃ e d'', DaemonEvent.own e ∧ StepAmong others d' e d'') ↔ ¬ Halted others d') ∧
      ((∀ id ∈ others, DaemonEvent.main (.failed id) ∉ es ++ es') →
        ∀ id ∈ others, d'.life.main ≠ .join id)) ∧
    ∀ free ∉ others,
      (∃ es' d', (∀ e ∈ es', DaemonEvent.own e) ∧ Run (StepAmong others) d es' d' ∧
        d'.life.main = .finished ∧ ∀ th ∈ d'.life.threads, th.phase = .returned) ↔
      JoinsNone others d := by
  have hrun := run_of_runAmong h
  have hstart : (start cfg console boot now db).Inv := inv_start cfg console boot now db
  have hending : d.Ending := ⟨inv_of_run hrun hstart, hdone⟩
  have hstays : ∀ es' d', Run (StepAmong others) d es' d' → d'.Ending := fun es' d' hrun' =>
    (run_of_runAmong hrun').invariant drains.stays hending
  refine ⟨fun es' d' hrun' => ⟨?_, exists_own_step_iff (hstays es' d' hrun'), ?_⟩,
    fun free hfree => ⟨?_, fun hnone => ?_⟩⟩
  · obtain ⟨ess, -, hlife⟩ := shows_life hrun
    have hcount := drains.countP_add_le (run_of_runAmong hrun') hending
    have hrank := rank_le hending.toInv (Life.progress_of_run hlife)
    omega
  · intro hjunk id hid
    have hnone : JoinsNone others d' :=
      JoinsNone.run (h.append hrun') hstart (by simp [JoinsNone, Life.toJoin, start, Life.start])
        hjunk
    exact hnone.main_ne (hstays es' d' hrun').toInv hid
  · rintro ⟨es', d', -, hrun', hfinished, -⟩
    by_contra hsome
    have hend : d'.Ending ∧ ¬ JoinsNone others d' := by
      refine hrun'.invariant (P := fun x => x.Ending ∧ ¬ JoinsNone others x) ?_ ⟨hending, hsome⟩
      rintro x e x' ⟨hx, hnot⟩ hs
      exact ⟨drains.stays _ _ _ hx hs.step, not_joinsNone_step hx.toInv hnot hs⟩
    exact hend.2 (joinsNone_of_finished hend.1.toInv hfinished)
  · obtain ⟨es', d', howns, hrun', hhalted⟩ := drains_joinsNone.exists_run (Halted others)
      (fun x hx hnot => by
        obtain ⟨e, x', he, hs, hjunk⟩ := exists_own_step hx.1 hnot free
        exact ⟨e, x', he, hs, fun id hid heq => hfree (hjunk id heq ▸ hid)⟩)
      ⟨hending, hnone⟩
    have hend := hrun'.invariant drains_joinsNone.stays ⟨hending, hnone⟩
    refine ⟨es', d', howns, hrun'.mono fun _ _ _ _ hs => hs.1, ?_, hhalted.returned⟩
    rcases hhalted.main with hm | ⟨id, hid, hm⟩
    · exact hm
    · exact absurd hm (hend.2.main_ne hend.1.toInv hid)

/-- One worker, and `SIGINT` while it is at its `DELETE` from `packet`. -/
theorem Daemon.interrupted : ∃ d, Run Step oneWorker (startedUp 5 ++ [.signal .sigint]) d ∧
    d.life.done = true ∧ d.life.workers = [7] ∧ d.life.main = .waitDone := by
  obtain ⟨d, hd⟩ := Option.isSome_iff_exists.mp
    (show (steps Daemon.step oneWorker (startedUp 5 ++ [.signal .sigint])).isSome by decide)
  have hstate : (steps Daemon.step oneWorker (startedUp 5 ++ [.signal .sigint])).map
      (fun d => (d.life.done, d.life.workers, d.life.main)) = some (true, [7], .waitDone) := by
    decide
  rw [hd, Option.map_some, Option.some.injEq, Prod.mk.injEq, Prod.mk.injEq] at hstate
  refine ⟨d, run_of_untimed (fun c hc => ?_) hd, hstate⟩
  rcases List.mem_append.mp hc with hc | hc
  · exact tick_notMem_startedUp 5 c hc
  · simp at hc

open Daemon in
/-- The statistics object has a thread with the id 8, which is not joined. -/
theorem interrupted_worker_ends :
    ∃ d es' d', Run (StepAmong {8}) oneWorker (startedUp 5 ++ [.signal .sigint]) d ∧
      Run (StepAmong {8}) d es' d' ∧ d'.life.main = .finished := by
  obtain ⟨d, hrun, hdone, hworkers, hmain⟩ := interrupted
  have hamong : Run (StepAmong {8}) oneWorker (startedUp 5 ++ [.signal .sigint]) d := by
    refine runAmong_of_run hrun (inv_start _ _ _ _ _) ?_ fun create he => ?_
    · simp [JoinsNone, Life.toJoin, oneWorker, start, Life.start]
    · simp only [startedUp, List.mem_append, List.mem_replicate, List.mem_singleton] at he
      rcases he with (⟨-, he⟩ | ⟨-, he⟩) | he
      · obtain rfl := DaemonEvent.main.inj he
        exact (by decide : (7 : PthreadT) ≠ 8)
      · cases he
      · cases he
  have hnone : JoinsNone {8} d := by simp [JoinsNone, Life.toJoin, hworkers, hmain]
  obtain ⟨es', d', -, hrun', hfinished, -⟩ :=
    ((shutdown_terminates _ _ _ _ _ {8} _ d hamong hdone).2 7 (by decide)).mpr hnone
  exact ⟨d, es', d', hamong, hrun', hfinished⟩

end AprsPruner
