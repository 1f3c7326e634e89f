import AprsPruner.Lib.Batches
import AprsPruner.StoreStats

/-!
# What a store reports

A store has two windows, and each is reported on its own: `_stompstats` is published by
either pass, `_stats` is printed by `try_stats` only.  The reports of a window cut what
happens to a store into batches.  Each report is of what was counted in the window since
the last one, starting from 0, and it is made at the first pass that comes a report
interval or more after the last reset.

## Main definitions

* `Store.Event.readings` — the clock as an event reads it for a window.
* `Store.DueAt` — a report of a window is due.
* `Store.Represents` — a window stands for the events since its last report.

## Main results

* `Store.represents_step` — what one event does to what a window stands for.
* `Store.reports_batches` — **the reports of a window, over any history.**
-/

namespace AprsPruner

open Transition

namespace Store

/-! ### Events and one window -/

/-- The readings of the clock by which an event passes over a window: the one that decides
whether a report is due, and the one that the window is reset with. -/
def Event.readings : WindowName → Event → Option (Clock × Clock)
  | .stats, .tryStats _ r => some (r.guard, r.init)
  | .stompstats, .tryStats _ r => some (r.stompGuard, r.stompInit)
  | .stompstats, .tryStompstats guard init => some (guard, init)
  | .stats, .tryStompstats _ _ => none
  | _, .count _ _ _ => none

/-- A report is due at an event that passes over the window, if the window was reset an
interval before. -/
def DueAt (w : WindowName) (interval : ℤ) (resetAt : ℤ) (e : Event) : Prop :=
  ∃ r ∈ e.readings w, resetAt + interval ≤ r.1.secs

/-- When an event resets a window. -/
def Event.resetAt (w : WindowName) (e : Event) : ℤ := (e.readings w).elim 0 fun r => r.2.secs

/-- The part of a report that is about a window. -/
def Reported.about : WindowName → Reported → Reported
  | .stats, r => ⟨[], r.printed⟩
  | .stompstats, r => ⟨r.published, []⟩

/-- What is reported of the counters of a window, at an event at which it is due. -/
def Event.report (percent : UInt32 → UInt32 → ℚ) (w : WindowName) (e : Event)
    (counters : ∀ m : Member, m.Stats) : Reported :=
  match w, e with
  | .stompstats, _ => ⟨(published percent).report counters, []⟩
  | .stats, .tryStats average _ => ⟨[], (printed percent average).report counters⟩
  | .stats, _ => ⟨[], []⟩

/-- What is counted in a window, from 0. -/
def counted (w : WindowName) (es : List Event) : ∀ m : Member, m.Stats :=
  Window.total Member.zero (es.map (Event.on w))

theorem counted_append_singleton (w : WindowName) (es : List Event) (e : Event) :
    counted w (es ++ [e]) = (e.on w).apply (counted w es) := by
  rw [counted, counted, Window.total, List.map_append, List.foldl_append]
  rfl

variable {w : WindowName} {s : Store} {e : Event}

/-- An event without readings reports nothing of the window, and only counts in it. -/
theorem step_of_readings_eq_none (percent : UInt32 → UInt32 → ℚ) (s : Store)
    (h : e.readings w = none) :
    (s.step percent e).2.about w = ⟨[], []⟩ ∧
      ((s.step percent e).1.window w).counters = (e.on w).apply (s.window w).counters ∧
      ((s.step percent e).1.window w).lastReportAt = (s.window w).lastReportAt ∧
      ((s.step percent e).1.window w).reportInterval = (s.window w).reportInterval := by
  cases e with
  | count w' m f => cases w' <;> cases w <;> exact ⟨rfl, rfl, rfl, rfl⟩
  | tryStompstats guard init =>
    cases w with
    | stats =>
      rw [step, window, window, stats_tryStompstats]
      exact ⟨rfl, rfl, rfl, rfl⟩
    | stompstats => cases h
  | tryStats average r => cases w <;> cases h

/-- A pass over a window that is not due leaves it; else it reports and resets it. -/
theorem step_of_readings (percent : UInt32 → UInt32 → ℚ) (s : Store) {guard init : Clock}
    (h : e.readings w = some (guard, init)) :
    ((s.window w).lastReportAt > guard.time - (s.window w).reportInterval →
      (s.step percent e).2.about w = ⟨[], []⟩ ∧ (s.step percent e).1.window w = s.window w) ∧
    (¬ (s.window w).lastReportAt > guard.time - (s.window w).reportInterval →
      (s.step percent e).2.about w = e.report percent w (s.window w).counters ∧
        (s.step percent e).1.window w = initStats init none (s.window w)) := by
  cases e with
  | count w' m f => cases w <;> cases h
  | tryStompstats guard' init' =>
    cases w with
    | stats => cases h
    | stompstats =>
      cases h
      rw [step, tryStompstats, window, window]
      constructor
      · intro hlt
        rw [if_pos hlt]
        exact ⟨rfl, rfl⟩
      · intro hlt
        rw [if_neg hlt]
        exact ⟨rfl, rfl⟩
  | tryStats average r =>
    cases w with
    | stats =>
      cases h
      rw [step, tryStats, window, window, reportStats, stats_tryStompstats]
      constructor
      · intro hlt
        rw [if_pos hlt]
        exact ⟨rfl, stats_tryStompstats _ _ _⟩
      · intro hlt
        rw [if_neg hlt]
        exact ⟨rfl, rfl⟩
    | stompstats =>
      cases h
      rw [step, tryStats, window, window, stompstats_reportStats, tryStompstats]
      constructor
      · intro hlt
        rw [if_pos hlt]
        exact ⟨rfl, rfl⟩
      · intro hlt
        rw [if_neg hlt]
        exact ⟨rfl, rfl⟩

/-- What is reported of a window depends on what `init_stats` clears. -/
theorem report_congr (percent : UInt32 → UInt32 → ℚ) (w : WindowName) (e : Event)
    {c c' : ∀ m : Member, m.Stats} (h : ∀ m ∈ cleared, c m = c' m) :
    e.report percent w c = e.report percent w c' := by
  cases w with
  | stompstats =>
    exact congrArg (Reported.mk · []) (Table.report_congr (published_cleared percent) h)
  | stats =>
    cases e with
    | tryStats average r =>
      exact congrArg (Reported.mk []) (Table.report_congr (printed_cleared percent average) h)
    | count | tryStompstats => rfl

/-! ### What a window stands for -/

/-- A window stands for the events `es` since it was last reset: it holds what was counted
in them, but for the members that `init_stats` forgets. -/
structure Represents (w : WindowName) (interval : Int64) (s : Store) (resetAt : ℤ)
    (es : List Event) : Prop where
  /-- What `init_stats` clears holds what was counted. -/
  counters : ∀ m ∈ cleared, (s.window w).counters m = counted w es m
  /-- The last reset was at this second. -/
  lastReportAt : (s.window w).lastReportAt.toInt = resetAt
  /-- The report interval is the one it was given. -/
  reportInterval : (s.window w).reportInterval = interval

section Represents

variable {interval : Int64} {resetAt : ℤ} {es : List Event}

/-- The test that `try_stats` and `try_stompstats` begin with. -/
theorem Represents.guard_iff (h : Represents w interval s resetAt es) (hfits : InInt interval.toInt)
    (guard : Clock) :
    (s.window w).lastReportAt > guard.time - (s.window w).reportInterval ↔
      ¬ resetAt + interval.toInt ≤ guard.secs := by
  rw [h.reportInterval, gt_iff_lt, Int64.lt_iff_toInt_lt, guard.secs_sub hfits, h.lastReportAt]
  omega

/-- **What one event does to what a window stands for**: if a report is due, it is of that,
and the window is reset; else the event is one more. -/
theorem represents_step (percent : UInt32 → UInt32 → ℚ) (hfits : InInt interval.toInt)
    (h : Represents w interval s resetAt es) (e : Event) :
    (¬ DueAt w interval.toInt resetAt e → (s.step percent e).2.about w = ⟨[], []⟩ ∧
      Represents w interval (s.step percent e).1 resetAt (es ++ [e])) ∧
    (DueAt w interval.toInt resetAt e →
      (s.step percent e).2.about w = e.report percent w (counted w es) ∧
        Represents w interval (s.step percent e).1 (e.resetAt w) []) := by
  cases hr : e.readings w with
  | none =>
    obtain ⟨hout, hcounters, hlast, hinterval⟩ := step_of_readings_eq_none percent s hr
    refine ⟨fun _ => ⟨hout, fun m hm => ?_, ?_, ?_⟩, fun ⟨r, hmem, _⟩ => ?_⟩
    · rw [hcounters, counted_append_singleton]
      exact Window.total_congr (h.counters m hm) [e.on w]
    · rw [hlast, h.lastReportAt]
    · rw [hinterval, h.reportInterval]
    · rw [hr] at hmem
      cases hmem
  | some r =>
    obtain ⟨hearly, hlate⟩ := step_of_readings percent s hr
    have hdue : DueAt w interval.toInt resetAt e ↔ resetAt + interval.toInt ≤ r.1.secs := by
      rw [DueAt, hr]
      simp
    have hpass : e.on w = .pass := by
      cases e with
      | count => cases w <;> cases hr
      | tryStompstats | tryStats => rfl
    rw [h.guard_iff hfits, ← hdue] at hearly hlate
    constructor
    · intro hnot
      obtain ⟨hout, hsame⟩ := hearly hnot
      refine ⟨hout, fun m hm => ?_, ?_, ?_⟩
      · rw [hsame, counted_append_singleton, hpass, h.counters m hm]
        rfl
      · rw [hsame, h.lastReportAt]
      · rw [hsame, h.reportInterval]
    · intro hyes
      obtain ⟨hout, hreset⟩ := hlate (not_not_intro hyes)
      refine ⟨?_, fun m hm => ?_, ?_, ?_⟩
      · rw [hout, report_congr percent w e h.counters]
      · rw [hreset, counters_initStats _ _ _ hm]
        rfl
      · rw [hreset, Event.resetAt, hr]
        rfl
      · rw [hreset]
        exact h.reportInterval

end Represents

/-! ### Over a history -/

/-- The report interval of a window. -/
def History.interval (h : History) : WindowName → Int64
  | .stats => h.reportInterval
  | .stompstats => 5

/-- When the constructor resets a window. -/
def Startup.resetAt (m : Startup) : WindowName → ℤ
  | .stats => m.statsNow.secs
  | .stompstats => m.stompNow.secs

/-- What is reported over a history. -/
def History.reports (percent : UInt32 → UInt32 → ℚ) (h : History) : List Reported :=
  outputs (step percent) (construct h.reportInterval h.startup) h.events

/-- A window that was just built stands for nothing. -/
theorem represents_construct (h : History) (w : WindowName) :
    Represents w (h.interval w) (construct h.reportInterval h.startup) (h.startup.resetAt w)
      [] := by
  cases w with
  | stats =>
    exact ⟨fun m hm => counters_initStats h.startup.statsNow (some h.startup.statsCreated)
      h.startup.stats hm, rfl, rfl⟩
  | stompstats =>
    exact ⟨fun m hm => counters_initStats h.startup.stompNow (some h.startup.stompCreated)
      h.startup.stompstats hm, rfl, rfl⟩

/-- **The reports of a window**, over any history, for a report interval that fits in an
`int`: they cut it into batches, at the first pass that comes an interval or more after the
last reset.  Every report is of what was counted in its batch, from 0, and in the end the
members that `init_stats` clears hold what was counted in the rest; the two that it forgets
are never reset. -/
theorem reports_batches (percent : UInt32 → UInt32 → ℚ) (h : History) (w : WindowName)
    (hfits : InInt (h.interval w).toInt) :
    ∃ (batches : List (Batch Event)) (pending : List Event),
      Cuts (DueAt w (h.interval w).toInt) (Event.resetAt w) (h.startup.resetAt w) batches
        pending ∧
      h.events = batches.flatMap Batch.all ++ pending ∧
      (h.reports percent).map (Reported.about w) =
        batches.flatMap (Batch.answers (fun es e => e.report percent w (counted w es)) ⟨[], []⟩) ++
          pending.map (fun _ => ⟨[], []⟩) ∧
      ∀ m ∈ cleared, ((h.final percent).window w).counters m = counted w pending m := by
  obtain ⟨batches, pending, hcuts, hevents, hreports, resetAt, hfinal⟩ :=
    exists_cuts (translate (step percent) id fun _ => Reported.about w)
      (fun s resetAt es => Represents w (h.interval w) s resetAt es)
      (fun s _ _ e hs => (represents_step percent hfits hs e).1)
      (fun s _ _ e hs => (represents_step percent hfits hs e).2)
      h.events _ _ [] (represents_construct h w) (by simp)
  refine ⟨batches, pending, hcuts, hevents, ?_, ?_⟩
  · rw [History.reports, map_outputs, ← hreports, List.map_nil, List.nil_append]
  · rw [finalState_translate] at hfinal
    exact hfinal.counters

/-- One try to read a callsign. -/
def callsignTried : Event :=
  .count .stompstats (.sql .callsign) fun s => { s with tries := s.tries + 1 }

/-- Two tries and two passes, of which the first comes too early. -/
def twoTries : History where
  reportInterval := kDefaultReportInterval
  startup := dirtyHistory.startup
  events := [callsignTried, .tryStompstats (.ofEpoch 1004) (.ofEpoch 1004), callsignTried,
    .tryStompstats (.ofEpoch 1005) (.ofEpoch 1005)]

/-- The second pass reports both. -/
theorem twoTries_batches :
    (twoTries.reports fun _ _ => 0).map (fun r => (r.published.map Point.value).head?) =
        [none, none, none, some (.count 2)] ∧
      InInt (twoTries.interval .stompstats).toInt ∧
      ∃ (batches : List (Batch Event)) (pending : List Event),
        Cuts (DueAt .stompstats (twoTries.interval .stompstats).toInt) (Event.resetAt .stompstats)
          (twoTries.startup.resetAt .stompstats) batches pending ∧
        twoTries.events = batches.flatMap Batch.all ++ pending ∧
        (twoTries.reports fun _ _ => 0).map (Reported.about .stompstats) =
          batches.flatMap (Batch.answers
            (fun es e => e.report (fun _ _ => 0) .stompstats (counted .stompstats es))
            ⟨[], []⟩) ++ pending.map (fun _ => ⟨[], []⟩) ∧
        ∀ m ∈ cleared, ((twoTries.final fun _ _ => 0).window .stompstats).counters m =
          counted .stompstats pending m :=
  ⟨rfl, by decide, reports_batches _ twoTries .stompstats (by decide)⟩

end Store

end AprsPruner
