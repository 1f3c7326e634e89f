import AprsPruner.KeepUp

/-!
# Which rows are sure to go

The `DELETE` has a `LIMIT` and no `ORDER BY`: of more due rows than the limit MySQL may
take any, and it may pass the same row over every time.  So a row is sure to go only at a
pass that leaves no due row behind, and the backlog tells which passes do.

## Main definitions

* `SameButPicks` — the same passes but for what MySQL picks in them.
* `Picker.sparing` — the choice that passes a row over while it can.

## Main results

* `mem_of_never_emptied` — MySQL may keep a row until the backlog is empty.
* `sure_to_go_iff` — **when a row is gone whatever MySQL picks.**
-/

namespace AprsPruner

open BatchPrune App Backlog

/-! ### What MySQL picks -/

/-- The pass with other choices of MySQL. -/
def PassRound.repick (p : Table → Picker) (r : PassRound) : PassRound :=
  { r with input := { r.input with packetPicker := p .packet, rawPicker := p .raw } }

/-- The same passes but for what MySQL picks in them. -/
def SameButPicks : List PassRound → List PassRound → Prop :=
  List.Forall₂ fun r r' => ∃ p, r' = r.repick p

/-- MySQL's choice that passes a row over while it can. -/
def Picker.sparing (x : Row) (p : Picker) : Picker where
  pick rows cutoff limit :=
    if limit < (expired rows cutoff).card then p.pick (rows.erase x) cutoff limit
    else expired rows cutoff
  isBatch rows cutoff limit := by
    split
    · next hlt => exact (p.isBatch _ cutoff limit).of_erase hlt
    · next hge => exact ⟨Finset.Subset.refl _, (min_eq_right (not_lt.mp hge)).symm⟩

/-- The pass in which MySQL passes a row over while it can. -/
def PassRound.spare (x : Row) (r : PassRound) : PassRound :=
  r.repick fun t => (r.input.picker t).sparing x

theorem sameButPicks_spare (x : Row) (rounds : List PassRound) :
    SameButPicks rounds (rounds.map (PassRound.spare x)) := by
  induction rounds with
  | nil => exact .nil
  | cons r rs ih => exact .cons ⟨_, rfl⟩ ih

theorem PassRound.picker_spare (x : Row) (r : PassRound) (t : Table) :
    (r.spare x).input.picker t = (r.input.picker t).sparing x := by
  cases t <;> rfl

theorem Picker.notMem_sparing {x : Row} {p : Picker} {rows : Finset Row} {cutoff : ℤ} {limit : ℕ}
    (h : limit < (expired rows cutoff).card) : x ∉ (p.sparing x).pick rows cutoff limit := by
  have hpick : (p.sparing x).pick rows cutoff limit = p.pick (rows.erase x) cutoff limit :=
    if_pos h
  rw [hpick]
  exact fun hx => Finset.notMem_erase x rows ((p.isBatch _ cutoff limit).subset_live hx)

variable {t : Table} {x : Row}

/-! ### What is gone -/

/-- A pass brings no row back. -/
theorem tables_run_subset (r : PassRound) (w : Worker) (db : Tables) :
    (w.run r.stats r.connectedTo r.input db).tables t ⊆ db t := by
  rw [Worker.tables_run, Worker.tables_tryDeletes]
  split
  · exact DBI.tables_deleteBefore_subset t t
  · exact Finset.Subset.refl _

/-- **A row that is gone stays gone**, as what is inserted is new. -/
theorem stays_gone {rounds rounds' : List PassRound} (hsame : SameButPicks rounds rounds') :
    ∀ {w : Worker} {db : Tables} {seen : Finset Row}, x ∈ seen → x ∉ db t →
      Fresh seen (lots t rounds) → x ∉ (passes w db rounds').2 t := by
  induction hsame with
  | nil => exact fun _ hgone _ => hgone
  | @cons r r' rs rs' hr _ ih =>
    obtain ⟨p, rfl⟩ := hr
    rintro w db seen hx hgone ⟨hnew, hfresh⟩
    refine ih (Finset.mem_union_left _ hx) (fun hback => ?_) hfresh
    have hmem := tables_run_subset (r.repick p) w _ hback
    rcases Finset.mem_union.mp hmem with hold | hnew'
    · exact hgone hold
    · exact Finset.disjoint_left.mp hnew hx hnew'

theorem notMem_of_backlog_eq_zero {db : Tables} {c : ℤ} (h : backlog db t c = 0)
    (hx : x.createTs < c) : x ∉ db t := by
  intro hmem
  have hnone := Finset.card_eq_zero.mp h
  exact Finset.notMem_empty x (hnone ▸ mem_below.mpr ⟨hmem, hx⟩)

/-- **A pass that leaves no due row has taken the row**, whatever MySQL picks before it
and after. -/
theorem notMem_of_emptied {age : Int64} {limit : UInt64} (hage : InInt age.toInt)
    {rounds rounds' : List PassRound} (hsame : SameButPicks rounds rounds') :
    ∀ {w : Worker} {db : Tables} {seen : Finset Row} {c : ℤ}, w.maxAge t = age →
      w.maxLimit t = limit → Standing t seen c db → Fresh seen (lots t rounds) →
      Onward t age.toInt c rounds → ∀ ps, ps <+: rounds → x ∈ seenAfter seen (lots t ps) →
      x.createTs < lastCutoff t age.toInt c ps →
      level (backlog db t c) (slots t age.toInt limit.toNat seen c ps) = 0 →
      x ∉ (passes w db rounds').2 t := by
  induction hsame with
  | nil =>
    rintro w db seen c - - - - - ps hps hseen hdue hzero
    obtain rfl := List.prefix_nil.mp hps
    exact notMem_of_backlog_eq_zero hzero hdue
  | @cons r r' rs rs' hr hrest ih =>
    rintro w db seen c rfl rfl h ⟨hnew, hfresh⟩ ⟨hc, honward⟩ ps hps hseen hdue hzero
    cases ps with
    | nil =>
      have hgone := notMem_of_backlog_eq_zero hzero hdue
      exact stays_gone (.cons hr hrest) hseen hgone ⟨hnew, hfresh⟩
    | cons r₀ ps =>
      obtain ⟨rfl, hps'⟩ := List.cons_prefix_cons.mp hps
      obtain ⟨p, rfl⟩ := hr
      obtain ⟨hstanding, hbacklog⟩ := h.pass (r₀.repick p) hage hnew hc
      obtain ⟨hage', hlimit'⟩ := Worker.settings_run (r₀.repick p).stats (r₀.repick p).connectedTo
        (r₀.repick p).input w (insertAll r₀.inserts db)
      rw [slots, level_cons] at hzero
      rw [lastCutoff_cons] at hdue
      refine ih (congrFun hage' t) (congrFun hlimit' t) hstanding hfresh honward ps hps' hseen
        hdue ?_
      rw [hbacklog]
      exact hzero

/-! ### What MySQL may keep -/

/-- A pass that leaves a due row may leave this one. -/
theorem mem_run_spare {w : Worker} {db : Tables} (r : PassRound) (hage : InInt (w.maxAge t).toInt)
    (hx : x ∈ db t)
    (hmore : x.createTs < r.cutoff t (w.maxAge t).toInt → r.service t (w.maxLimit t).toNat <
      (expired (db t) (r.cutoff t (w.maxAge t).toInt)).card) :
    x ∈ (w.run r.stats r.connectedTo (r.spare x).input db).tables t := by
  obtain ⟨R, hR, hpick, hleft⟩ := exists_batch_run (r.spare x) db hage
  have hleft : (w.run r.stats r.connectedTo (r.spare x).input db).tables t = db t \ R := hleft
  rw [hleft, Finset.mem_sdiff]
  refine ⟨hx, fun hxR => ?_⟩
  have hmem := hpick hxR
  rw [PassRound.picker_spare] at hmem
  exact Picker.notMem_sparing (hmore (hR.key_lt hxR)) hmem

/-- **MySQL may keep a row until the backlog is empty**: if no pass at which the row is
due leaves no due row behind, the choice that spares it keeps it. -/
theorem mem_of_never_emptied {age : Int64} {limit : UInt64} (hage : InInt age.toInt) :
    ∀ (rounds : List PassRound) (w : Worker) (db : Tables) (seen : Finset Row) (c : ℤ),
      w.maxAge t = age → w.maxLimit t = limit → Standing t seen c db →
      Fresh seen (lots t rounds) → Onward t age.toInt c rounds → (x ∈ seen → x ∈ db t) →
      (∀ ps, ps <+: rounds → x ∈ seenAfter seen (lots t ps) →
        x.createTs < lastCutoff t age.toInt c ps →
        level (backlog db t c) (slots t age.toInt limit.toNat seen c ps) ≠ 0) →
      x ∈ seenAfter seen (lots t rounds) →
      x ∈ (passes w db (rounds.map (PassRound.spare x))).2 t := by
  intro rounds
  induction rounds with
  | nil => exact fun w db seen c _ _ _ _ _ hlive _ hseen => hlive hseen
  | cons r rs ih =>
    rintro w db seen c rfl rfl h ⟨hnew, hfresh⟩ ⟨hc, honward⟩ hlive hnever hseen
    obtain ⟨hstanding, hbacklog⟩ := h.pass (r.spare x) hage hnew hc
    obtain ⟨hage', hlimit'⟩ := Worker.settings_run (r.spare x).stats (r.spare x).connectedTo
      (r.spare x).input w (insertAll r.inserts db)
    refine ih _ _ _ _ (congrFun hage' t) (congrFun hlimit' t) hstanding hfresh honward ?_ ?_ hseen
    · intro hx
      have hthere : x ∈ insertAll r.inserts db t :=
        (Finset.mem_union.mp hx).elim (fun hx => Finset.mem_union_left _ (hlive hx))
          (Finset.mem_union_right _)
      refine mem_run_spare r hage hthere fun hdue => ?_
      -- the row is due, so this pass leaves some row that is
      have hleft := hnever [r] (List.prefix_append [r] rs) hx (by simpa [lastCutoff] using hdue)
      have hunion := card_expired_union h.subset h.kept hnew hc
      rw [slots, level_cons, slots, level_nil, backlog, ← hunion] at hleft
      exact Nat.lt_of_sub_ne_zero hleft
    · intro ps hps hx hdue
      have hlevel := hnever (r :: ps) (List.cons_prefix_cons.mpr ⟨rfl, hps⟩) hx
        (by rw [lastCutoff_cons]; exact hdue)
      rw [slots, level_cons] at hlevel
      rw [hbacklog]
      exact hlevel

/-! ### When a row is gone -/

/-- **When a row is gone whatever MySQL picks.**  Over the passes of a configured worker,
whatever is inserted and whichever attempts fail, while the clock does not go back: a row
that was there or is inserted is sure to be gone in the end exactly if it was due at some
pass that left the backlog of the slots empty; otherwise there are choices of MySQL's under
which it is still there. -/
theorem sure_to_go_iff (cfg : Config) (id : UInt32) (console : Bool) (m : Startup) (t : Table)
    (db : Tables) (rounds : List PassRound) (c : ℤ) (x : Row)
    (hfresh : Fresh (db t) (lots t rounds))
    (hclock : Onward t (ageSetting cfg t).toInt c rounds)
    (hx : x ∈ seenAfter (db t) (lots t rounds)) :
    let w := workerThread cfg id console m
    let age := (ageSetting cfg t).toInt
    (∀ rounds', SameButPicks rounds rounds' → x ∉ (passes w db rounds').2 t) ↔
      ∃ ps, ps <+: rounds ∧ x ∈ seenAfter (db t) (lots t ps) ∧ x.createTs < lastCutoff t age c ps ∧
        level (backlog db t c)
          (slots t age (sizeOfInt (limitSetting cfg t)).toNat (db t) c ps) = 0 := by
  intro w age
  have hage : (ageSetting cfg t).toInt64.toInt = age := Int32.toInt_toInt64 _
  have hclock' : Onward t (ageSetting cfg t).toInt64.toInt c rounds := by rwa [hage]
  have hstanding : Standing t (db t) c db := ⟨Finset.Subset.refl _, fun r hr _ => hr⟩
  constructor
  · intro hsure
    by_contra hnever
    push Not at hnever
    refine hsure _ (sameButPicks_spare x rounds) ?_
    refine mem_of_never_emptied (inInt_toInt64 (ageSetting cfg t)) rounds w db (db t) c
      (maxAge_workerThread cfg id console m t) (maxLimit_workerThread cfg id console m t) hstanding
      hfresh hclock' (fun hx => hx) ?_ hx
    rwa [hage]
  · rintro ⟨ps, hps, hseen, hdue, hzero⟩ rounds' hsame
    rw [← hage] at hdue hzero
    exact notMem_of_emptied (inInt_toInt64 (ageSetting cfg t)) hsame
      (maxAge_workerThread cfg id console m t) (maxLimit_workerThread cfg id console m t) hstanding
      hfresh hclock' ps hps hseen hdue hzero

/-- Two passes with a limit of one row: of the rows of 1000 and 1001 none is left, whichever
MySQL picks first. -/
theorem two_passes_sure :
    let cfg := (Config.ofInt "app.threads.worker" 1).setInt "app.threads.worker.limit.packet" 1
    let round : PassRound :=
      ⟨fun _ => ∅, .still (.ofEpoch 2000000), "", ⟨true, .ofEpoch 2000000, Picker.inOrder,
        .succeeds, .ofEpoch 2000000, Picker.inOrder, .succeeds, "0"⟩⟩
    let db : Tables := fun _ => {⟨1, 1000, []⟩, ⟨2, 1001, []⟩}
    ∀ rounds', SameButPicks [round, round] rounds' →
      ⟨2, 1001, []⟩ ∉
        (passes (workerThread cfg 1 false (.still (.ofEpoch 2000000))) db rounds').2 .packet := by
  intro cfg round db
  refine (sure_to_go_iff cfg 1 false (.still (.ofEpoch 2000000)) .packet db [round, round] 0
    ⟨2, 1001, []⟩ ⟨Finset.disjoint_empty_right _, Finset.disjoint_empty_right _, trivial⟩
    ⟨by decide, by decide, trivial⟩ (by decide)).mpr ?_
  exact ⟨[round, round], List.prefix_refl _, by decide, by decide, by decide +kernel⟩

end AprsPruner
