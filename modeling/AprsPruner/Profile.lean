import Mathlib
import AprsPruner.Basic
import AprsPruner.Lib.RunningMean

/-!
# The profile of a running time

`CALC_PROFILE` counts a running time into a `profile_stats_t`: it keeps the number
of the samples and their mean, in microseconds, both in an `int`.  C++ leaves an
`int` expression undefined whose value does not fit, and a division by zero; here
the macro then has no value.

From a cleared member, the macro is defined for the first `2 ^ 31 - 1` samples.  Its
mean stays among the samples, and is off by what the divisions cut off.

## Main definitions

* `intValue`, `intDiv` — the value of an `int` expression, if it has one.
* `ProfileStats`, `calcProfile` — the member and the macro.
* `calcProfiles` — the macro, once for every sample.

## Main results

* `calcProfile_eq_some_iff` — the specification of the macro.
* `profile_safe` — **nothing overflows and the mean stays among the samples.**
* `profile_accuracy` — **how far the mean may be off.**
-/

namespace AprsPruner

/-! ### Arithmetic of `int` -/

/-- The value of an `int` expression; one that does not fit is undefined. -/
def intValue (z : ℤ) : Option Int32 := if InInt z then some (.ofInt z) else none

/-- `x / y`, cut off towards zero. -/
def intDiv (x y : Int32) : Option Int32 :=
  if y = 0 then none else intValue (x.toInt.tdiv y.toInt)

theorem intValue_eq_some_iff {z : ℤ} {x : Int32} : intValue z = some x ↔ x.toInt = z := by
  rw [intValue]
  split
  · next h =>
    have hz : (Int32.ofInt z).toInt = z := Int32.toInt_ofInt_of_le h.1 h.2
    rw [Option.some.injEq, ← Int32.toInt_inj, hz, eq_comm]
  · next h =>
    refine iff_of_false (by simp) fun hx => ?_
    exact h (hx ▸ inInt_toInt x)

/-- What fits has a value. -/
theorem exists_intValue {z : ℤ} (h : InInt z) : ∃ x, intValue z = some x :=
  ⟨.ofInt z, if_pos h⟩

theorem intDiv_eq_some_iff {x y z : Int32} :
    intDiv x y = some z ↔ y.toInt ≠ 0 ∧ z.toInt = x.toInt.tdiv y.toInt := by
  have hzero : y = 0 ↔ y.toInt = 0 := by rw [← Int32.toInt_inj, Int32.toInt_zero]
  rw [intDiv]
  split
  · next h => simp [hzero.mp h]
  · next h => rw [intValue_eq_some_iff, and_iff_right (mt hzero.mpr h)]

/-! ### The macro -/

/-- A floating-point number converted to an integer type: it is cut off towards zero. -/
def truncate (x : ℚ) : ℤ := if 0 ≤ x then ⌊x⌋ else ⌈x⌉

/-- The whole microseconds of a running time in seconds. -/
def microseconds (b : ℚ) : ℤ := truncate (b * 1000000)

/-- `Store::profile_stats_t`. -/
structure ProfileStats where
  /-- The running mean. -/
  mean : Int32
  /-- How many samples it is of. -/
  count : Int32
  deriving DecidableEq, Repr

/-- `CALC_PROFILE`, in exact arithmetic where the source has a `double`. -/
def calcProfile (a : ProfileStats) (b : ℚ) : Option ProfileStats := do
  let count ← intValue (a.count.toInt + 1)
  let oldmean := a.mean
  let ms ← intValue (microseconds b)
  let difference ← intValue (ms.toInt - oldmean.toInt)
  let part ← intDiv difference count
  let mean ← intValue (a.mean.toInt + part.toInt)
  return ⟨mean, count⟩

/-- `CALC_PROFILE` for one sample after the other. -/
def calcProfiles (a : ProfileStats) (bs : List ℚ) : Option ProfileStats := bs.foldlM calcProfile a

/-- No expression of the macro overflows, and its divisor is not zero. -/
structure Defined (a : ProfileStats) (b : ℚ) : Prop where
  /-- `++a.count` does not overflow. -/
  count : InInt (a.count.toInt + 1)
  /-- The division is not by zero. -/
  divisor : a.count.toInt + 1 ≠ 0
  /-- The microseconds fit in an `int`. -/
  sample : InInt (microseconds b)
  /-- Their difference from the mean does. -/
  difference : InInt (microseconds b - a.mean.toInt)
  /-- The quotient does. -/
  part : InInt ((microseconds b - a.mean.toInt).tdiv (a.count.toInt + 1))
  /-- The new mean does. -/
  sum : InInt (a.mean.toInt + (microseconds b - a.mean.toInt).tdiv (a.count.toInt + 1))

/-- **The specification of the macro.** -/
theorem calcProfile_eq_some_iff {a p : ProfileStats} {b : ℚ} :
    calcProfile a b = some p ↔
      Defined a b ∧ p.count.toInt = a.count.toInt + 1 ∧
        p.mean.toInt =
          a.mean.toInt + (microseconds b - a.mean.toInt).tdiv (a.count.toInt + 1) := by
  simp only [calcProfile, Option.bind_eq_bind, Option.bind_eq_some_iff, Option.pure_def,
    Option.some.injEq, intValue_eq_some_iff, intDiv_eq_some_iff]
  constructor
  · rintro ⟨count, hcount, ms, hms, difference, hdiff, part, ⟨hdivisor, hpart⟩, mean, hmean, rfl⟩
    rw [hms] at hdiff
    rw [hdiff, hcount] at hpart
    rw [hpart] at hmean
    rw [hcount] at hdivisor
    refine ⟨⟨?_, hdivisor, ?_, ?_, ?_, ?_⟩, hcount, hmean⟩
    · exact hcount ▸ inInt_toInt count
    · exact hms ▸ inInt_toInt ms
    · exact hdiff ▸ inInt_toInt difference
    · exact hpart ▸ inInt_toInt part
    · exact hmean ▸ inInt_toInt mean
  · rintro ⟨h, hcount, hmean⟩
    obtain ⟨ms, hms⟩ := exists_intValue h.sample
    obtain ⟨difference, hdiff⟩ := exists_intValue h.difference
    obtain ⟨part, hpart⟩ := exists_intValue h.part
    rw [intValue_eq_some_iff] at hms hdiff hpart
    refine ⟨p.count, hcount, ms, hms, difference, ?_, part, ⟨?_, ?_⟩, p.mean, ?_, rfl⟩
    · rw [hms, hdiff]
    · rw [hcount]
      exact h.divisor
    · rw [hdiff, hcount, hpart]
    · rw [hpart, hmean]

/-! ### A run of the macro -/

/-- The microseconds of a sample are what an `int` holds without a sign. -/
def Sample (b : ℚ) : Prop := 0 ≤ microseconds b ∧ microseconds b < 2 ^ 31

instance (b : ℚ) : Decidable (Sample b) := inferInstanceAs (Decidable (_ ∧ _))

/-- The member holds the number of the samples and their running mean. -/
structure Profiled (bs : List ℚ) (p : ProfileStats) : Prop where
  /-- The samples are counted. -/
  count : p.count.toInt = bs.length
  /-- Their running mean is kept. -/
  mean : p.mean.toInt = RunningMean.mean (bs.map microseconds)

theorem profiled_nil : Profiled [] ⟨0, 0⟩ := ⟨rfl, rfl⟩

variable {bs : List ℚ} {b : ℚ} {p : ProfileStats}

/-- The mean of samples does not leave their range. -/
theorem Profiled.mean_mem (h : Profiled bs p) (hbs : ∀ b ∈ bs, Sample b) :
    0 ≤ p.mean.toInt ∧ p.mean.toInt < 2 ^ 31 := by
  rw [h.mean]
  rcases eq_or_ne bs [] with rfl | hne
  · exact ⟨le_rfl, by decide⟩
  · have hsome : bs.map microseconds ≠ [] := by simpa using hne
    obtain ⟨⟨lo, hlo, hlow⟩, hi, hhi, hhigh⟩ := RunningMean.mean_between hsome
    obtain ⟨x, hx, rfl⟩ := List.mem_map.mp hlo
    obtain ⟨y, hy, rfl⟩ := List.mem_map.mp hhi
    exact ⟨(hbs x hx).1.trans hlow, hhigh.trans_lt (hbs y hy).2⟩

/-- The sum the macro stores is the running mean with one more sample. -/
theorem Profiled.step_eq (h : Profiled bs p) (b : ℚ) :
    p.mean.toInt + (microseconds b - p.mean.toInt).tdiv (p.count.toInt + 1) =
      RunningMean.mean ((bs ++ [b]).map microseconds) := by
  rw [List.map_append, List.map_singleton, RunningMean.mean_snoc, RunningMean.step, ← h.mean,
    h.count, List.length_map]
  rfl

/-- **No expression overflows** before the `2 ^ 31`-th sample. -/
theorem Profiled.defined (h : Profiled bs p) (hbs : ∀ b ∈ bs, Sample b) (hb : Sample b)
    (hlen : bs.length + 1 < 2 ^ 31) : Defined p b := by
  obtain ⟨hlo, hhi⟩ := h.mean_mem hbs
  obtain ⟨hmin, hmax⟩ := hb
  have hcount := h.count
  obtain ⟨hup, hdown⟩ :=
    RunningMean.step_between p.mean.toInt (bs.length + 1) (microseconds b)
  have hstep : RunningMean.step p.mean.toInt (bs.length + 1) (microseconds b) =
      p.mean.toInt + (microseconds b - p.mean.toInt).tdiv (p.count.toInt + 1) := by
    rw [RunningMean.step, h.count]
    rfl
  rw [hstep] at hup hdown
  -- the new mean lies between the old one and the sample
  have hsum : InInt
      (p.mean.toInt + (microseconds b - p.mean.toInt).tdiv (p.count.toInt + 1)) := by
    rw [InInt]
    omega
  refine ⟨?_, ?_, ?_, ?_, ?_, hsum⟩ <;> rw [InInt] at * <;> omega

theorem calcProfiles_append (a : ProfileStats) (seen rest : List ℚ) :
    calcProfiles a (seen ++ rest) =
      (calcProfiles a seen).bind fun p => calcProfiles p rest :=
  List.foldlM_append

/-- **One more sample**: the macro has a value, and it is the running mean. -/
theorem Profiled.step (h : Profiled bs p) (hbs : ∀ b ∈ bs, Sample b) (hb : Sample b)
    (hlen : bs.length + 1 < 2 ^ 31) :
    ∃ p', calcProfile p b = some p' ∧ Profiled (bs ++ [b]) p' := by
  have hdefined := h.defined hbs hb hlen
  obtain ⟨count, hcount⟩ := exists_intValue hdefined.count
  obtain ⟨mean, hmean⟩ := exists_intValue hdefined.sum
  rw [intValue_eq_some_iff] at hcount hmean
  refine ⟨⟨mean, count⟩, calcProfile_eq_some_iff.mpr ⟨hdefined, hcount, hmean⟩, ?_, ?_⟩
  · rw [hcount, h.count, List.length_append, List.length_singleton]
    rfl
  · rw [hmean, h.step_eq]

/-- **A cleared member counts any samples it has room for.** -/
theorem exists_profiled (hbs : ∀ b ∈ bs, Sample b) (hlen : bs.length < 2 ^ 31) :
    ∃ p, calcProfiles ⟨0, 0⟩ bs = some p ∧ Profiled bs p := by
  induction bs using List.reverseRecOn with
  | nil => exact ⟨⟨0, 0⟩, rfl, profiled_nil⟩
  | append_singleton bs b ih =>
    rw [List.length_append, List.length_singleton] at hlen
    have hold : ∀ b ∈ bs, Sample b := fun b hb => hbs b (List.mem_append_left _ hb)
    obtain ⟨p, hp, hprofiled⟩ := ih hold (by omega)
    obtain ⟨p', hp', hprofiled'⟩ := hprofiled.step hold (hbs b (by simp)) hlen
    refine ⟨p', ?_, hprofiled'⟩
    rw [calcProfiles_append, hp]
    simpa [calcProfiles] using hp'

/-- The `2 ^ 31`-th sample overflows the count. -/
theorem calcProfiles_eq_none (hbs : ∀ b ∈ bs, Sample b) (hlen : 2 ^ 31 ≤ bs.length) :
    calcProfiles ⟨0, 0⟩ bs = none := by
  have hfull : (bs.take (2 ^ 31 - 1)).length = 2 ^ 31 - 1 := by
    rw [List.length_take]
    omega
  have htaken : ∀ b ∈ bs.take (2 ^ 31 - 1), Sample b :=
    fun b hb => hbs b (List.mem_of_mem_take hb)
  obtain ⟨p, hp, hprofiled⟩ := exists_profiled htaken (by omega)
  have hcount := hprofiled.count
  rw [hfull] at hcount
  -- there is no count after the last one
  have hnone : ∀ b, calcProfile p b = none := fun b => by
    refine Option.eq_none_iff_forall_ne_some.mpr fun p' hp' => ?_
    have hover := (calcProfile_eq_some_iff.mp hp').1.count.2
    omega
  obtain ⟨b, rest, hrest⟩ : ∃ b rest, bs.drop (2 ^ 31 - 1) = b :: rest := by
    apply List.exists_cons_of_length_pos
    rw [List.length_drop]
    omega
  rw [← List.take_append_drop (2 ^ 31 - 1) bs, calcProfiles_append, hp, hrest]
  simp [calcProfiles, hnone]

/-! ### The mean stays among the samples -/

/-- **Nothing overflows and the mean stays among the samples.**  At every one of less
than `2 ^ 31` samples, no expression of the macro overflows and its divisor is not
zero; the mean is then neither below all samples seen so far nor above them all, and
it has moved towards the new one, if at all, and not past it. -/
theorem profile_safe (bs : List ℚ) (hlen : bs.length < 2 ^ 31) (hbs : ∀ b ∈ bs, Sample b) :
    ∀ (seen : List ℚ) (b : ℚ) (rest : List ℚ), bs = seen ++ b :: rest →
      ∃ p p', calcProfiles ⟨0, 0⟩ seen = some p ∧ calcProfile p b = some p' ∧ Defined p b ∧
        (∃ x ∈ seen ++ [b], microseconds x ≤ p'.mean.toInt) ∧
        (∃ x ∈ seen ++ [b], p'.mean.toInt ≤ microseconds x) ∧
        (p.mean.toInt ≤ microseconds b →
          p.mean.toInt ≤ p'.mean.toInt ∧ p'.mean.toInt ≤ microseconds b) ∧
        (microseconds b ≤ p.mean.toInt →
          microseconds b ≤ p'.mean.toInt ∧ p'.mean.toInt ≤ p.mean.toInt) := by
  rintro seen b rest rfl
  rw [List.length_append, List.length_cons] at hlen
  have hseen : ∀ x ∈ seen, Sample x := fun x hx => hbs x (List.mem_append_left _ hx)
  have hb : Sample b := hbs b (List.mem_append_right _ List.mem_cons_self)
  obtain ⟨p, hp, hprofiled⟩ := exists_profiled hseen (by omega)
  obtain ⟨p', hp', hprofiled'⟩ := hprofiled.step hseen hb (by omega)
  have hsome : (seen ++ [b]).map microseconds ≠ [] := by simp
  obtain ⟨⟨lo, hlo, hlow⟩, hi, hhi, hhigh⟩ := RunningMean.mean_between hsome
  refine ⟨p, p', hp, hp', hprofiled.defined hseen hb (by omega), ?_, ?_, ?_⟩
  · obtain ⟨x, hx, rfl⟩ := List.mem_map.mp hlo
    exact ⟨x, hx, hprofiled'.mean ▸ hlow⟩
  · obtain ⟨x, hx, rfl⟩ := List.mem_map.mp hhi
    exact ⟨x, hx, hprofiled'.mean ▸ hhigh⟩
  · have hstep : p'.mean.toInt =
        RunningMean.step p.mean.toInt (seen.length + 1) (microseconds b) := by
      rw [hprofiled'.mean, List.map_append, List.map_singleton, RunningMean.mean_snoc,
        ← hprofiled.mean, List.length_map]
    rw [hstep]
    exact RunningMean.step_between _ _ _

/-- The second of two samples. -/
theorem second_sample_safe :
    ∃ p p', calcProfiles ⟨0, 0⟩ [3 / 1000000] = some p ∧ calcProfile p (1 / 1000000) = some p' ∧
      Defined p (1 / 1000000) ∧ p'.mean.toInt ≤ p.mean.toInt := by
  have hbs : ∀ b ∈ [(3 / 1000000 : ℚ), 1 / 1000000], Sample b := by decide +kernel
  obtain ⟨p, p', hp, hp', hdefined, -, -, -, hdown⟩ :=
    profile_safe _ (by decide) hbs [3 / 1000000] (1 / 1000000) [] rfl
  refine ⟨p, p', hp, hp', hdefined, (hdown ?_).2⟩
  have hthree : calcProfiles ⟨0, 0⟩ [3 / 1000000] = some ⟨3, 1⟩ := by decide +kernel
  obtain rfl : ⟨3, 1⟩ = p := Option.some.inj (hthree.symm.trans hp)
  decide +kernel

/-! ### How far the mean may be off -/

/-- The exact mean of the whole microseconds. -/
def average (bs : List ℚ) : ℚ := (bs.map microseconds).sum / bs.length

/-- A running time of less than `2 ^ 31` microseconds is a sample. -/
theorem sample_of_lt (h : 0 ≤ b ∧ b * 1000000 < 2 ^ 31) : Sample b := by
  obtain ⟨hlo, hhi⟩ := h
  have hnonneg : 0 ≤ b * 1000000 := by positivity
  rw [Sample, microseconds, truncate, if_pos hnonneg]
  refine ⟨Int.floor_nonneg.mpr hnonneg, Int.floor_lt.mpr ?_⟩
  exact_mod_cast hhi

theorem Profiled.abs_mean_sub_le (h : Profiled bs p) (hne : bs ≠ []) :
    |(p.mean.toInt : ℚ) - average bs| ≤ (bs.length - 1) / 2 := by
  have hsome : bs.map microseconds ≠ [] := by simpa using hne
  have hmean := RunningMean.abs_mean_sub_le hsome
  rwa [List.length_map, ← h.mean] at hmean

/-- Running times of `0`, `1`, …, `n - 1` microseconds. -/
def risingTimes (n : ℕ) : List ℚ := (List.range n).map fun i : ℕ => (i : ℚ) / 1000000

theorem map_microseconds_risingTimes (n : ℕ) :
    (risingTimes n).map microseconds = RunningMean.rising n := by
  rw [risingTimes, RunningMean.rising, List.map_map]
  refine List.map_congr_left fun i _ => ?_
  have hback : (i : ℚ) / 1000000 * 1000000 = i := by field_simp
  rw [Function.comp_apply, microseconds, hback, truncate, if_pos (Nat.cast_nonneg i),
    Int.floor_natCast]

theorem length_risingTimes (n : ℕ) : (risingTimes n).length = n := by simp [risingTimes]

theorem mem_risingTimes {n : ℕ} (hn : n < 2 ^ 31) (hb : b ∈ risingTimes n) :
    0 ≤ b ∧ b * 1000000 < 2 ^ 31 := by
  obtain ⟨i, hi, rfl⟩ := List.mem_map.mp hb
  have hlt : (i : ℚ) < 2 ^ 31 := by
    have := List.mem_range.mp hi
    exact_mod_cast this.trans hn
  have hback : (i : ℚ) / 1000000 * 1000000 = i := by field_simp
  exact ⟨by positivity, by rw [hback]; exact hlt⟩

/-- **How far the mean may be off.**  After less than `2 ^ 31` samples the count is
their number, and the mean is off by at most half of the number but one; for every
number, as many rising samples leave it as far off as that.  One sample more than
`2 ^ 31 - 1` has no count. -/
theorem profile_accuracy :
    (∀ bs : List ℚ, bs ≠ [] → (∀ b ∈ bs, 0 ≤ b ∧ b * 1000000 < 2 ^ 31) →
      bs.length < 2 ^ 31 → ∃ p, calcProfiles ⟨0, 0⟩ bs = some p ∧ p.count.toInt = bs.length ∧
        |(p.mean.toInt : ℚ) - average bs| ≤ (bs.length - 1) / 2) ∧
    (∀ n : ℕ, 0 < n → n < 2 ^ 31 → (risingTimes n).length = n ∧
      (∀ b ∈ risingTimes n, 0 ≤ b ∧ b * 1000000 < 2 ^ 31) ∧
      ∃ p, calcProfiles ⟨0, 0⟩ (risingTimes n) = some p ∧
        |(p.mean.toInt : ℚ) - average (risingTimes n)| = (n - 1) / 2) ∧
    ∀ bs : List ℚ, (∀ b ∈ bs, 0 ≤ b ∧ b * 1000000 < 2 ^ 31) → 2 ^ 31 ≤ bs.length →
      calcProfiles ⟨0, 0⟩ bs = none := by
  refine ⟨fun bs hne hbs hlen => ?_, fun n hpos hlt => ?_, fun bs hbs hlen => ?_⟩
  · obtain ⟨p, hp, hprofiled⟩ := exists_profiled (fun b hb => sample_of_lt (hbs b hb)) hlen
    exact ⟨p, hp, hprofiled.count, hprofiled.abs_mean_sub_le hne⟩
  · have hbs : ∀ b ∈ risingTimes n, 0 ≤ b ∧ b * 1000000 < 2 ^ 31 := fun b => mem_risingTimes hlt
    obtain ⟨p, hp, hprofiled⟩ := exists_profiled (fun b hb => sample_of_lt (hbs b hb))
      (by rwa [length_risingTimes])
    refine ⟨length_risingTimes n, hbs, p, hp, ?_⟩
    have hoff := RunningMean.abs_mean_sub_rising hpos
    rwa [← map_microseconds_risingTimes, List.length_map, ← hprofiled.mean] at hoff
  · exact calcProfiles_eq_none (fun b hb => sample_of_lt (hbs b hb)) hlen

/-- Running times of 0, 1 and 2 microseconds: the mean stays 0, and is off by one. -/
theorem third_sample_lost :
    ∃ p, calcProfiles ⟨0, 0⟩ [0, 1 / 1000000, 2 / 1000000] = some p ∧ p.mean = 0 ∧
      average [0, 1 / 1000000, 2 / 1000000] = 1 ∧
      ¬ |(p.mean.toInt : ℚ) - average [0, 1 / 1000000, 2 / 1000000]| < 1 := by
  refine ⟨⟨0, 3⟩, ?_⟩
  decide +kernel

end AprsPruner
