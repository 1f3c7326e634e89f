import Mathlib.Algebra.Order.Field.Basic
import Mathlib.Algebra.Order.Field.Rat
import Mathlib.Data.List.Induction
import Mathlib.Tactic.FieldSimp
import Mathlib.Tactic.Linarith
import Mathlib.Tactic.Ring

/-!
# Running means in integers

A mean is kept in an integer and updated with every sample: the `k`-th sample moves
it by the `k`-th part of the difference, cut off towards zero.  No step goes past
its sample, so the mean stays among the samples.  What is cut off is lost for good:
the mean may be off by half the number of the samples before, and no less.

## Main definitions

* `step mean k x` — the mean after the `k`-th sample `x`.
* `mean xs` — the mean kept of the samples `xs`.

## Main results

* `step_between` — **a step moves towards its sample and not past it.**
* `mean_between` — the mean stays among the samples.
* `abs_mean_sub_le` — **how far the mean may be off.**
* `abs_mean_sub_rising` — rising samples leave it as far off as that.
-/

namespace RunningMean

/-- The mean after the `k`-th sample: it moves by the `k`-th part of the difference,
cut off towards zero. -/
def step (mean : ℤ) (k : ℕ) (x : ℤ) : ℤ := mean + (x - mean).tdiv k

/-- The number of the samples so far and their mean, after one more. -/
def next (s : ℕ × ℤ) (x : ℤ) : ℕ × ℤ := (s.1 + 1, step s.2 (s.1 + 1) x)

/-- The mean kept of a list of samples. -/
def mean (xs : List ℤ) : ℤ := (xs.foldl next (0, 0)).2

/-! ### One step -/

/-- **A step moves towards its sample and not past it.** -/
theorem step_between (m : ℤ) (k : ℕ) (x : ℤ) :
    (m ≤ x → m ≤ step m k x ∧ step m k x ≤ x) ∧ (x ≤ m → x ≤ step m k x ∧ step m k x ≤ m) := by
  have hk : (0 : ℤ) ≤ k := Int.natCast_nonneg k
  constructor
  · intro h
    have hd : 0 ≤ x - m := by omega
    have hlo := Int.tdiv_nonneg hd hk
    have hhi := Int.tdiv_le_self (k : ℤ) hd
    rw [step]
    omega
  · intro h
    have hd : 0 ≤ m - x := by omega
    have hlo := Int.tdiv_nonneg hd hk
    have hhi := Int.tdiv_le_self (k : ℤ) hd
    -- the difference is negative: its part is that of the opposite difference
    have hneg : (x - m).tdiv k = -(m - x).tdiv k := by rw [← Int.neg_tdiv, neg_sub]
    rw [step, hneg]
    omega

/-- The first sample is the mean. -/
theorem step_one (m x : ℤ) : step m 1 x = x := by
  rw [step, Nat.cast_one, Int.tdiv_one]
  omega

/-- The rest that a step cuts off. -/
theorem mul_step (m : ℤ) (k : ℕ) (x : ℤ) :
    k * step m k x = (k - 1) * m + x - (x - m).tmod k := by
  have h := Int.mul_tdiv_add_tmod (x - m) k
  rw [step]
  linarith

theorem abs_tmod_le (d : ℤ) (k : ℕ) : |d.tmod (k + 1 : ℕ)| ≤ k := by
  have hpos : (0 : ℤ) < (k + 1 : ℕ) := by omega
  have hlo := Int.lt_tmod_of_pos d hpos
  have hhi := Int.tmod_lt_of_pos d hpos
  rw [abs_le]
  omega

/-! ### The mean of a list -/

theorem fst_foldl_next (xs : List ℤ) : (xs.foldl next (0, 0)).1 = xs.length := by
  induction xs using List.reverseRecOn with
  | nil => rfl
  | append_singleton xs x ih => simp [next, ih]

/-- One more sample is one more step. -/
theorem mean_snoc (xs : List ℤ) (x : ℤ) :
    mean (xs ++ [x]) = step (mean xs) (xs.length + 1) x := by
  rw [mean, List.foldl_append, List.foldl_cons, List.foldl_nil, next, fst_foldl_next]
  rfl

/-- **The mean stays among the samples**: it is neither below all nor above all. -/
theorem mean_between {xs : List ℤ} (h : xs ≠ []) :
    (∃ x ∈ xs, x ≤ mean xs) ∧ ∃ x ∈ xs, mean xs ≤ x := by
  induction xs using List.reverseRecOn with
  | nil => exact absurd rfl h
  | append_singleton xs x ih =>
    have hx : x ∈ xs ++ [x] := by simp
    rw [mean_snoc]
    rcases eq_or_ne xs [] with rfl | hne
    · rw [List.length_nil, step_one]
      exact ⟨⟨x, hx, le_rfl⟩, x, hx, le_rfl⟩
    · obtain ⟨⟨lo, hlo, hlow⟩, hi, hhi, hhigh⟩ := ih hne
      obtain ⟨hup, hdown⟩ := step_between (mean xs) (xs.length + 1) x
      rcases le_total (mean xs) x with hle | hle
      · exact ⟨⟨lo, List.mem_append_left _ hlo, hlow.trans (hup hle).1⟩, x, hx, (hup hle).2⟩
      · exact ⟨⟨x, hx, (hdown hle).1⟩, hi, List.mem_append_left _ hhi, (hdown hle).2.trans hhigh⟩

/-! ### How far the mean may be off -/

/-- The rests of all steps together: a step can lose at most the number of the
samples before it. -/
theorem two_mul_abs_sub_sum_le (xs : List ℤ) :
    2 * |xs.length * mean xs - xs.sum| ≤ xs.length * (xs.length - 1) := by
  induction xs using List.reverseRecOn with
  | nil => simp
  | append_singleton xs x ih =>
    have hrest := abs_tmod_le (x - mean xs) xs.length
    have hmul := mul_step (mean xs) (xs.length + 1) x
    have hsum : (xs ++ [x]).sum = xs.sum + x := by simp
    have hlen : ((xs ++ [x]).length : ℤ) = xs.length + 1 := by simp
    -- the new error is the old one less the rest of this step
    have herror : ((xs ++ [x]).length : ℤ) * mean (xs ++ [x]) - (xs ++ [x]).sum =
        (xs.length * mean xs - xs.sum) - (x - mean xs).tmod (xs.length + 1 : ℕ) := by
      rw [mean_snoc, hsum, hlen]
      push_cast at hmul ⊢
      linarith
    have htri := abs_sub (xs.length * mean xs - xs.sum) ((x - mean xs).tmod (xs.length + 1 : ℕ))
    rw [herror, hlen]
    linarith

/-- **How far the mean may be off**: half the number of the samples but one. -/
theorem abs_mean_sub_le {xs : List ℤ} (h : xs ≠ []) :
    |(mean xs : ℚ) - xs.sum / xs.length| ≤ (xs.length - 1) / 2 := by
  have hpos : (0 : ℚ) < xs.length := by exact_mod_cast List.length_pos_iff.mpr h
  have hcast : 2 * |(xs.length : ℚ) * mean xs - xs.sum| ≤ xs.length * (xs.length - 1) := by
    exact_mod_cast two_mul_abs_sub_sum_le xs
  have hdiv : (mean xs : ℚ) - xs.sum / xs.length =
      (xs.length * mean xs - xs.sum) / xs.length := by field_simp
  rw [hdiv, abs_div, abs_of_pos hpos, div_le_iff₀ hpos]
  linarith

/-- The samples `0, 1, …, n - 1`. -/
def rising (n : ℕ) : List ℤ := (List.range n).map fun i : ℕ => (i : ℤ)

theorem rising_succ (n : ℕ) : rising (n + 1) = rising n ++ [(n : ℤ)] := by
  simp [rising, List.range_succ]

theorem length_rising (n : ℕ) : (rising n).length = n := by simp [rising]

/-- Under rising samples the mean never leaves zero: no step is large enough. -/
theorem mean_rising (n : ℕ) : mean (rising n) = 0 := by
  induction n with
  | zero => rfl
  | succ n ih =>
    rw [rising_succ, mean_snoc, ih, length_rising, step, sub_zero, zero_add]
    exact Int.tdiv_eq_zero_of_lt (Int.natCast_nonneg n) (by omega)

theorem two_mul_sum_rising (n : ℕ) : 2 * (rising n).sum = n * (n - 1) := by
  induction n with
  | zero => rfl
  | succ n ih =>
    rw [rising_succ, List.sum_append, List.sum_singleton]
    push_cast
    linarith

/-- **Rising samples leave the mean as far off as it may be.** -/
theorem abs_mean_sub_rising {n : ℕ} (h : 0 < n) :
    |(mean (rising n) : ℚ) - (rising n).sum / (rising n).length| = (n - 1) / 2 := by
  have hpos : (0 : ℚ) < n := by exact_mod_cast h
  have hone : (1 : ℚ) ≤ n := by exact_mod_cast h
  have hsum : 2 * ((rising n).sum : ℚ) = n * (n - 1) := by exact_mod_cast two_mul_sum_rising n
  have havg : ((rising n).sum : ℚ) / n = (n - 1) / 2 := by
    rw [div_eq_div_iff hpos.ne' two_ne_zero]
    linarith
  rw [mean_rising, length_rising, havg, Int.cast_zero, zero_sub, abs_neg, abs_of_nonneg]
  linarith

end RunningMean
