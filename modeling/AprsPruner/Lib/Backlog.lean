import Mathlib.Algebra.BigOperators.Group.List.Basic
import Mathlib.Algebra.GroupWithZero.Nat
import Mathlib.Data.List.Infix

/-!
# A backlog that is served in bounded portions

Work arrives and is served slot by slot: in a slot with `a` arrivals and a service
of at most `s`, a backlog of `b` becomes `b + a - s`, or nothing if the service is
more than there was.  The backlog after a list of slots is decided by the windows
that end there, so a bound on the backlog at all times is a bound on every window.

## Main definitions

* `level b xs` — the backlog that `b` becomes over the slots `xs`.
* `arrived xs`, `served xs` — what arrives and what could be served.

## Main results

* `level_le_iff` — **the windows that end now decide the backlog.**
* `level_le_of_prefix_iff` — a bound at all times is a bound on every window.
-/

namespace Backlog

/-- The backlog that `b` becomes over a list of slots, each with its arrivals and
its service. -/
def level : ℕ → List (ℕ × ℕ) → ℕ
  | b, [] => b
  | b, (a, s) :: xs => level (b + a - s) xs

/-- What arrives in a list of slots. -/
def arrived (xs : List (ℕ × ℕ)) : ℕ := (xs.map Prod.fst).sum

/-- What a list of slots could serve. -/
def served (xs : List (ℕ × ℕ)) : ℕ := (xs.map Prod.snd).sum

@[simp] theorem level_nil (b : ℕ) : level b [] = b := rfl

@[simp] theorem level_cons (b a s : ℕ) (xs : List (ℕ × ℕ)) :
    level b ((a, s) :: xs) = level (b + a - s) xs := rfl

@[simp] theorem arrived_nil : arrived [] = 0 := rfl

@[simp] theorem arrived_cons (x : ℕ × ℕ) (xs : List (ℕ × ℕ)) :
    arrived (x :: xs) = x.1 + arrived xs := by
  simp [arrived]

@[simp] theorem served_nil : served [] = 0 := rfl

@[simp] theorem served_cons (x : ℕ × ℕ) (xs : List (ℕ × ℕ)) :
    served (x :: xs) = x.2 + served xs := by
  simp [served]

/-- **The windows that end now decide the backlog**: it is at most `m` exactly if
neither the whole list nor any end of it has more arrivals than it could serve,
`m` aside. -/
theorem level_le_iff (b m : ℕ) (xs : List (ℕ × ℕ)) :
    level b xs ≤ m ↔ b + arrived xs ≤ m + served xs ∧
      ∀ ys, ys <:+ xs → arrived ys ≤ m + served ys := by
  induction xs generalizing b with
  | nil =>
    simp only [level_nil, arrived_nil, served_nil, Nat.add_zero, List.suffix_nil]
    exact ⟨fun h => ⟨h, by rintro _ rfl; simp⟩, fun h => h.1⟩
  | cons x xs ih =>
    obtain ⟨a, s⟩ := x
    rw [level_cons, ih]
    simp only [arrived_cons, served_cons]
    constructor
    · rintro ⟨hwhole, hends⟩
      have hrest := hends xs (List.suffix_refl xs)
      refine ⟨by omega, fun ys hys => ?_⟩
      rcases List.suffix_cons_iff.mp hys with rfl | hys
      · simp only [arrived_cons, served_cons]
        omega
      · exact hends ys hys
    · rintro ⟨hwhole, hends⟩
      -- the window of all slots but the first says what an idle first slot needs
      have hrest := hends xs (List.suffix_cons _ xs)
      exact ⟨by omega, fun ys hys => hends ys (hys.trans (List.suffix_cons _ xs))⟩

/-- **A bound at all times is a bound on every window.** -/
theorem level_le_of_prefix_iff (b m : ℕ) (xs : List (ℕ × ℕ)) :
    (∀ ps, ps <+: xs → level b ps ≤ m) ↔
      (∀ ps, ps <+: xs → b + arrived ps ≤ m + served ps) ∧
        ∀ ws, ws <:+: xs → arrived ws ≤ m + served ws := by
  constructor
  · intro h
    refine ⟨fun ps hps => ((level_le_iff b m ps).mp (h ps hps)).1, fun ws hws => ?_⟩
    obtain ⟨ps, hps, hsuffix⟩ := List.infix_iff_suffix_prefix.mp hws
    exact ((level_le_iff b m ps).mp (h ps hsuffix)).2 ws hps
  · rintro ⟨hwhole, hwindow⟩ ps hps
    refine (level_le_iff b m ps).mpr ⟨hwhole ps hps, fun ys hys => hwindow ys ?_⟩
    exact hys.isInfix.trans hps.isInfix

end Backlog
