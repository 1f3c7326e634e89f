import AprsPruner.Lib.Run
import Mathlib.Algebra.GroupWithZero.Nat
import Mathlib.Data.Finset.Card
import Mathlib.Order.Defs.LinearOrder

/-!
# Bounded batch removal from a stock of items

A stock holds items with a key.  Items arrive, and now and then a *batch* is
removed: given a bound and a limit, some of the live items whose key lies below
the bound, all of them if there are no more than the limit and exactly as many as
the limit otherwise.  Which ones is left open.

Everything here is about finite sets and an arbitrary linear order of keys.

## Main definitions

* `below key T c` — the items of `T` whose key lies below `c`.
* `IsBatch key T c limit R` — `R` is a batch of `T` below `c` of at most `limit`.
* `Stock`, `Stock.gone` — what ever arrived, what is still live, what is gone.
* `Op`, `Step` — arrivals of new items and removals of batches.
* `Fresh`, `seenAfter` — lots of new items, and all that has come with them.

## Main results

* `gone_subset_below` — a run removes only items below its bounds.
* `card_gone` — what is gone is counted by the batches.
* `caught_up` — **batches that could have held every item below the last bound
  leave no initial item below the first.**
-/

namespace BatchPrune

open Transition

variable {ρ κ : Type*} [LinearOrder κ]

/-! ### Batches -/

/-- The items of `T` whose key lies below `c`. -/
def below (key : ρ → κ) (T : Finset ρ) (c : κ) : Finset ρ := T.filter fun x => key x < c

@[simp] theorem mem_below {key : ρ → κ} {T : Finset ρ} {c : κ} {x : ρ} :
    x ∈ below key T c ↔ x ∈ T ∧ key x < c := Finset.mem_filter

theorem below_subset (key : ρ → κ) (T : Finset ρ) (c : κ) : below key T c ⊆ T :=
  Finset.filter_subset _ _

theorem below_mono (key : ρ → κ) {T U : Finset ρ} {c d : κ} (hTU : T ⊆ U) (hcd : c ≤ d) :
    below key T c ⊆ below key U d := by
  intro x hx
  rw [mem_below] at hx ⊢
  exact ⟨hTU hx.1, hx.2.trans_le hcd⟩

/-- `R` is a batch of `T`: items below `c`, as many as there are up to `limit`. -/
structure IsBatch (key : ρ → κ) (T : Finset ρ) (c : κ) (limit : ℕ) (R : Finset ρ) : Prop where
  /-- Only items below the bound are taken. -/
  subset : R ⊆ below key T c
  /-- All of them are taken, unless there are more than the limit. -/
  card_eq : R.card = min limit (below key T c).card

namespace IsBatch

variable {key : ρ → κ} {T R : Finset ρ} {c : κ} {limit : ℕ}

theorem subset_live (h : IsBatch key T c limit R) : R ⊆ T :=
  h.subset.trans (below_subset key T c)

theorem key_lt (h : IsBatch key T c limit R) {x : ρ} (hx : x ∈ R) : key x < c :=
  (mem_below.mp (h.subset hx)).2

theorem card_le_limit (h : IsBatch key T c limit R) : R.card ≤ limit :=
  h.card_eq.le.trans (min_le_left _ _)

/-- A batch that falls short of its limit took everything below its bound. -/
theorem eq_below (h : IsBatch key T c limit R) (hle : (below key T c).card ≤ limit) :
    R = below key T c :=
  Finset.eq_of_subset_of_card_le h.subset (by rw [h.card_eq, min_eq_right hle])

theorem eq_below_of_card_lt (h : IsBatch key T c limit R) (hlt : R.card < limit) :
    R = below key T c := by
  apply h.eq_below
  have := h.card_eq
  omega

/-- A batch is empty exactly when its limit is zero or nothing lies below. -/
theorem card_eq_zero_iff (h : IsBatch key T c limit R) :
    R.card = 0 ↔ limit = 0 ∨ ∀ x ∈ T, c ≤ key x := by
  have hempty : (below key T c).card = 0 ↔ ∀ x ∈ T, c ≤ key x := by
    rw [Finset.card_eq_zero, Finset.eq_empty_iff_forall_notMem]
    simp only [mem_below, not_and, not_lt]
  rw [h.card_eq, ← hempty]
  omega

end IsBatch

variable [DecidableEq ρ]

/-- A batch may leave out any item, if there are more than its limit. -/
theorem IsBatch.of_erase {key : ρ → κ} {T R : Finset ρ} {c : κ} {limit : ℕ} {x : ρ}
    (h : IsBatch key (T.erase x) c limit R) (hlt : limit < (below key T c).card) :
    IsBatch key T c limit R where
  subset := h.subset.trans (below_mono key (Finset.erase_subset x T) le_rfl)
  card_eq := by
    have hrest : below key (T.erase x) c = (below key T c).erase x := Finset.filter_erase ..
    have hcard : (below key T c).card - 1 ≤ ((below key T c).erase x).card :=
      Finset.pred_card_le_card_erase
    rw [h.card_eq, hrest]
    omega

/-! ### Stocks -/

/-- A stock: every item that ever arrived, and those still there. -/
@[ext] structure Stock (ρ : Type*) where
  /-- The items that ever arrived. -/
  ever : Finset ρ
  /-- The items still there. -/
  live : Finset ρ
  /-- What is there once arrived. -/
  live_subset : live ⊆ ever

namespace Stock

/-- The stock of the items of `A`, none of which has been removed. -/
def full (A : Finset ρ) : Stock ρ := ⟨A, A, Finset.Subset.refl A⟩

/-- The items that have been removed. -/
def gone (s : Stock ρ) : Finset ρ := s.ever \ s.live

/-- The items of `A` arrive. -/
def arrive (s : Stock ρ) (A : Finset ρ) : Stock ρ where
  ever := s.ever ∪ A
  live := s.live ∪ A
  live_subset := Finset.union_subset_union_left s.live_subset

/-- The items of `R` are removed. -/
def remove (s : Stock ρ) (R : Finset ρ) : Stock ρ where
  ever := s.ever
  live := s.live \ R
  live_subset := Finset.sdiff_subset.trans s.live_subset

@[simp] theorem mem_gone {s : Stock ρ} {x : ρ} : x ∈ s.gone ↔ x ∈ s.ever ∧ x ∉ s.live :=
  Finset.mem_sdiff

/-- New items leave what is gone as it was. -/
theorem gone_arrive {s : Stock ρ} {A : Finset ρ} (hA : Disjoint s.ever A) :
    (s.arrive A).gone = s.gone := by
  ext x
  have hx : x ∈ A → x ∉ s.ever := fun h h' => Finset.disjoint_left.mp hA h' h
  simp only [mem_gone, arrive, Finset.mem_union]
  tauto

theorem gone_remove {s : Stock ρ} {R : Finset ρ} (hR : R ⊆ s.live) :
    (s.remove R).gone = s.gone ∪ R := by
  ext x
  have hx : x ∈ R → x ∈ s.ever := fun h => s.live_subset (hR h)
  simp only [mem_gone, remove, Finset.mem_sdiff, Finset.mem_union]
  tauto

theorem card_gone_remove {s : Stock ρ} {R : Finset ρ} (hR : R ⊆ s.live) :
    (s.remove R).gone.card = s.gone.card + R.card := by
  rw [gone_remove hR, Finset.card_union_of_disjoint]
  rw [Finset.disjoint_left]
  intro x hx hxR
  exact (mem_gone.mp hx).2 (hR hxR)

end Stock

/-! ### Lots of items that come one after the other -/

/-- Every lot is new, different from all `seen` before. -/
def Fresh : Finset ρ → List (Finset ρ) → Prop
  | _, [] => True
  | seen, A :: As => Disjoint seen A ∧ Fresh (seen ∪ A) As

/-- All items seen when some lots have come, those `seen` before included. -/
def seenAfter (seen : Finset ρ) (As : List (Finset ρ)) : Finset ρ := As.foldl (· ∪ ·) seen

/-- The first of some new lots are new. -/
theorem Fresh.of_prefix : ∀ {As Bs : List (Finset ρ)} {seen : Finset ρ},
    As <+: Bs → Fresh seen Bs → Fresh seen As := by
  intro As
  induction As with
  | nil => intro _ _ _ _; trivial
  | cons A As ih =>
    intro Bs seen hprefix hfresh
    obtain ⟨rest, rfl⟩ := hprefix
    exact ⟨hfresh.1, ih (List.prefix_append _ _) hfresh.2⟩

/-- Lots without an item are new, and bring nothing. -/
theorem fresh_of_forall_eq_empty {As : List (Finset ρ)} (h : ∀ A ∈ As, A = ∅) (seen : Finset ρ) :
    Fresh seen As ∧ seenAfter seen As = seen := by
  induction As generalizing seen with
  | nil => exact ⟨trivial, rfl⟩
  | cons A As ih =>
    obtain ⟨rfl, hrest⟩ := List.forall_mem_cons.mp h
    obtain ⟨hfresh, hseen⟩ := ih hrest (seen ∪ ∅)
    refine ⟨⟨Finset.disjoint_empty_right _, hfresh⟩, ?_⟩
    rw [seenAfter, List.foldl_cons, ← seenAfter, hseen, Finset.union_empty]

/-! ### Arrivals and removals in any order -/

/-- What happens to a stock: items arrive, or a batch `R` below `c` goes. -/
inductive Op (ρ κ : Type*) where
  /-- Items arrive. -/
  | arrive (A : Finset ρ) : Op ρ κ
  /-- A batch goes. -/
  | prune (c : κ) (limit : ℕ) (R : Finset ρ) : Op ρ κ

/-- The number of items an operation removes. -/
def Op.removed : Op ρ κ → ℕ
  | .arrive _ => 0
  | .prune _ _ R => R.card

/-- How often a batch is removed. -/
def pruneCount : List (Op ρ κ) → ℕ
  | [] => 0
  | .arrive _ :: os => pruneCount os
  | .prune _ _ _ :: os => pruneCount os + 1

/-- One operation: arriving items are new, a removed batch is one. -/
def Step (key : ρ → κ) (s : Stock ρ) : Op ρ κ → Stock ρ → Prop
  | .arrive A, s' => Disjoint s.ever A ∧ s' = s.arrive A
  | .prune c limit R, s' => IsBatch key s.live c limit R ∧ s' = s.remove R

variable {key : ρ → κ} {s s' : Stock ρ} {os : List (Op ρ κ)}

theorem step_ever_subset {o : Op ρ κ} (h : Step key s o s') : s.ever ⊆ s'.ever := by
  cases o with
  | arrive A =>
    obtain ⟨-, rfl⟩ := h
    exact Finset.subset_union_left
  | prune c limit R =>
    obtain ⟨-, rfl⟩ := h
    exact Finset.Subset.refl _

theorem step_gone_subset {o : Op ρ κ} (h : Step key s o s') : s.gone ⊆ s'.gone := by
  cases o with
  | arrive A =>
    obtain ⟨hA, rfl⟩ := h
    rw [Stock.gone_arrive hA]
  | prune c limit R =>
    obtain ⟨hR, rfl⟩ := h
    rw [Stock.gone_remove hR.subset_live]
    exact Finset.subset_union_left

theorem ever_subset (h : Run (Step key) s os s') : s.ever ⊆ s'.ever :=
  h.relates (R := fun a b : Stock ρ => a.ever ⊆ b.ever) (fun _ => Finset.Subset.refl _)
    (fun hab hbc => hab.trans hbc) fun _ _ _ => step_ever_subset

/-- What is gone stays gone. -/
theorem gone_subset (h : Run (Step key) s os s') : s.gone ⊆ s'.gone :=
  h.relates (R := fun a b : Stock ρ => a.gone ⊆ b.gone) (fun _ => Finset.Subset.refl _)
    (fun hab hbc => hab.trans hbc) fun _ _ _ => step_gone_subset

/-- The batches count what is gone. -/
theorem card_gone (h : Run (Step key) s os s') :
    s'.gone.card = s.gone.card + (os.map Op.removed).sum := by
  induction h with
  | nil => rfl
  | @cons s s₁ s' o os hs _ ih =>
    rw [ih, List.map_cons, List.sum_cons]
    cases o with
    | arrive A =>
      obtain ⟨hA, rfl⟩ := hs
      rw [Stock.gone_arrive hA, Op.removed, Nat.zero_add]
    | prune c limit R =>
      obtain ⟨hR, rfl⟩ := hs
      rw [Stock.card_gone_remove hR.subset_live, Op.removed, Nat.add_assoc]

/-- **A run removes only items below its bounds.** -/
theorem gone_subset_below {b : κ} (h : Run (Step key) s os s')
    (hb : ∀ c limit R, Op.prune c limit R ∈ os → c ≤ b) :
    s'.gone ⊆ s.gone ∪ below key s'.ever b := by
  induction h with
  | nil => exact Finset.subset_union_left
  | @cons s s₁ s' o os hs hrun ih =>
    refine (ih fun c limit R hm => hb c limit R (List.mem_cons_of_mem _ hm)).trans ?_
    refine Finset.union_subset ?_ Finset.subset_union_right
    cases o with
    | arrive A =>
      obtain ⟨hA, rfl⟩ := hs
      rw [Stock.gone_arrive hA]
      exact Finset.subset_union_left
    | prune c limit R =>
      obtain ⟨hR, rfl⟩ := hs
      rw [Stock.gone_remove hR.subset_live]
      have hever : (s.remove R).ever ⊆ s'.ever := ever_subset hrun
      exact Finset.union_subset_union_right (hR.subset.trans
        (below_mono key (s.live_subset.trans hever) (hb c limit R List.mem_cons_self)))

/-- An item at or above every bound of a run is still live at its end. -/
theorem live_of_bounds_le {b : κ} (h : Run (Step key) s os s')
    (hb : ∀ c limit R, Op.prune c limit R ∈ os → c ≤ b) (hs : s.live = s.ever)
    {x : ρ} (hx : x ∈ s'.ever) (hkey : b ≤ key x) : x ∈ s'.live := by
  by_contra hlive
  have hgone := gone_subset_below h hb (Stock.mem_gone.mpr ⟨hx, hlive⟩)
  rw [Finset.mem_union, Stock.mem_gone, hs, mem_below] at hgone
  rcases hgone with ⟨hin, hout⟩ | ⟨-, hlt⟩
  · exact hout hin
  · exact absurd hlt (not_lt.mpr hkey)

/-! ### Catching up -/

/-- Either some batch fell short of the limit, and then took every initial item
below the first bound that was left, or all batches were full. -/
theorem short_or_full {L : ℕ} {b : κ} (h : Run (Step key) s os s')
    (hL : ∀ c limit R, Op.prune c limit R ∈ os → limit = L)
    (hb : ∀ c limit R, Op.prune c limit R ∈ os → b ≤ c) :
    (∀ x ∈ s.live, key x < b → x ∈ s'.gone) ∨
      s.gone.card + pruneCount os * L ≤ s'.gone.card := by
  induction h with
  | nil => right; simp [pruneCount]
  | @cons s s₁ s' o os hs hrun ih =>
    have ih := ih (fun c l R hm => hL c l R (List.mem_cons_of_mem _ hm))
      (fun c l R hm => hb c l R (List.mem_cons_of_mem _ hm))
    cases o with
    | arrive A =>
      obtain ⟨hA, rfl⟩ := hs
      rcases ih with ih | ih
      · exact Or.inl fun x hx => ih x (Finset.mem_union_left _ hx)
      · rw [Stock.gone_arrive hA] at ih
        exact Or.inr ih
    | prune c limit R =>
      obtain ⟨hR, rfl⟩ := hs
      obtain rfl := hL c limit R List.mem_cons_self
      have hbc : b ≤ c := hb c limit R List.mem_cons_self
      have hgone : R ⊆ s'.gone := by
        refine Finset.Subset.trans ?_ (gone_subset hrun)
        rw [Stock.gone_remove hR.subset_live]
        exact Finset.subset_union_right
      rcases Nat.lt_or_ge R.card limit with hshort | hfull
      · -- the short batch holds every live item below its bound
        left
        intro x hx hkey
        apply hgone
        rw [hR.eq_below_of_card_lt hshort, mem_below]
        exact ⟨hx, hkey.trans_le hbc⟩
      · rcases ih with ih | ih
        · left
          intro x hx hkey
          by_cases hxR : x ∈ R
          · exact hgone hxR
          · exact ih x (Finset.mem_sdiff.mpr ⟨hx, hxR⟩) hkey
        · right
          rw [Stock.card_gone_remove hR.subset_live] at ih
          rw [pruneCount, Nat.succ_mul]
          omega

/-- **Batches that could have held every item below the last bound leave no
initial item below the first.** -/
theorem caught_up {L : ℕ} {b d : κ} (h : Run (Step key) s os s') (hs : s.live = s.ever)
    (hL : ∀ c limit R, Op.prune c limit R ∈ os → limit = L)
    (hlo : ∀ c limit R, Op.prune c limit R ∈ os → b ≤ c)
    (hhi : ∀ c limit R, Op.prune c limit R ∈ os → c ≤ d) (hbd : b ≤ d)
    (hE : (below key s'.ever d).card ≤ pruneCount os * L) :
    ∀ x ∈ s.live, key x < b → x ∉ s'.live := by
  have hnone : s.gone = ∅ := by rw [Stock.gone, hs, Finset.sdiff_self]
  rcases short_or_full h hL hlo with hshort | hfull
  · intro x hx hkey
    exact (Stock.mem_gone.mp (hshort x hx hkey)).2
  · -- all batches were full: what is gone is everything below the last bound
    have hsub : s'.gone ⊆ below key s'.ever d := by
      simpa [hnone] using gone_subset_below h hhi
    have heq : s'.gone = below key s'.ever d :=
      Finset.eq_of_subset_of_card_le hsub (by rw [hnone, Finset.card_empty] at hfull; omega)
    intro x hx hkey
    have hmem : x ∈ s'.gone := by
      rw [heq, mem_below]
      exact ⟨ever_subset h (s.live_subset hx), hkey.trans_le hbd⟩
    exact (Stock.mem_gone.mp hmem).2

end BatchPrune
