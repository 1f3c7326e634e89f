import Mathlib.Data.Finset.Card
import Mathlib.Data.List.Nodup

/-!
# Handles that are given out and taken back

A library gives out handles and takes them back.  A handle is new when it is given out,
and taking back one that is not out is an error.  What is out belongs to somebody or has
been lost: `Owned xs n H` says that the handles in `xs` are out, no two the same, and `n`
others that nobody has.

## Main definitions

* `Handles`, `Handles.alloc`, `Handles.free` — the handles that are out, giving out and taking back.
* `Owned xs n H` — who has them.

## Main results

* `Owned.free` — **a handle that is owned can be taken back.**
-/

/-- The handles that are out; `next` has never been. -/
structure Handles where
  /-- The handles that are out. -/
  live : Finset ℕ
  /-- The handle to be given out next. -/
  next : ℕ
  /-- It has never been given out. -/
  lt_next : ∀ h ∈ live, h < next

namespace Handles

/-- Nothing is out. -/
def empty : Handles := ⟨∅, 0, by simp⟩

/-- The handle `next` is given out. -/
def alloc (H : Handles) : Handles where
  live := insert H.next H.live
  next := H.next + 1
  lt_next h hh := by
    rcases Finset.mem_insert.mp hh with rfl | hh
    · exact Nat.lt_succ_self _
    · exact (H.lt_next h hh).trans (Nat.lt_succ_self _)

/-- A handle is taken back, if it is out. -/
def free (h : ℕ) (H : Handles) : Option Handles :=
  if h ∈ H.live then
    some ⟨H.live.erase h, H.next, fun k hk => H.lt_next k (Finset.mem_of_mem_erase hk)⟩
  else none

variable {H : Handles} {xs : List ℕ} {n : ℕ}

theorem next_notMem (H : Handles) : H.next ∉ H.live := fun h => lt_irrefl _ (H.lt_next _ h)

/-- The handles in `xs` are out, and `n` others that nobody has. -/
structure Owned (xs : List ℕ) (n : ℕ) (H : Handles) : Prop where
  /-- No handle is in `xs` twice. -/
  nodup : xs.Nodup
  /-- The handles in `xs` are out. -/
  mem : ∀ x ∈ xs, x ∈ H.live
  /-- There are `n` more. -/
  card : H.live.card = xs.length + n

theorem owned_empty : Owned [] 0 empty := ⟨.nil, by simp, rfl⟩

theorem card_alloc (H : Handles) : H.alloc.live.card = H.live.card + 1 :=
  Finset.card_insert_of_notMem H.next_notMem

/-- A handle is given out to somebody. -/
theorem Owned.alloc (h : Owned xs n H) : Owned (xs ++ [H.next]) n H.alloc where
  nodup := by
    rw [List.nodup_append]
    refine ⟨h.nodup, List.nodup_singleton _, fun x hx y hy heq => ?_⟩
    rw [List.mem_singleton] at hy
    exact H.next_notMem (hy ▸ heq ▸ h.mem x hx)
  mem x hx := by
    rcases List.mem_append.mp hx with hx | hx
    · exact Finset.mem_insert_of_mem (h.mem x hx)
    · rw [List.mem_singleton.mp hx]
      exact Finset.mem_insert_self _ _
  card := by
    rw [card_alloc, h.card, List.length_append, List.length_singleton]
    omega

/-- A handle is given out and lost. -/
theorem Owned.leak (h : Owned xs n H) : Owned xs (n + 1) H.alloc where
  nodup := h.nodup
  mem x hx := Finset.mem_insert_of_mem (h.mem x hx)
  card := by
    rw [card_alloc, h.card]
    rfl

/-- **A handle that is owned can be taken back.** -/
theorem Owned.free (h : Owned xs n H) {i x : ℕ} (hx : xs[i]? = some x) :
    ∃ H', H.free x = some H' ∧ Owned (xs.eraseIdx i) n H' := by
  obtain ⟨hi, rfl⟩ := List.getElem?_eq_some_iff.mp hx
  have hmem := h.mem _ (List.getElem_mem hi)
  refine ⟨_, if_pos hmem, h.nodup.sublist (List.eraseIdx_sublist _ _), fun y hy => ?_, ?_⟩
  · refine Finset.mem_erase.mpr ⟨?_, h.mem y ((List.eraseIdx_sublist _ _).mem hy)⟩
    rintro rfl
    rw [List.mem_eraseIdx_iff_getElem] at hy
    obtain ⟨j, hj, hne, heq⟩ := hy
    exact hne (h.nodup.getElem_inj_iff.mp heq)
  · rw [Finset.card_erase_of_mem hmem, h.card, List.length_eraseIdx_of_lt hi]
    omega

end Handles
