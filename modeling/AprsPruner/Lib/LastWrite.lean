import Mathlib.Data.List.Basic

/-!
# Where the value of a forgetful map comes from

A map whose entries may be lost at any time, and a history of what was done to it.
An event may *offer* a value for a key, and may *void* a key: from there on the
value of no earlier event is there.  What the map holds was offered at some point,
and has not been voided since.

## Main definitions

* `MayHold offers voids es key value` — after the events `es`, the key may hold the
  value.
* `Covers offers voids m es` — what the map holds is what it may hold.

## Main results

* `Covers.snoc` — **the rule for one more event**: a value is kept only where it is
  not voided, and a new one was offered.
-/

namespace LastWrite

variable {κ ν ε : Type*} (offers : ε → κ → ν → Prop) (voids : ε → κ → Prop)

/-- The value was offered for the key, and no later event has voided it. -/
def MayHold (es : List ε) (key : κ) (value : ν) : Prop :=
  ∃ before e after, es = before ++ e :: after ∧ offers e key value ∧ ∀ e' ∈ after, ¬ voids e' key

/-- What the map holds is what it may hold. -/
def Covers (m : κ → Option ν) (es : List ε) : Prop :=
  ∀ key value, m key = some value → MayHold offers voids es key value

variable {offers voids} {m m' : κ → Option ν} {es : List ε} {e : ε}

theorem covers_nil (h : ∀ key, m key = none) : Covers offers voids m [] := by
  intro key value hm
  rw [h key] at hm
  exact absurd hm (by simp)

theorem MayHold.snoc {key : κ} {value : ν} (h : MayHold offers voids es key value)
    (he : ¬ voids e key) : MayHold offers voids (es ++ [e]) key value := by
  obtain ⟨before, e₀, after, rfl, hoffers, hafter⟩ := h
  refine ⟨before, e₀, after ++ [e], by simp, hoffers, fun e' he' => ?_⟩
  rcases List.mem_append.mp he' with he' | he'
  · exact hafter e' he'
  · exact List.mem_singleton.mp he' ▸ he

/-- **The rule for one more event.** -/
theorem Covers.snoc (h : Covers offers voids m es)
    (hstep : ∀ key value, m' key = some value →
      m key = some value ∧ ¬ voids e key ∨ offers e key value) :
    Covers offers voids m' (es ++ [e]) := by
  intro key value hm'
  rcases hstep key value hm' with ⟨hm, hkept⟩ | hoffers
  · exact (h key value hm).snoc hkept
  · exact ⟨es, e, [], rfl, hoffers, by simp⟩

end LastWrite
