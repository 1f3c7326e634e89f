import AprsPruner.Lib.Run
import Mathlib.Data.Set.Function
import Mathlib.Logic.Function.Basic

/-!
# Maps under other names for their keys

A map from keys to values takes requests to put, to replace and to get a value; a
request may fail, and then changes nothing.  Another map keeps the same values
under other names for the keys.  The two give the same answers to every list of
requests exactly if no two of the keys in use have the same name.

## Main definitions

* `Request`, `Answer`, `step` — a map as a machine that answers requests.
* `Request.rename` — the request under the name of its key.

## Main results

* `outputs_rename` — an injective renaming goes unnoticed.
* `outputs_rename_iff` — **a renaming goes unnoticed exactly if it is injective.**
-/

namespace Rekey

open Transition

variable {κ η ν : Type*}

/-- What is asked of a map. -/
inductive Op (κ ν : Type*) where
  /-- The value is stored under the key. -/
  | put (key : κ) (value : ν) : Op κ ν
  /-- The value is stored if the key has one. -/
  | replace (key : κ) (value : ν) : Op κ ν
  /-- The value of the key is asked for. -/
  | get (key : κ) : Op κ ν

/-- A request, and whether it fails. -/
structure Request (κ ν : Type*) where
  /-- What is asked. -/
  op : Op κ ν
  /-- It fails. -/
  fails : Bool

/-- What a map answers. -/
inductive Answer (ν : Type*) where
  /-- The value was stored. -/
  | stored : Answer ν
  /-- The value of the key. -/
  | found (value : ν) : Answer ν
  /-- The key has no value. -/
  | absent : Answer ν
  /-- The request failed. -/
  | failed : Answer ν

/-- The key a request is about. -/
def Op.key : Op κ ν → κ
  | .put key _ => key
  | .replace key _ => key
  | .get key => key

/-- The request under the name of its key. -/
def Op.rename (name : κ → η) : Op κ ν → Op η ν
  | .put key value => .put (name key) value
  | .replace key value => .replace (name key) value
  | .get key => .get (name key)

/-- The request under the name of its key. -/
def Request.rename (name : κ → η) (r : Request κ ν) : Request η ν :=
  ⟨r.op.rename name, r.fails⟩

/-- What a map does with a request that does not fail.  Only a key that is there
is replaced. -/
def serve [DecidableEq κ] (m : κ → Option ν) : Op κ ν → (κ → Option ν) × Answer ν
  | .put key value => (Function.update m key (some value), .stored)
  | .replace key value =>
    match m key with
    | none => (m, .failed)
    | some _ => (Function.update m key (some value), .stored)
  | .get key => (m, (m key).elim .absent .found)

/-- What a map does with a request. -/
def step [DecidableEq κ] (m : κ → Option ν) (r : Request κ ν) : (κ → Option ν) × Answer ν :=
  if r.fails then (m, .failed) else serve m r.op

theorem step_get_absent [DecidableEq κ] {m : κ → Option ν} {key : κ} (h : m key = none) :
    step m ⟨.get key, false⟩ = (m, .absent) := by
  simp [step, serve, h]

theorem step_get_present [DecidableEq κ] {m : κ → Option ν} {key : κ} {value : ν}
    (h : m key = some value) : step m ⟨.get key, false⟩ = (m, .found value) := by
  simp [step, serve, h]

theorem step_replace_absent [DecidableEq κ] {m : κ → Option ν} {key : κ} (value : ν)
    (h : m key = none) : step m ⟨.replace key value, false⟩ = (m, .failed) := by
  simp [step, serve, h]

theorem step_replace_present [DecidableEq κ] {m : κ → Option ν} {key : κ} {old : ν} (value : ν)
    (h : m key = some old) :
    step m ⟨.replace key value, false⟩ = (Function.update m key (some value), .stored) := by
  simp [step, serve, h]

/-- The empty map. -/
def empty : κ → Option ν := fun _ => none

/-- The second map keeps the values of the keys in `S` under their names. -/
def Renamed (name : κ → η) (S : Set κ) (m : κ → Option ν) (m' : η → Option ν) : Prop :=
  ∀ key ∈ S, m key = m' (name key)

variable [DecidableEq κ] [DecidableEq η] {name : κ → η} {S : Set κ} {m : κ → Option ν}
  {m' : η → Option ν}

/-- Storing a value under a key, and under its name. -/
theorem Renamed.update (h : Renamed name S m m') (hname : Set.InjOn name S) {key : κ}
    (hkey : key ∈ S) (value : ν) :
    Renamed name S (Function.update m key (some value))
      (Function.update m' (name key) (some value)) := by
  intro k hk
  by_cases heq : k = key
  · subst heq
    rw [Function.update_self, Function.update_self]
  · have hne : name k ≠ name key := fun hnames => heq (hname hk hkey hnames)
    rw [Function.update_of_ne heq, Function.update_of_ne hne, h k hk]

/-- **One request to either map**: the same answer, and the values stay the same. -/
theorem Renamed.step (h : Renamed name S m m') (hname : Set.InjOn name S) {r : Request κ ν}
    (hkey : r.op.key ∈ S) :
    (Rekey.step m r).2 = (Rekey.step m' (r.rename name)).2 ∧
      Renamed name S (Rekey.step m r).1 (Rekey.step m' (r.rename name)).1 := by
  obtain ⟨op, fails⟩ := r
  cases fails with
  | true => exact ⟨rfl, h⟩
  | false =>
    cases op with
    | put key value => exact ⟨rfl, h.update hname hkey value⟩
    | replace key value =>
      have hsame : m key = m' (name key) := h key hkey
      cases hv : m key with
      | none =>
        have hv' : m' (name key) = none := hsame ▸ hv
        simp [Rekey.step, serve, Request.rename, Op.rename, hv, hv', h]
      | some old =>
        have hv' : m' (name key) = some old := hsame ▸ hv
        simp only [Rekey.step, serve, Request.rename, Op.rename, hv, hv', Bool.false_eq_true,
          if_false, true_and]
        exact h.update hname hkey value
    | get key =>
      have hsame : m key = m' (name key) := h key hkey
      refine ⟨?_, h⟩
      show (m key).elim Answer.absent Answer.found = (m' (name key)).elim .absent .found
      rw [hsame]

/-- **An injective renaming goes unnoticed.** -/
theorem outputs_rename (h : Renamed name S m m') (hname : Set.InjOn name S)
    (rs : List (Request κ ν)) (hrs : ∀ r ∈ rs, r.op.key ∈ S) :
    outputs step m rs = outputs (fun m' r => step m' (r.rename name)) m' rs := by
  refine outputs_eq_of_related (R := Renamed name S) (fun r => r.op.key ∈ S) ?_ rs m m' h hrs
  intro m m' r hR hkey
  exact hR.step hname hkey

/-- The answers when a value is put under one key and another key is asked for. -/
theorem outputs_put_get (a b : κ) (value : ν) :
    outputs step (empty : κ → Option ν) [⟨.put a value, false⟩, ⟨.get b, false⟩] =
      [.stored, if b = a then .found value else .absent] := by
  by_cases h : b = a <;> simp [step, serve, empty, h]

variable (ν) in
/-- **A renaming goes unnoticed exactly if it is injective** on the keys in use. -/
theorem outputs_rename_iff [Nonempty ν] (name : κ → η) (S : Set κ) :
    (∀ rs : List (Request κ ν), (∀ r ∈ rs, r.op.key ∈ S) →
      outputs step empty rs = outputs (fun m' r => step m' (r.rename name)) empty rs) ↔
      Set.InjOn name S := by
  constructor
  · intro h a ha b hb hnames
    obtain ⟨value⟩ := ‹Nonempty ν›
    have hanswers := h [⟨.put a value, false⟩, ⟨.get b, false⟩] (by simp [Op.key, ha, hb])
    -- under the common name the second request finds what the first has put
    have hrenamed := outputs_put_get (name a) (name b) value
    rw [if_pos hnames.symm] at hrenamed
    rw [outputs_put_get] at hanswers
    by_contra hne
    rw [if_neg (Ne.symm hne)] at hanswers
    have hclash : [Answer.stored, Answer.absent] = [.stored, .found value] :=
      hanswers.trans hrenamed
    simp at hclash
  · intro hname rs hrs
    have hempty : Renamed name S (empty : κ → Option ν) empty := fun _ _ => rfl
    exact outputs_rename hempty hname rs hrs

end Rekey
