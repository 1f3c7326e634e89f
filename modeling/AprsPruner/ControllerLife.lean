import AprsPruner.Cache
import AprsPruner.Lib.Handles
import AprsPruner.Lib.Run

/-!
# Making and deleting a controller

The constructor of `MemcachedController` asks libmemcached for two things, an instance
and a list of servers, and the destructor gives both back.  The constructor raises when
the list it is given is empty or libmemcached refuses, and as an object that was not
constructed is not destructed either, what it has been given by then is lost.

## Main definitions

* `CtorAnswers` — what libmemcached answers to the constructor.
* `MemcachedController.construct`, `MemcachedController.destroy` — the two.
* `Allocator`, `Allocator.step` — controllers are made and deleted.
* `ControllerOp.losesInstance`, `ControllerOp.losesServers` — what a constructor loses.

## Main results

* `MemcachedController.construct_eq` — **the ways the constructor ends.**
* `handles_accounted` — nothing is given back twice, and what is lost.
-/

namespace AprsPruner

open Transition

/-- What libmemcached answers to the constructor: whether it gives out an instance and
a list of servers, and what becomes of the push. -/
structure CtorAnswers where
  /-- `memcached_create` gives out an instance. -/
  create : Bool
  /-- `memcached_servers_parse` gives out a list. -/
  parse : Bool
  /-- What `memcached_server_push` returns. -/
  push : MemcachedReturn
  deriving DecidableEq, Repr

/-- What libmemcached has given out: instances and lists of servers. -/
structure Memcached where
  /-- The instances. -/
  instances : Handles
  /-- The lists of servers. -/
  servers : Handles

namespace MemcachedController

/-- The members of a controller; `st` and `servers` are the handles it holds. -/
structure Members where
  /-- `_servers` -/
  servers : ℕ
  /-- `_st` -/
  st : ℕ
  /-- `_memcachedServers` -/
  memcachedServers : Bytes
  /-- `_expire` -/
  expire : Int64
  deriving DecidableEq, Repr

/-- A constructor may raise; what libmemcached has given out stays so. -/
abbrev CtorM := ExceptT String (StateM Memcached)

/-- `memcached_create`: a handle, or `NULL`. -/
def memcachedCreate (answer : Bool) : CtorM (Option ℕ) :=
  modifyGet fun m =>
    if answer then (some m.instances.next, { m with instances := m.instances.alloc }) else (none, m)

/-- `memcached_servers_parse`: a handle, or `NULL`. -/
def memcachedServersParse (answer : Bool) : CtorM (Option ℕ) :=
  modifyGet fun m =>
    if answer then (some m.servers.next, { m with servers := m.servers.alloc }) else (none, m)

/-- `MemcachedController::MemcachedController`. -/
def construct (strerror : MemcachedReturn → String) (memcachedServers : Bytes) (a : CtorAnswers) :
    CtorM Members := do
  let expire := 0
  if memcachedServers.length = 0 then
    throw "invalid memcached server list"
  let some st ← memcachedCreate a.create
    | throw "unable to create memcached instance"
  let some servers ← memcachedServersParse a.parse
    | throw "unable to parse memcached servers list"
  if a.push ≠ .success then
    throw ("unable to push memcached server list; " ++ strerror a.push)
  return ⟨servers, st, memcachedServers, expire⟩

/-- `MemcachedController::~MemcachedController`: `none` if a handle is given back that is
not out. -/
def destroy (members : Members) (m : Memcached) : Option Memcached := do
  let servers ← m.servers.free members.servers
  let instances ← m.instances.free members.st
  return ⟨instances, servers⟩

variable (strerror : MemcachedReturn → String) (memcachedServers : Bytes) (a : CtorAnswers)

/-- **The ways the constructor ends.**  It raises for an empty list, or at the first
refusal, and else holds a handle of either kind. -/
theorem construct_eq (m : Memcached) :
    (construct strerror memcachedServers a).run.run m =
      if memcachedServers = [] then (.error "invalid memcached server list", m)
      else if ¬ a.create then (.error "unable to create memcached instance", m)
      else if ¬ a.parse then
        (.error "unable to parse memcached servers list",
          { m with instances := m.instances.alloc })
      else if a.push ≠ .success then
        (.error ("unable to push memcached server list; " ++ strerror a.push),
          ⟨m.instances.alloc, m.servers.alloc⟩)
      else
        (.ok ⟨m.servers.next, m.instances.next, memcachedServers, 0⟩,
          ⟨m.instances.alloc, m.servers.alloc⟩) := by
  obtain ⟨create, parse, push⟩ := a
  cases memcachedServers with
  | nil => rfl
  | cons b bs =>
    cases create with
    | false => rfl
    | true =>
      cases parse with
      | false => rfl
      | true => cases push <;> rfl

end MemcachedController

open MemcachedController

/-! ### Controllers come and go -/

/-- What libmemcached has given out, and the controllers there are. -/
structure Allocator where
  /-- What libmemcached has given out. -/
  memcached : Memcached
  /-- The controllers there are. -/
  live : List Members

/-- A controller is made for a list of servers, or the controller at an index, if there
is one, is deleted. -/
inductive ControllerOp where
  /-- A controller is made. -/
  | construct (memcachedServers : Bytes) (a : CtorAnswers) : ControllerOp
  /-- The controller at an index is deleted. -/
  | destroy (i : ℕ) : ControllerOp

namespace Allocator

/-- Nothing is there. -/
def empty : Allocator := ⟨⟨.empty, .empty⟩, []⟩

/-- One step; `none` if a handle is given back that is not out. -/
def step (strerror : MemcachedReturn → String) (s : Allocator) : ControllerOp → Option Allocator
  | .construct memcachedServers a =>
    match (construct strerror memcachedServers a).run.run s.memcached with
    | (.ok members, m) => some ⟨m, s.live ++ [members]⟩
    | (.error _, m) => some { s with memcached := m }
  | .destroy i =>
    match s.live[i]? with
    | none => some s
    | some members => (destroy members s.memcached).map (⟨·, s.live.eraseIdx i⟩)

end Allocator

namespace ControllerOp

/-- A constructor raises after it was given an instance. -/
def losesInstance : ControllerOp → Bool
  | .construct memcachedServers a =>
    memcachedServers ≠ [] ∧ a.create ∧ (¬ a.parse ∨ a.push ≠ .success)
  | .destroy _ => false

/-- A constructor raises after it was given a list of servers. -/
def losesServers : ControllerOp → Bool
  | .construct memcachedServers a =>
    memcachedServers ≠ [] ∧ a.create ∧ a.parse ∧ a.push ≠ .success
  | .destroy _ => false

end ControllerOp

/-! ### Who has what -/

/-- Every handle that is out belongs to one controller, but for those that were lost. -/
structure Allocator.Accounts (s : Allocator) (instances servers : ℕ) : Prop where
  /-- The instances are those of the controllers, and as many that were lost. -/
  instances : Handles.Owned (s.live.map Members.st) instances s.memcached.instances
  /-- So are the lists of servers. -/
  servers : Handles.Owned (s.live.map Members.servers) servers s.memcached.servers

/-- **One more step**: it does not fail, and what it loses is lost. -/
theorem Allocator.Accounts.step (strerror : MemcachedReturn → String) {s : Allocator} {i l : ℕ}
    (h : s.Accounts i l) (op : ControllerOp) :
    ∃ s', s.step strerror op = some s' ∧
      s'.Accounts (i + op.losesInstance.toNat) (l + op.losesServers.toNat) := by
  cases op with
  | construct memcachedServers a =>
    rw [Allocator.step, construct_eq]
    by_cases hempty : memcachedServers = []
    · rw [if_pos hempty]
      refine ⟨_, rfl, ?_⟩
      simpa [ControllerOp.losesInstance, ControllerOp.losesServers, hempty] using h
    rw [if_neg hempty]
    by_cases hcreate : a.create = true
    swap
    · rw [if_pos hcreate]
      refine ⟨_, rfl, ?_⟩
      simpa [ControllerOp.losesInstance, ControllerOp.losesServers, hcreate] using h
    rw [if_neg (not_not_intro hcreate)]
    by_cases hparse : a.parse = true
    swap
    · rw [if_pos hparse]
      refine ⟨_, rfl, ?_, ?_⟩
      · simpa [ControllerOp.losesInstance, hempty, hcreate, hparse] using h.instances.leak
      · simpa [ControllerOp.losesServers, hparse] using h.servers
    rw [if_neg (not_not_intro hparse)]
    by_cases hpush : a.push = .success
    · rw [if_neg (not_not_intro hpush)]
      refine ⟨_, rfl, ?_, ?_⟩
      · simpa [ControllerOp.losesInstance, hparse, hpush] using h.instances.alloc
      · simpa [ControllerOp.losesServers, hpush] using h.servers.alloc
    · rw [if_pos hpush]
      refine ⟨_, rfl, ?_, ?_⟩
      · simpa [ControllerOp.losesInstance, hempty, hcreate, hpush] using h.instances.leak
      · simpa [ControllerOp.losesServers, hempty, hcreate, hparse, hpush] using h.servers.leak
  | destroy k =>
    rw [Allocator.step]
    cases hk : s.live[k]? with
    | none => exact ⟨s, rfl, h⟩
    | some members =>
      obtain ⟨instances, hinstances, howned⟩ := h.instances.free (i := k) (x := members.st)
        (by rw [List.getElem?_map, hk]; rfl)
      obtain ⟨servers, hservers, howned'⟩ := h.servers.free (i := k) (x := members.servers)
        (by rw [List.getElem?_map, hk]; rfl)
      refine ⟨⟨⟨instances, servers⟩, s.live.eraseIdx k⟩, ?_, ?_, ?_⟩
      · simp [destroy, hinstances, hservers]
      · rw [List.eraseIdx_map] at howned
        exact howned
      · rw [List.eraseIdx_map] at howned'
        exact howned'

/-- **Any number of steps.** -/
theorem Allocator.Accounts.steps (strerror : MemcachedReturn → String) :
    ∀ (ops : List ControllerOp) {s : Allocator} {i l : ℕ}, s.Accounts i l →
      ∃ s', steps (Allocator.step strerror) s ops = some s' ∧ s'.Accounts
        (i + ops.countP ControllerOp.losesInstance) (l + ops.countP ControllerOp.losesServers) := by
  intro ops
  induction ops with
  | nil => exact fun h => ⟨_, rfl, h⟩
  | cons op ops ih =>
    intro s i l h
    obtain ⟨s₁, hs₁, h₁⟩ := h.step strerror op
    obtain ⟨s', hs', h'⟩ := ih h₁
    refine ⟨s', ?_, ?_⟩
    · rw [steps_cons, hs₁]
      exact hs'
    · have hcount : ∀ p : ControllerOp → Bool,
          (op :: ops).countP p = (p op).toNat + ops.countP p := by
        intro p
        cases hp : p op <;> simp [hp, Nat.add_comm]
      rw [hcount, hcount, ← Nat.add_assoc, ← Nat.add_assoc]
      exact h'

/-- **Nothing is given back twice, and what is lost.**  However controllers are made and
deleted, and whatever libmemcached answers: no handle is given back that is not out; and
what is out is one instance and one list of servers for each controller there is, no two
the same, with one instance for each constructor that raised after `memcached_create` and
one list for each that raised after `memcached_servers_parse`. -/
theorem handles_accounted (strerror : MemcachedReturn → String) (ops : List ControllerOp) :
    ∃ s, steps (Allocator.step strerror) .empty ops = some s ∧
      (s.live.map Members.st).Nodup ∧ (s.live.map Members.servers).Nodup ∧
      s.memcached.instances.live.card =
        s.live.length + ops.countP ControllerOp.losesInstance ∧
      s.memcached.servers.live.card = s.live.length + ops.countP ControllerOp.losesServers := by
  have hempty : Allocator.empty.Accounts 0 0 := ⟨Handles.owned_empty, Handles.owned_empty⟩
  obtain ⟨s, hs, hinstances, hservers⟩ := hempty.steps strerror ops
  refine ⟨s, hs, hinstances.nodup, hservers.nodup, ?_, ?_⟩
  · rw [hinstances.card, List.length_map, Nat.zero_add]
  · rw [hservers.card, List.length_map, Nat.zero_add]

end AprsPruner
