import AprsPruner.Basic
import AprsPruner.Lib.Rekey

/-!
# The cache

`MemcachedController` keeps values under a namespace and a key.  The server knows
one string per value, so the controller joins the two with a colon.  The cache is a
map from pairs to values exactly if no two of the pairs in use are joined to the
same string: a namespace with a colon in it may take a value of another's.

The server is a map from strings to values.  A request that fails changes nothing.

## Main definitions

* `Server` — the server, and the calls of libmemcached that ask something of it.
* `MemcachedController.cacheKey` — namespace and key as one string.
* `MemcachedController.put`, `replace`, `get` — the three operations.
* `Call`, `Call.run` — a call and its outcome.
* `mapStep` — the same call on a map from pairs to values.

## Main results

* `run_spec` — a call asks the server for one thing, under the joined key.
* `cache_is_pair_map_iff` — **when the cache is a map from pairs to values.**
* `injOn_joined_of_colon_free` — namespaces without a colon are kept apart.
-/

namespace AprsPruner

open Transition

/-- The bytes of a `std::string`. -/
abbrev Bytes := List UInt8

/-! ### The server -/

/-- The values of `memcached_return` that matter; `error` stands for the others. -/
inductive MemcachedReturn where
  /-- `MEMCACHED_SUCCESS` -/
  | success : MemcachedReturn
  /-- `MEMCACHED_NOTFOUND` -/
  | notFound : MemcachedReturn
  /-- `MEMCACHED_NOTSTORED` -/
  | notStored : MemcachedReturn
  /-- Any other code. -/
  | error (code : Int32) : MemcachedReturn
  deriving DecidableEq, Repr

/-- A request: a call of libmemcached.  What libmemcached then sends to the server, if
it sends anything, is not recorded. -/
inductive ServerRequest where
  /-- `memcached_set`. -/
  | set (key value : Bytes) (expires : Int64) : ServerRequest
  /-- `memcached_replace`. -/
  | replace (key value : Bytes) (expires : Int64) : ServerRequest
  /-- `memcached_get`. -/
  | get (key : Bytes) : ServerRequest
  /-- `memcached_flush`. -/
  | flush (expires : Int64) : ServerRequest
  deriving DecidableEq, Repr

/-- The server behind libmemcached. -/
structure Server where
  /-- What it keeps, under joined keys. -/
  contents : Bytes → Option Bytes
  /-- The calls of libmemcached so far. -/
  requests : List ServerRequest

namespace Server

/-- A server that keeps nothing. -/
def fresh : Server := ⟨Rekey.empty, []⟩

/-- One more call of libmemcached. -/
def sent (srv : Server) (r : ServerRequest) : Server :=
  { srv with requests := srv.requests ++ [r] }

/-- The server keeps the value under the key. -/
def store (srv : Server) (key value : Bytes) : Server :=
  { srv with contents := Function.update srv.contents key (some value) }

/-- The call of `memcached_set`, recorded whether it fails or not. -/
def set (fault : Option Int32) (key value : Bytes) (expires : Int64) (srv : Server) :
    MemcachedReturn × Server :=
  let srv := srv.sent (.set key value expires)
  match fault with
  | some code => (.error code, srv)
  | none => (.success, srv.store key value)

/-- The call of `memcached_replace`, recorded whether it fails or not. -/
def replace (fault : Option Int32) (key value : Bytes) (expires : Int64) (srv : Server) :
    MemcachedReturn × Server :=
  let srv := srv.sent (.replace key value expires)
  match fault with
  | some code => (.error code, srv)
  | none =>
    match srv.contents key with
    | none => (.notStored, srv)
    | some _ => (.success, srv.store key value)

/-- The call of `memcached_get`, recorded whether it fails or not: the bytes it returns, if
any, and the code. -/
def get (fault : Option Int32) (key : Bytes) (srv : Server) :
    (Bytes × MemcachedReturn) × Server :=
  let srv := srv.sent (.get key)
  match fault with
  | some code => (([], .error code), srv)
  | none =>
    match srv.contents key with
    | none => (([], .notFound), srv)
    | some value => ((value, .success), srv)

variable {srv : Server} {key value old : Bytes} {expires : Int64}

theorem replace_absent (h : srv.contents key = none) :
    replace none key value expires srv =
      (.notStored, srv.sent (.replace key value expires)) := by
  simp [replace, sent, h]

theorem replace_present (h : srv.contents key = some old) :
    replace none key value expires srv =
      (.success, (srv.sent (.replace key value expires)).store key value) := by
  simp [replace, sent, h]

theorem get_absent (h : srv.contents key = none) :
    get none key srv = (([], .notFound), srv.sent (.get key)) := by
  simp [get, sent, h]

theorem get_present (h : srv.contents key = some value) :
    get none key srv = ((value, .success), srv.sent (.get key)) := by
  simp [get, sent, h]

end Server

/-! ### The controller -/

/-- `MemcachedController::memcachedReturnEnum`. -/
inductive MemcachedReturnEnum where
  /-- `MEMCACHED_CONTROLLER_NOTFOUND` -/
  | notFound : MemcachedReturnEnum
  /-- `MEMCACHED_CONTROLLER_SUCCESS` -/
  | success : MemcachedReturnEnum
  /-- `MEMCACHED_CONTROLLER_ERROR` -/
  | error : MemcachedReturnEnum
  deriving DecidableEq, Repr

/-- What a call works on: the server and the caller's `buf`. -/
structure CacheLocals where
  /-- The server behind `_st`. -/
  server : Server
  /-- The caller's `buf`. -/
  buf : Bytes

/-- A call may raise a `MemcachedController_Exception` with its message. -/
abbrev CacheM := ExceptT String (StateM CacheLocals)

namespace MemcachedController

/-- `ns + ":" + key`. -/
def cacheKey (ns key : Bytes) : Bytes := ns ++ [58] ++ key

/-- The checks every operation makes before it sends its request. -/
def checkKey (cacheKey : Bytes) : CacheM Unit := do
  if cacheKey.length < 1 then
    throw "memcached namespace and key must not be 0 length"
  if cacheKey.length > 255 then
    throw "memcached namespace and key must be less than 256 characters"

/-- A request to the server. -/
def request {α : Type} (f : Server → α × Server) : CacheM α :=
  modifyGet fun locals => ((f locals.server).1, { locals with server := (f locals.server).2 })

variable (strerror : MemcachedReturn → String) (fault : Option Int32)

/-- What `put` and `replace` share: they differ in the request they send and in the
word for it in their message. -/
def storing (verb : String) (send : Bytes → Server → MemcachedReturn × Server)
    (ns key : Bytes) : CacheM Unit := do
  let cacheKey := cacheKey ns key
  checkKey cacheKey
  let rc ← request (send cacheKey)
  if rc ≠ .success then
    throw ("memcached unable to " ++ verb ++ "; " ++ strerror rc)

/-- `MemcachedController::put`. -/
def put (ns key value : Bytes) (expires : Int64) : CacheM Unit :=
  storing strerror "set" (fun cacheKey => Server.set fault cacheKey value expires) ns key

/-- `MemcachedController::replace`. -/
def replace (ns key value : Bytes) (expires : Int64) : CacheM Unit :=
  storing strerror "replace" (fun cacheKey => Server.replace fault cacheKey value expires) ns key

/-- `MemcachedController::get`. -/
def get (ns key : Bytes) : CacheM MemcachedReturnEnum := do
  let cacheKey := cacheKey ns key
  checkKey cacheKey
  let (str, rc) ← request (Server.get fault cacheKey)
  let ret ← match rc with
    | .success => do
      modify fun locals => { locals with buf := str }
      pure MemcachedReturnEnum.success
    | .notFound => pure .notFound
    | _ => pure .error
  if ret = .error then
    throw ("memcached unable to get; " ++ strerror rc)
  return ret

end MemcachedController

/-! ### Calls and their outcomes -/

/-- A call of the controller: its operation on a pair of namespace and key, the
expiry passed on, the error of the server if there is one, and the caller's `buf`. -/
structure Call where
  /-- What is called, on which pair. -/
  op : Rekey.Op (Bytes × Bytes) Bytes
  /-- The expiry passed on. -/
  expires : Int64
  /-- The error libmemcached answers with, if it does. -/
  fault : Option Int32
  /-- The caller's `buf` before the call. -/
  buf : Bytes

/-- What a caller sees of a call. -/
inductive Returned where
  /-- `put` or `replace` has returned. -/
  | void : Returned
  /-- `get` has returned a status. -/
  | status (ret : MemcachedReturnEnum) : Returned
  /-- The call has raised. -/
  | raised : Returned
  deriving DecidableEq, Repr

/-- How a call ends, and the caller's `buf` after it. -/
structure Outcome where
  /-- What the call returns. -/
  returned : Returned
  /-- The caller's `buf` after the call. -/
  buf : Bytes
  deriving DecidableEq, Repr

/-- A call of the controller. -/
def Call.run (strerror : MemcachedReturn → String) (srv : Server) (c : Call) :
    Server × Outcome :=
  let (returned, locals) : Returned × CacheLocals :=
    match c.op with
    | .put (ns, key) value =>
      ((MemcachedController.put strerror c.fault ns key value c.expires).run.run
        ⟨srv, c.buf⟩).map (fun | .ok () => .void | .error _ => .raised) id
    | .replace (ns, key) value =>
      ((MemcachedController.replace strerror c.fault ns key value c.expires).run.run
        ⟨srv, c.buf⟩).map (fun | .ok () => .void | .error _ => .raised) id
    | .get (ns, key) =>
      ((MemcachedController.get strerror c.fault ns key).run.run
        ⟨srv, c.buf⟩).map (fun | .ok ret => .status ret | .error _ => .raised) id
  (locals.server, ⟨returned, locals.buf⟩)

/-- What a call asks of a map from pairs to values. -/
def Call.request (c : Call) : Rekey.Request (Bytes × Bytes) Bytes := ⟨c.op, c.fault.isSome⟩

/-- How a call ends whose map gives the answer. -/
def Call.outcome (c : Call) : Rekey.Answer Bytes → Outcome
  | .stored => ⟨.void, c.buf⟩
  | .found value => ⟨.status .success, value⟩
  | .absent => ⟨.status .notFound, c.buf⟩
  | .failed => ⟨.raised, c.buf⟩

/-- A call on a map from pairs to values. -/
def mapStep : (Bytes × Bytes → Option Bytes) → Call → (Bytes × Bytes → Option Bytes) × Outcome :=
  translate Rekey.step Call.request Call.outcome

/-- A pair of namespace and key as the server knows it. -/
def joined (p : Bytes × Bytes) : Bytes := MemcachedController.cacheKey p.1 p.2

/-- The joined key is not too long. -/
def Fits (p : Bytes × Bytes) : Prop := (joined p).length ≤ 255

instance (p : Bytes × Bytes) : Decidable (Fits p) :=
  inferInstanceAs (Decidable ((joined p).length ≤ 255))

variable {strerror : MemcachedReturn → String}

/-- The checks let a key pass that is not too long. -/
theorem run_checkKey {p : Bytes × Bytes} (h : Fits p) (locals : CacheLocals) :
    (MemcachedController.checkKey (joined p)).run.run locals = (.ok (), locals) := by
  have hshort : ¬ (joined p).length > 255 := not_lt.mpr h
  have hlong : ¬ (joined p).length < 1 := by simp [joined, MemcachedController.cacheKey]
  rw [MemcachedController.checkKey, if_neg hlong, if_neg hshort]
  rfl

/-- What comes after the checks is all that happens. -/
theorem run_checked {α : Type} {p : Bytes × Bytes} (h : Fits p) (f : CacheM α)
    (locals : CacheLocals) :
    ((MemcachedController.checkKey (joined p) >>= fun _ => f).run.run locals) =
      f.run.run locals := by
  rw [ExceptT.run_bind, StateT.run_bind, run_checkKey h]
  rfl

/-- A request is answered at once. -/
theorem run_request {α β : Type} (f : Server → α × Server) (g : α → CacheM β)
    (locals : CacheLocals) :
    (MemcachedController.request f >>= g).run.run locals =
      (g (f locals.server).1).run.run { locals with server := (f locals.server).2 } := rfl

/-- Once the checks pass, the answer of the server decides how a value is stored. -/
theorem run_storing {verb : String} {send : Bytes → Server → MemcachedReturn × Server}
    {ns key : Bytes} (h : Fits (ns, key)) (srv : Server) (buf : Bytes) :
    (MemcachedController.storing strerror verb send ns key).run.run ⟨srv, buf⟩ =
      match send (joined (ns, key)) srv with
      | (.success, srv') => (.ok (), ⟨srv', buf⟩)
      | (rc, srv') =>
        (.error ("memcached unable to " ++ verb ++ "; " ++ strerror rc), ⟨srv', buf⟩) := by
  refine (run_checked h _ _).trans ?_
  refine (run_request (send (joined (ns, key))) _ _).trans ?_
  obtain ⟨rc, srv'⟩ := send (joined (ns, key)) srv
  cases rc <;> rfl

/-- Once the checks pass, the answer of the server decides what `get` returns. -/
theorem run_get {fault : Option Int32} {ns key : Bytes} (h : Fits (ns, key)) (srv : Server)
    (buf : Bytes) :
    (MemcachedController.get strerror fault ns key).run.run ⟨srv, buf⟩ =
      match Server.get fault (joined (ns, key)) srv with
      | ((str, .success), srv') => (.ok .success, ⟨srv', str⟩)
      | ((_, .notFound), srv') => (.ok .notFound, ⟨srv', buf⟩)
      | ((_, rc), srv') => (.error ("memcached unable to get; " ++ strerror rc), ⟨srv', buf⟩) := by
  refine (run_checked h _ _).trans ?_
  refine (run_request (Server.get fault (joined (ns, key))) _ _).trans ?_
  obtain ⟨⟨str, rc⟩, srv'⟩ := Server.get fault (joined (ns, key)) srv
  cases rc <;> rfl

/-! ### When the cache is a map from pairs -/

/-- The server answers as a map does, and the caller is told. -/
def Serves (c : Call) (r : Server × Outcome)
    (a : (Bytes → Option Bytes) × Rekey.Answer Bytes) : Prop :=
  r.1.contents = a.1 ∧ r.2 = c.outcome a.2

/-- **A call asks the server for one thing, under the joined key.** -/
theorem run_spec (srv : Server) (c : Call) (h : Fits c.op.key) :
    Serves c (c.run strerror srv) (Rekey.step srv.contents (c.request.rename joined)) := by
  obtain ⟨op, expires, fault, buf⟩ := c
  cases op with
  | put p value =>
    simp only [Call.run, MemcachedController.put, run_storing h]
    cases fault <;> exact ⟨rfl, rfl⟩
  | replace p value =>
    simp only [Call.run, MemcachedController.replace, run_storing h]
    cases fault with
    | some code => exact ⟨rfl, rfl⟩
    | none =>
      show Serves _ _ (Rekey.step srv.contents ⟨.replace (joined p) value, false⟩)
      -- the server replaces only what it has
      cases hv : srv.contents (joined p) with
      | none =>
        rw [Server.replace_absent hv, Rekey.step_replace_absent value hv]
        exact ⟨rfl, rfl⟩
      | some old =>
        rw [Server.replace_present hv, Rekey.step_replace_present value hv]
        exact ⟨rfl, rfl⟩
  | get p =>
    simp only [Call.run, run_get h]
    cases fault with
    | some code => exact ⟨rfl, rfl⟩
    | none =>
      show Serves _ _ (Rekey.step srv.contents ⟨.get (joined p), false⟩)
      cases hv : srv.contents (joined p) with
      | none =>
        rw [Server.get_absent hv, Rekey.step_get_absent hv]
        exact ⟨rfl, rfl⟩
      | some value =>
        rw [Server.get_present hv, Rekey.step_get_present hv]
        exact ⟨rfl, rfl⟩

/-- A call on the map that the server keeps, from joined keys to values. -/
def serverStep : (Bytes → Option Bytes) → Call → (Bytes → Option Bytes) × Outcome :=
  translate (fun m r => Rekey.step m (Rekey.Request.rename joined r)) Call.request Call.outcome

/-- Any sequence of calls is served by the map that the server keeps. -/
theorem outputs_run (calls : List Call) (h : ∀ c ∈ calls, Fits c.op.key) :
    outputs (Call.run strerror) Server.fresh calls = outputs serverStep Rekey.empty calls := by
  refine outputs_eq_of_related (R := fun srv m => srv.contents = m) (fun c => Fits c.op.key)
    ?_ calls _ _ rfl h
  rintro srv _ c rfl hfits
  obtain ⟨hcontents, houtcome⟩ := @run_spec strerror srv c hfits
  exact ⟨houtcome, hcontents⟩

/-- A caller can tell the answers of the map apart. -/
theorem Call.outcome_injective (c : Call) : Function.Injective c.outcome := by
  intro a b h
  cases a <;> cases b <;> simp_all [Call.outcome]

/-- Every request is made by some call. -/
theorem exists_calls (rs : List (Rekey.Request (Bytes × Bytes) Bytes)) :
    ∃ calls : List Call, calls.map Call.request = rs := by
  refine List.map_surjective_iff.mpr ?_ rs
  rintro ⟨op, fails⟩
  cases fails with
  | true => exact ⟨⟨op, 0, some 1, []⟩, rfl⟩
  | false => exact ⟨⟨op, 0, none, []⟩, rfl⟩

/-- **When the cache is a map from pairs to values**: whatever is called about the pairs
in `S`, every call ends as on a map from pairs, exactly if no two of the pairs are
joined to the same key. -/
theorem cache_is_pair_map_iff (strerror : MemcachedReturn → String) (S : Set (Bytes × Bytes))
    (hfits : ∀ p ∈ S, Fits p) :
    (∀ calls : List Call, (∀ c ∈ calls, c.op.key ∈ S) →
      outputs (Call.run strerror) Server.fresh calls = outputs mapStep Rekey.empty calls) ↔
      Set.InjOn joined S := by
  have hsame : ∀ calls : List Call, (∀ c ∈ calls, c.op.key ∈ S) →
      (outputs (Call.run strerror) Server.fresh calls = outputs mapStep Rekey.empty calls ↔
        outputs Rekey.step Rekey.empty (calls.map Call.request) =
          outputs (fun m r => Rekey.step m (r.rename joined)) Rekey.empty
            (calls.map Call.request)) := by
    intro calls hcalls
    rw [outputs_run calls fun c hc => hfits _ (hcalls c hc), eq_comm]
    exact outputs_translate_eq_iff Call.outcome_injective calls _ _
  refine Iff.trans ?_ (Rekey.outputs_rename_iff Bytes joined S)
  constructor
  · intro h rs hrs
    obtain ⟨calls, rfl⟩ := exists_calls rs
    have hcalls : ∀ c ∈ calls, c.op.key ∈ S := fun c hc =>
      hrs c.request (List.mem_map_of_mem hc)
    exact (hsame calls hcalls).mp (h calls hcalls)
  · intro h calls hcalls
    refine (hsame calls hcalls).mpr (h _ fun r hr => ?_)
    obtain ⟨c, hc, rfl⟩ := List.mem_map.mp hr
    exact hcalls c hc

/-- A namespace without a colon is what stands before the first one. -/
theorem takeWhile_joined {p : Bytes × Bytes} (h : 58 ∉ p.1) :
    (joined p).takeWhile (· != 58) = p.1 := by
  have hns : ∀ b ∈ p.1, (b != 58) = true := fun b hb => by
    have hne : b ≠ 58 := fun heq => h (heq ▸ hb)
    simpa using hne
  rw [joined, MemcachedController.cacheKey, List.append_assoc,
    List.takeWhile_append_of_pos hns]
  simp

/-- Namespaces without a colon are kept apart. -/
theorem injOn_joined_of_colon_free {S : Set (Bytes × Bytes)} (h : ∀ p ∈ S, 58 ∉ p.1) :
    Set.InjOn joined S := by
  rintro ⟨ns, key⟩ hp ⟨ns', key'⟩ hp' heq
  have hns : ns = ns' := by
    have hbefore := congrArg (List.takeWhile (· != 58)) heq
    rwa [takeWhile_joined (h _ hp), takeWhile_joined (h _ hp')] at hbefore
  subst hns
  have hkey : key = key' := by simpa [joined, MemcachedController.cacheKey] using heq
  rw [hkey]

/-- Two namespaces without a colon, and one key in both. -/
theorem colon_free_calls_kept_apart :
    outputs (Call.run fun _ => "") Server.fresh
        [⟨.put ([97], [99]) [118], 0, none, []⟩, ⟨.get ([98], [99]), 0, none, []⟩] =
      outputs mapStep Rekey.empty
        [⟨.put ([97], [99]) [118], 0, none, []⟩, ⟨.get ([98], [99]), 0, none, []⟩] := by
  have hpairs : ∀ p ∈ ({([97], [99]), ([98], [99])} : Set (Bytes × Bytes)),
      Fits p ∧ 58 ∉ p.1 := by
    rintro p (rfl | rfl) <;> decide
  have hapart := injOn_joined_of_colon_free fun p hp => (hpairs p hp).2
  refine (cache_is_pair_map_iff _ _ fun p hp => (hpairs p hp).1).mpr hapart _ ?_
  simp [Rekey.Op.key]

/-- The namespace `a:b` with the key `c`, and the namespace `a` with the key `b:c`: what is
put under the first is what the second gets, and a map from pairs has nothing there. -/
theorem colon_in_namespace_clashes :
    Fits ([97, 58, 98], [99]) ∧ Fits ([97], [98, 58, 99]) ∧
      outputs (Call.run fun _ => "") Server.fresh
        [⟨.put ([97, 58, 98], [99]) [118], 0, none, []⟩,
          ⟨.get ([97], [98, 58, 99]), 0, none, []⟩] =
        [⟨.void, []⟩, ⟨.status .success, [118]⟩] ∧
      outputs mapStep Rekey.empty
        [⟨.put ([97, 58, 98], [99]) [118], 0, none, []⟩,
          ⟨.get ([97], [98, 58, 99]), 0, none, []⟩] =
        [⟨.void, []⟩, ⟨.status .notFound, []⟩] := by
  refine ⟨by decide, by decide, ?_, ?_⟩
  · decide
  · decide

end AprsPruner
