import AprsPruner.Admission
import AprsPruner.Lib.LastWrite

/-!
# The cache over a server that forgets

A memcached server drops values when it likes: they expire, or memory runs short.
A request that ends in an error may have been carried out all the same.  What
`MemcachedController::get` finds is still no more than what was put under the same
joined key, and nothing that a later call has replaced or a flush has removed.

The operations without an expiry pass on the one last set by `expire`.

## Main definitions

* `Controller`, `ControllerEvent`, `Controller.step` — the controller and its server.
* `Offers`, `Voids` — a call writes a value, and ends those written before.

## Main results

* `Controller.covers_step` — every step keeps the server to what was written.
* `get_returns_last_write` — **what `get` finds, and when it finds nothing.**
* `requests_controller` — what libmemcached is asked, with which expiry.
-/

namespace AprsPruner

open Transition LastWrite

/-- The controller: its server, and `_expire`. -/
structure Controller where
  /-- The server behind `_st`. -/
  server : Server
  /-- `_expire` -/
  expire : Int64

/-- What happens: a call with its own expiry, `put` or `replace` without one, `expire`,
`flush`, or the server drops keys.  A call whose request ends in an error may have
`landed`. -/
inductive ControllerEvent where
  /-- A call with its own expiry. -/
  | call (c : Call) (landed : Bool) : ControllerEvent
  /-- `put` or `replace` without an expiry. -/
  | callDefault (c : Call) (landed : Bool) : ControllerEvent
  /-- `expire` -/
  | setExpire (expire : Int64) : ControllerEvent
  /-- `flush` -/
  | flush (expire : Int64) (fault : Option Int32) : ControllerEvent
  /-- The server drops keys. -/
  | forget (keys : Bytes → Bool) : ControllerEvent

namespace Server

/-- The server has carried out a request that it answered with an error. -/
def land (op : Rekey.Op (Bytes × Bytes) Bytes) (srv : Server) : Server :=
  match op with
  | .put p value => srv.store (joined p) value
  | .replace p value =>
    if (srv.contents (joined p)).isSome then srv.store (joined p) value else srv
  | .get _ => srv

/-- The server drops keys. -/
def forget (keys : Bytes → Bool) (srv : Server) : Server :=
  { srv with contents := fun key => if keys key then none else srv.contents key }

/-- The call of `memcached_flush`, recorded whether it fails or not.  With an expiry the
values go later. -/
def flush (expire : Int64) (fault : Option Int32) (srv : Server) : Server :=
  let srv := srv.sent (.flush expire)
  if fault = none ∧ expire = 0 then srv.forget fun _ => true else srv

theorem requests_flush (expire : Int64) (fault : Option Int32) (srv : Server) :
    (srv.flush expire fault).requests = srv.requests ++ [.flush expire] := by
  simp only [flush]
  split <;> rfl

/-- Only a `flush` without expiry that does not fail removes values. -/
theorem contents_flush (expire : Int64) (fault : Option Int32) (srv : Server) (key : Bytes) :
    (srv.flush expire fault).contents key =
      if fault = none ∧ expire = 0 then none else srv.contents key := by
  simp only [flush]
  split <;> rfl

end Server

namespace Controller

variable (strerror : MemcachedReturn → String)

/-- A controller just constructed, over a server that keeps nothing. -/
def fresh : Controller := ⟨.fresh, 0⟩

/-- A call, and what becomes of its request. -/
def called (s : Controller) (c : Call) (landed : Bool) : Controller × Option Outcome :=
  let res := c.run strerror s.server
  let landed := landed ∧ c.fault ≠ none ∧ Fits c.op.key
  ({ s with server := if landed then res.1.land c.op else res.1 }, some res.2)

/-- One step; a call has an outcome. -/
def step (s : Controller) : ControllerEvent → Controller × Option Outcome
  | .call c landed => s.called strerror c landed
  | .callDefault c landed => s.called strerror { c with expires := s.expire } landed
  | .setExpire expire => ({ s with expire := expire }, none)
  | .flush expire fault => ({ s with server := s.server.flush expire fault }, none)
  | .forget keys => ({ s with server := s.server.forget keys }, none)

end Controller

/-- The call of an event. -/
def ControllerEvent.call? : ControllerEvent → Option Call
  | .call c _ | .callDefault c _ => some c
  | _ => none

/-- The value that a call asks the server to keep, under its joined key. -/
def Call.writes (c : Call) : Option (Bytes × Bytes) :=
  match c.op with
  | .put p value | .replace p value => some (joined p, value)
  | .get _ => none

/-- An event with its outcome. -/
abbrev Happened := ControllerEvent × Option Outcome

/-- The event is a `put` or `replace` of the value under the joined key. -/
def Offers (h : Happened) (key value : Bytes) : Prop :=
  ∃ c, h.1.call? = some c ∧ c.writes = some (key, value)

/-- The event ends all values written before under the joined key: it is a `put` or
`replace` that returned, or a `flush` without expiry that did not fail. -/
def Voids (h : Happened) (key : Bytes) : Prop :=
  (∃ c value buf, h.1.call? = some c ∧ c.writes = some (key, value) ∧
    h.2 = some ⟨.void, buf⟩) ∨ h.1 = .flush 0 none

/-- The step of the controller, with its outcome, as a relation. -/
def Controller.Step (strerror : MemcachedReturn → String) (s : Controller) (h : Happened)
    (s' : Controller) : Prop := s.step strerror h.1 = (s', h.2)

variable {strerror : MemcachedReturn → String} {s s' : Controller} {h : Happened}

/-! ### One step -/

/-- A call that is rejected raises. -/
theorem returned_of_tooLong (strerror : MemcachedReturn → String) (srv : Server) {c : Call}
    (h : ¬ Fits c.op.key) :
    (c.run strerror srv).2.returned = .raised := by
  obtain ⟨op, expires, fault, buf⟩ := c
  cases op with
  | put p value => simp only [Call.run, MemcachedController.put, storing_tooLong h]; rfl
  | replace p value => simp only [Call.run, MemcachedController.replace, storing_tooLong h]; rfl
  | get p => simp only [Call.run, get_tooLong h]; rfl

/-- **A call leaves the server's values or writes its own**, and only then returns. -/
theorem contents_run (strerror : MemcachedReturn → String) (srv : Server) (c : Call)
    (key : Bytes) :
    (c.run strerror srv).1.contents key = srv.contents key ∧
        (∀ value, c.writes = some (key, value) → (c.run strerror srv).2.returned = .raised) ∨
      ∃ value, c.writes = some (key, value) ∧ (c.run strerror srv).1.contents key = some value := by
  by_cases hfits : Fits c.op.key
  · obtain ⟨hcontents, houtcome⟩ := @run_spec strerror srv c hfits
    rw [hcontents, houtcome]
    obtain ⟨op, expires, fault, buf⟩ := c
    cases fault with
    | some code => exact Or.inl ⟨rfl, fun _ _ => rfl⟩
    | none =>
      cases op with
      | get p =>
        have hsame : (Rekey.step srv.contents ⟨.get (joined p), false⟩).1 = srv.contents := rfl
        exact Or.inl ⟨congrFun hsame key, fun value hw => by simp [Call.writes] at hw⟩
      | put p value =>
        have hput : (Rekey.step srv.contents ⟨.put (joined p) value, false⟩).1 =
            Function.update srv.contents (joined p) (some value) := rfl
        rcases eq_or_ne key (joined p) with rfl | hne
        · refine Or.inr ⟨value, rfl, ?_⟩
          exact (congrFun hput _).trans (Function.update_self _ _ _)
        · refine Or.inl ⟨(congrFun hput key).trans (Function.update_of_ne hne _ _), ?_⟩
          intro value' hw
          simp [Call.writes, hne.symm] at hw
      | replace p value =>
        cases hold : srv.contents (joined p) with
        | none =>
          have habsent := Rekey.step_replace_absent value hold
          refine Or.inl ⟨congrFun (congrArg Prod.fst habsent) key, fun _ _ => ?_⟩
          exact congrArg (fun a => (Call.outcome ⟨.replace p value, expires, none, buf⟩
            a.2).returned) habsent
        | some old =>
          have hpresent := Rekey.step_replace_present value hold
          rcases eq_or_ne key (joined p) with rfl | hne
          · refine Or.inr ⟨value, rfl, ?_⟩
            exact (congrFun (congrArg Prod.fst hpresent) _).trans (Function.update_self _ _ _)
          · refine Or.inl ⟨(congrFun (congrArg Prod.fst hpresent) key).trans
              (Function.update_of_ne hne _ _), ?_⟩
            intro value' hw
            simp [Call.writes, hne.symm] at hw
  · have hrejected : Rejected strerror srv c tooLong := rejected_of_tooLong hfits
    rw [hrejected.server]
    exact Or.inl ⟨rfl, fun _ _ => returned_of_tooLong strerror srv hfits⟩

/-- What lands is what the call writes. -/
theorem contents_land (srv : Server) (c : Call) (key : Bytes) :
    (srv.land c.op).contents key = srv.contents key ∨
      ∃ value, c.writes = some (key, value) ∧ (srv.land c.op).contents key = some value := by
  obtain ⟨op, expires, fault, buf⟩ := c
  have hstore : ∀ p value, (srv.store (joined p) value).contents key = srv.contents key ∨
      ∃ value', some (joined p, value) = some (key, value') ∧
        (srv.store (joined p) value).contents key = some value' := by
    intro p value
    rcases eq_or_ne key (joined p) with rfl | hne
    · exact Or.inr ⟨value, rfl, Function.update_self _ _ _⟩
    · exact Or.inl (Function.update_of_ne hne _ _)
  cases op with
  | put p value => exact hstore p value
  | get p => exact Or.inl rfl
  | replace p value =>
    simp only [Server.land]
    split
    · exact hstore p value
    · exact Or.inl rfl

namespace Controller

/-- A call keeps the server to what was written. -/
theorem covers_called {es : List Happened} {e : ControllerEvent} {c c₀ : Call} {landed : Bool}
    (h : Covers Offers Voids s.server.contents es) (he : e.call? = some c₀)
    (hwrites : c₀.writes = c.writes) :
    Covers Offers Voids (s.called strerror c landed).1.server.contents
      (es ++ [(e, (s.called strerror c landed).2)]) := by
  refine h.snoc fun key value hvalue => ?_
  have hfinal : (s.called strerror c landed).1.server.contents key =
        (c.run strerror s.server).1.contents key ∨
      ∃ v, c.writes = some (key, v) ∧
        (s.called strerror c landed).1.server.contents key = some v := by
    simp only [called]
    split
    · exact contents_land _ c key
    · exact Or.inl rfl
  have hoffers : ∀ v, c.writes = some (key, v) → some v = some value →
      Offers (e, (s.called strerror c landed).2) key value := by
    rintro v hw hv
    obtain rfl := Option.some.inj hv
    exact ⟨c₀, he, hwrites.trans hw⟩
  rcases hfinal with hsame | ⟨v, hw, hv⟩
  · rw [hsame] at hvalue
    rcases contents_run strerror s.server c key with ⟨hkept, hraised⟩ | ⟨v, hw, hv⟩
    · refine Or.inl ⟨hkept.symm.trans hvalue, ?_⟩
      -- had the call returned it would have written its own value
      rintro (⟨c', value', buf, hc', hw, hreturned⟩ | hflush)
      · obtain rfl := Option.some.inj (he.symm.trans hc')
        have houtcome := congrArg Outcome.returned (Option.some.inj hreturned)
        rw [hraised value' (hwrites.symm.trans hw)] at houtcome
        exact absurd houtcome (by simp)
      · rw [show e = .flush 0 none from hflush] at he
        exact absurd he (by simp [ControllerEvent.call?])
    · exact Or.inr (hoffers v hw (hv.symm.trans hvalue))
  · exact Or.inr (hoffers v hw (hv.symm.trans hvalue))

/-- **Every step keeps the server to what was written.** -/
theorem covers_step {es : List Happened} (h : Covers Offers Voids s.server.contents es)
    {x : Happened} (hs : Step strerror s x s') :
    Covers Offers Voids s'.server.contents (es ++ [x]) := by
  obtain ⟨e, o⟩ := x
  have hs : s.step strerror e = (s', o) := hs
  obtain ⟨rfl, rfl⟩ := Prod.mk.inj hs
  cases e with
  | call c landed => exact covers_called h rfl rfl
  | callDefault c landed => exact covers_called h rfl rfl
  | setExpire expire =>
    refine h.snoc fun key value hvalue => Or.inl ⟨hvalue, ?_⟩
    rintro (⟨c', _, _, hc', -⟩ | hflush)
    · exact absurd hc' (by simp [ControllerEvent.call?])
    · exact absurd hflush (by simp)
  | forget keys =>
    refine h.snoc fun key value hvalue => Or.inl ⟨?_, ?_⟩
    · have hkept : (if keys key then none else s.server.contents key) = some value := hvalue
      split at hkept
      · exact absurd hkept (by simp)
      · exact hkept
    · rintro (⟨c', _, _, hc', -⟩ | hflush)
      · exact absurd hc' (by simp [ControllerEvent.call?])
      · exact absurd hflush (by simp)
  | flush expire fault =>
    refine h.snoc fun key value hvalue => ?_
    have hkept : (s.server.flush expire fault).contents key = some value := hvalue
    rw [Server.contents_flush] at hkept
    split at hkept
    · exact absurd hkept (by simp)
    · next hreached =>
      refine Or.inl ⟨hkept, ?_⟩
      rintro (⟨c', _, _, hc', -⟩ | hflush)
      · exact absurd hc' (by simp [ControllerEvent.call?])
      · obtain ⟨rfl, rfl⟩ := ControllerEvent.flush.inj hflush
        exact hreached ⟨rfl, rfl⟩

theorem covers_of_run {es es' : List Happened} (h : Run (Step strerror) s es' s')
    (h₀ : Covers Offers Voids s.server.contents es) :
    Covers Offers Voids s'.server.contents (es ++ es') := by
  induction h generalizing es with
  | nil => simpa using h₀
  | @cons _ _ _ x xs hs _ ih =>
    have hrest := ih (covers_step h₀ hs)
    rwa [List.append_assoc, List.singleton_append] at hrest

end Controller

/-! ### What `get` finds -/

/-- **What `get` returns is what the server has under the joined key.** -/
theorem get_run (strerror : MemcachedReturn → String) (srv : Server) {c : Call}
    {p : Bytes × Bytes} (hop : c.op = .get p) :
    ((c.run strerror srv).2.returned = .status .success →
      srv.contents (joined p) = some (c.run strerror srv).2.buf) ∧
    ((c.run strerror srv).2.returned ≠ .status .success → (c.run strerror srv).2.buf = c.buf) ∧
    (c.fault = none → Fits p → ∀ value, srv.contents (joined p) = some value →
      (c.run strerror srv).2 = ⟨.status .success, value⟩) := by
  obtain ⟨op, expires, fault, buf⟩ := c
  obtain rfl : op = .get p := hop
  by_cases hfits : Fits p
  · obtain ⟨-, houtcome⟩ := @run_spec strerror srv ⟨.get p, expires, fault, buf⟩ hfits
    rw [houtcome]
    cases fault with
    | some code => exact ⟨fun h => absurd h (by simp [Call.outcome, Rekey.step, Call.request,
        Rekey.Request.rename]), fun _ => rfl, fun h => absurd h (by simp)⟩
    | none =>
      have hstep : (Rekey.step srv.contents
          ((⟨.get p, expires, none, buf⟩ : Call).request.rename joined)).2 =
            (srv.contents (joined p)).elim .absent .found := rfl
      rw [hstep]
      cases hv : srv.contents (joined p) with
      | none => exact ⟨fun h => absurd h (by simp [Call.outcome]), fun _ => rfl,
          fun _ _ v hv' => absurd hv' (by simp)⟩
      | some value =>
        refine ⟨fun _ => rfl, fun h => absurd rfl h, fun _ _ v hv' => ?_⟩
        obtain rfl := Option.some.inj hv'
        rfl
  · have hraised : ((⟨.get p, expires, fault, buf⟩ : Call).run strerror srv).2.returned =
        .raised := returned_of_tooLong strerror srv hfits
    have hbuf : Rejected strerror srv ⟨.get p, expires, fault, buf⟩ tooLong :=
      rejected_of_tooLong hfits
    exact ⟨fun h => absurd (hraised.symm.trans h) (by simp), fun _ => hbuf.buf,
      fun _ h => absurd h hfits⟩

/-- **What `get` finds was the last to be written.**  Over any run of a controller,
whatever its server drops, answers with an error or carries out nevertheless: if
`get` succeeds, the value it returns was put, or put in place of another, under the
same joined key, and since then no `put` or `replace` under that key has returned
and no `flush` without expiry has gone through; and if it does not succeed, the
caller's `buf` is as it was. -/
theorem get_returns_last_write (strerror : MemcachedReturn → String) (es : List Happened)
    (s : Controller) (h : Run (Controller.Step strerror) .fresh es s) (c : Call)
    (p : Bytes × Bytes) (hop : c.op = .get p) (landed : Bool) :
    ∃ o, (s.step strerror (.call c landed)).2 = some o ∧
      (o.returned = .status .success → ∃ before x after, es = before ++ x :: after ∧
        Offers x (joined p) o.buf ∧ ∀ x' ∈ after, ¬ Voids x' (joined p)) ∧
      (o.returned ≠ .status .success → o.buf = c.buf) := by
  have hempty : Covers Offers Voids Controller.fresh.server.contents [] := covers_nil fun _ => rfl
  have hcovers := Controller.covers_of_run h hempty
  obtain ⟨hfound, hother, -⟩ := get_run strerror s.server hop
  exact ⟨_, rfl, fun hsuccess => hcovers _ _ (hfound hsuccess), hother⟩

/-- The value `v` is put under the empty namespace and key `k` while the server times
out, and is there. -/
theorem timed_out_put_found :
    let put : Call := ⟨.put ([], [107]) [118], 0, some 31, []⟩
    let get : Call := ⟨.get ([], [107]), 0, none, []⟩
    let es : List Happened := [(.call put true, some ⟨.raised, []⟩)]
    ∃ s, Run (Controller.Step fun _ => "") .fresh es s ∧
      (s.step (fun _ => "") (.call get false)).2 = some ⟨.status .success, [118]⟩ ∧
      ∃ before x after, es = before ++ x :: after ∧ Offers x [58, 107] [118] ∧
        ∀ x' ∈ after, ¬ Voids x' [58, 107] := by
  intro put get es
  have hrun : Run (Controller.Step fun _ => "") .fresh es
      (Controller.fresh.step (fun _ => "") (.call put true)).1 := .cons rfl (.nil _)
  obtain ⟨o, ho, hfound, -⟩ := get_returns_last_write _ es _ hrun get ([], [107]) rfl false
  have hget : ((Controller.fresh.step (fun _ => "") (.call put true)).1.step (fun _ => "")
      (.call get false)).2 = some ⟨.status .success, [118]⟩ := by decide
  obtain rfl := Option.some.inj (ho.symm.trans hget)
  exact ⟨_, hrun, hget, hfound rfl⟩

/-! ### What is still there -/

/-- The requests of a history: one for each call whose key is not too long, with its
own expiry or the one last set, and one for each `flush`. -/
def asked : Int64 → List Happened → List ServerRequest
  | _, [] => []
  | expire, (.call c _, _) :: es =>
    (if Fits c.op.key then [c.sends] else []) ++ asked expire es
  | expire, (.callDefault c _, _) :: es =>
    (if Fits c.op.key then [Call.sends { c with expires := expire }] else []) ++ asked expire es
  | _, (.setExpire expire, _) :: es => asked expire es
  | expire, (.flush e _, _) :: es => .flush e :: asked expire es
  | expire, (.forget _, _) :: es => asked expire es

theorem requests_called (s : Controller) (c : Call) (landed : Bool) :
    (s.called strerror c landed).1.server.requests =
      s.server.requests ++ if Fits c.op.key then [c.sends] else [] := by
  have hland : ∀ srv : Server, (srv.land c.op).requests = srv.requests := by
    intro srv
    cases c.op with
    | put p value => rfl
    | get p => rfl
    | replace p value => rw [Server.land]; split <;> rfl
  have hrun : (c.run strerror s.server).1.requests =
      s.server.requests ++ if Fits c.op.key then [c.sends] else [] := by
    by_cases hfits : Fits c.op.key
    · rw [if_pos hfits, (run_admitted hfits).1]
    · have hrejected : Rejected strerror s.server c tooLong := rejected_of_tooLong hfits
      rw [if_neg hfits, hrejected.server, List.append_nil]
  simp only [Controller.called]
  split
  · rw [hland, hrun]
  · exact hrun

/-- **What libmemcached is asked, with which expiry.**  Over any run of a controller
libmemcached is called, in order, once for each call whose joined key is not too long,
with its `set`, `replace` or `get`, and once for each `flush`, and for nothing else; a
`put` or `replace` without an expiry passes on the one last given to `expire`, and zero
before that. -/
theorem requests_controller (strerror : MemcachedReturn → String) (es : List Happened)
    (s s' : Controller) (h : Run (Controller.Step strerror) s es s') :
    s'.server.requests = s.server.requests ++ asked s.expire es := by
  induction h with
  | nil => simp [asked]
  | @cons s _ _ x es hs _ ih =>
    obtain ⟨e, o⟩ := x
    have hs : s.step strerror e = (_, o) := hs
    obtain ⟨rfl, rfl⟩ := Prod.mk.inj hs
    rw [ih]
    cases e with
    | call c landed =>
      simp only [asked, requests_called, List.append_assoc]
      rfl
    | callDefault c landed =>
      simp only [asked, requests_called, List.append_assoc]
      rfl
    | setExpire expire => rfl
    | forget keys => rfl
    | flush expire fault =>
      have hflush : (s.server.flush expire fault).requests = _ := Server.requests_flush _ _ _
      simp only [asked, hflush, List.append_assoc]
      rfl

/-- The second value is put with the expiry set before, and then flushed. -/
theorem expiry_passed_on :
    let put : Call := ⟨.put ([], []) [118], 5, none, []⟩
    let es : List Happened := [(.call put false, some ⟨.void, []⟩), (.setExpire 60, none),
      (.callDefault put false, some ⟨.void, []⟩), (.flush 0 none, none)]
    ∃ s, Run (Controller.Step fun _ => "") .fresh es s ∧
      s.server.requests = [.set [58] [118] 5, .set [58] [118] 60, .flush 0] := by
  intro put es
  let s₁ := (Controller.fresh.step (fun _ => "") (.call put false)).1
  let s₂ := (s₁.step (fun _ => "") (.setExpire 60)).1
  let s₃ := (s₂.step (fun _ => "") (.callDefault put false)).1
  have hrun : Run (Controller.Step fun _ => "") .fresh es
      (s₃.step (fun _ => "") (.flush 0 none)).1 :=
    .cons rfl (.cons rfl (.cons rfl (.cons rfl (.nil _))))
  exact ⟨_, hrun, (requests_controller _ es _ _ hrun).trans (by decide)⟩

end AprsPruner
