import AprsPruner.Cache

/-!
# Which pairs the cache admits

Every operation of `MemcachedController` has two checks in front of its request.  The
checks are to keep out a pair whose namespace and key are both empty, and a pair that
makes too long a key.  They are made on the joined key, which has a colon in it and
is never empty: the first check keeps nothing out.

## Main definitions

* `Call.message` — the message of the exception that a call raises.
* `Rejected` — a call raises before it sends anything.
* `ExactAdmission` — what the checks are to do with a call.

## Main results

* `run_admitted` — a call whose key is not too long sends one request.
* `rejected_iff` — a call is rejected exactly if its key is too long.
* `admission_exact_iff` — **when the checks do what they are to do.**
-/

namespace AprsPruner

open Transition

/-- What is said of a pair whose namespace and key are empty. -/
def zeroLength : String := "memcached namespace and key must not be 0 length"

/-- What is said of a pair that makes too long a key. -/
def tooLong : String := "memcached namespace and key must be less than 256 characters"

/-- The message of an exception. -/
def raisedMessage {α : Type} : Except String α → Option String
  | .ok _ => none
  | .error msg => some msg

/-- The message of the exception that a call raises, if it raises one. -/
def Call.message (strerror : MemcachedReturn → String) (srv : Server) (c : Call) :
    Option String :=
  match c.op with
  | .put (ns, key) value =>
    raisedMessage ((MemcachedController.put strerror c.fault ns key value c.expires).run.run
      ⟨srv, c.buf⟩).1
  | .replace (ns, key) value =>
    raisedMessage ((MemcachedController.replace strerror c.fault ns key value c.expires).run.run
      ⟨srv, c.buf⟩).1
  | .get (ns, key) =>
    raisedMessage ((MemcachedController.get strerror c.fault ns key).run.run ⟨srv, c.buf⟩).1

/-- The request of a call. -/
def Call.sends (c : Call) : ServerRequest :=
  match c.op with
  | .put p value => .set (joined p) value c.expires
  | .replace p value => .replace (joined p) value c.expires
  | .get p => .get (joined p)

/-- A call raises before it sends anything: the server, with the requests sent to it, and
the caller's `buf` are as they were. -/
structure Rejected (strerror : MemcachedReturn → String) (srv : Server) (c : Call)
    (msg : String) : Prop where
  /-- The call raises with the message. -/
  message : c.message strerror srv = some msg
  /-- Nothing is asked of the server. -/
  server : (c.run strerror srv).1 = srv
  /-- The caller's `buf` stays as it was. -/
  buf : (c.run strerror srv).2.buf = c.buf

/-- What the checks are to do with a call: they reject it if and only if its namespace
and key are empty or its joined key is too long, and the message says which. -/
structure ExactAdmission (strerror : MemcachedReturn → String) (srv : Server) (c : Call) :
    Prop where
  /-- What is rejected is too long, or has neither a namespace nor a key. -/
  rejected : (∃ msg, Rejected strerror srv c msg) ↔ c.op.key = ([], []) ∨ ¬ Fits c.op.key
  /-- The zero-length message is for a pair that has neither. -/
  empty : c.message strerror srv = some zeroLength ↔ c.op.key = ([], [])
  /-- The too-long message is for a key that is too long. -/
  long : c.message strerror srv = some tooLong ↔ ¬ Fits c.op.key

variable {strerror : MemcachedReturn → String} {srv : Server} {c : Call}

/-! ### A key that is too long -/

/-- The checks stop a key that is too long. -/
theorem run_checkKey_tooLong {p : Bytes × Bytes} (h : ¬ Fits p) (locals : CacheLocals) :
    (MemcachedController.checkKey (joined p)).run.run locals = (.error tooLong, locals) := by
  have hlong : ¬ (joined p).length < 1 := by simp [joined, MemcachedController.cacheKey]
  rw [MemcachedController.checkKey, if_neg hlong, if_pos (not_le.mp h)]
  rfl

/-- What comes after the checks does not happen. -/
theorem run_stopped {α : Type} {p : Bytes × Bytes} (h : ¬ Fits p) (f : CacheM α)
    (locals : CacheLocals) :
    (MemcachedController.checkKey (joined p) >>= fun _ => f).run.run locals =
      (.error tooLong, locals) := by
  rw [ExceptT.run_bind, StateT.run_bind, run_checkKey_tooLong h]
  rfl

theorem storing_tooLong {verb : String} {send : Bytes → Server → MemcachedReturn × Server}
    {ns key : Bytes} (h : ¬ Fits (ns, key)) (locals : CacheLocals) :
    (MemcachedController.storing strerror verb send ns key).run.run locals =
      (.error tooLong, locals) :=
  run_stopped h _ locals

theorem get_tooLong {fault : Option Int32} {ns key : Bytes} (h : ¬ Fits (ns, key))
    (locals : CacheLocals) :
    (MemcachedController.get strerror fault ns key).run.run locals = (.error tooLong, locals) :=
  run_stopped h _ locals

/-- A call whose key is too long is rejected, and its message says so. -/
theorem rejected_of_tooLong (h : ¬ Fits c.op.key) : Rejected strerror srv c tooLong := by
  obtain ⟨op, expires, fault, buf⟩ := c
  cases op with
  | put p value =>
    constructor <;> simp only [Call.message, Call.run, MemcachedController.put,
      storing_tooLong h] <;> rfl
  | replace p value =>
    constructor <;> simp only [Call.message, Call.run, MemcachedController.replace,
      storing_tooLong h] <;> rfl
  | get p =>
    constructor <;> simp only [Call.message, Call.run, get_tooLong h] <;> rfl

/-! ### A key that is not too long -/

/-- What the server says begins with other words than what the checks say. -/
theorem unable_ne (rest : String) :
    "memcached unable to " ++ rest ≠ zeroLength ∧ "memcached unable to " ++ rest ≠ tooLong := by
  constructor <;>
  · intro h
    have hchars := congrArg (fun s : String => s.toList[10]?) h
    simp [zeroLength, tooLong] at hchars

theorem Server.requests_set (fault : Option Int32) (key value : Bytes) (expires : Int64) :
    (Server.set fault key value expires srv).2.requests =
      srv.requests ++ [.set key value expires] := by
  cases fault <;> rfl

theorem Server.requests_replace (fault : Option Int32) (key value : Bytes) (expires : Int64) :
    (Server.replace fault key value expires srv).2.requests =
      srv.requests ++ [.replace key value expires] := by
  cases fault with
  | some code => rfl
  | none => cases h : srv.contents key <;> simp [Server.replace, Server.sent, Server.store, h]

theorem Server.requests_get (fault : Option Int32) (key : Bytes) :
    (Server.get fault key srv).2.requests = srv.requests ++ [.get key] := by
  cases fault with
  | some code => rfl
  | none => cases h : srv.contents key <;> simp [Server.get, Server.sent, h]

/-- A value that is not too long to be asked for is stored by one request, and what is
raised comes from the server. -/
theorem storing_admitted (strerror : MemcachedReturn → String) (verb : String)
    (send : Bytes → Server → MemcachedReturn × Server) {ns key : Bytes} (h : Fits (ns, key))
    (srv : Server) (buf : Bytes) :
    ((MemcachedController.storing strerror verb send ns key).run.run ⟨srv, buf⟩).2.server =
        (send (joined (ns, key)) srv).2 ∧
      ∀ msg, raisedMessage ((MemcachedController.storing strerror verb send ns key).run.run
        ⟨srv, buf⟩).1 = some msg → ∃ rest, msg = "memcached unable to " ++ rest := by
  rw [run_storing h]
  obtain ⟨rc, srv'⟩ := send (joined (ns, key)) srv
  cases rc with
  | success => exact ⟨rfl, nofun⟩
  | _ =>
    refine ⟨rfl, fun msg hmsg => ?_⟩
    rw [← Option.some.inj hmsg, String.append_assoc, String.append_assoc]
    exact ⟨_, rfl⟩

theorem get_admitted (strerror : MemcachedReturn → String) (fault : Option Int32)
    {ns key : Bytes} (h : Fits (ns, key)) (srv : Server) (buf : Bytes) :
    ((MemcachedController.get strerror fault ns key).run.run ⟨srv, buf⟩).2.server =
        (Server.get fault (joined (ns, key)) srv).2 ∧
      ∀ msg, raisedMessage ((MemcachedController.get strerror fault ns key).run.run
        ⟨srv, buf⟩).1 = some msg → ∃ rest, msg = "memcached unable to " ++ rest := by
  rw [run_get h]
  obtain ⟨⟨str, rc⟩, srv'⟩ := Server.get fault (joined (ns, key)) srv
  cases rc with
  | success => exact ⟨rfl, nofun⟩
  | notFound => exact ⟨rfl, nofun⟩
  | _ =>
    refine ⟨rfl, fun msg hmsg => ?_⟩
    have hget : "memcached unable to get; " = "memcached unable to " ++ "get; " := by decide
    rw [← Option.some.inj hmsg, hget, String.append_assoc]
    exact ⟨_, rfl⟩

/-- **A call whose key is not too long sends one request**, and what it raises comes from
the server. -/
theorem run_admitted (h : Fits c.op.key) :
    (c.run strerror srv).1.requests = srv.requests ++ [c.sends] ∧
      ∀ msg, c.message strerror srv = some msg → ∃ rest, msg = "memcached unable to " ++ rest := by
  obtain ⟨op, expires, fault, buf⟩ := c
  cases op with
  | put p value =>
    obtain ⟨hserver, hraised⟩ := storing_admitted strerror "set"
      (fun cacheKey => Server.set fault cacheKey value expires) h srv buf
    refine ⟨?_, hraised⟩
    exact (congrArg Server.requests hserver).trans (Server.requests_set fault _ value expires)
  | replace p value =>
    obtain ⟨hserver, hraised⟩ := storing_admitted strerror "replace"
      (fun cacheKey => Server.replace fault cacheKey value expires) h srv buf
    refine ⟨?_, hraised⟩
    exact (congrArg Server.requests hserver).trans (Server.requests_replace fault _ value expires)
  | get p =>
    obtain ⟨hserver, hraised⟩ := get_admitted strerror fault h srv buf
    exact ⟨(congrArg Server.requests hserver).trans (Server.requests_get fault _), hraised⟩

/-! ### What the checks do -/

/-- A call is rejected exactly if its key is too long. -/
theorem rejected_iff : (∃ msg, Rejected strerror srv c msg) ↔ ¬ Fits c.op.key := by
  constructor
  · rintro ⟨msg, hrejected⟩ hfits
    have hsent : (c.run strerror srv).1.requests = srv.requests ++ [c.sends] :=
      (run_admitted hfits).1
    rw [hrejected.server] at hsent
    simp at hsent
  · exact fun h => ⟨tooLong, rejected_of_tooLong h⟩

/-- The too-long message is raised exactly if the key is too long. -/
theorem message_eq_tooLong_iff : c.message strerror srv = some tooLong ↔ ¬ Fits c.op.key := by
  refine ⟨fun h hfits => ?_, fun h => (rejected_of_tooLong h).message⟩
  obtain ⟨rest, hrest⟩ := (run_admitted hfits).2 _ h
  exact (unable_ne rest).2 hrest.symm

/-- The zero-length message is never raised: a joined key has a colon in it. -/
theorem message_ne_zeroLength : c.message strerror srv ≠ some zeroLength := by
  intro h
  by_cases hfits : Fits c.op.key
  · obtain ⟨rest, hrest⟩ := (run_admitted hfits).2 _ h
    exact (unable_ne rest).1 hrest.symm
  · rw [(rejected_of_tooLong hfits).message] at h
    exact absurd h (by decide)

/-- **When the checks do what they are to do**: with any call but one whose namespace and
key are both empty.  Whether a call is rejected depends on its pair alone. -/
theorem admission_exact_iff (strerror : MemcachedReturn → String) :
    (∀ srv c, ExactAdmission strerror srv c ↔ ¬ c.op.key = ([], [])) ∧
      ∀ srv srv' c c', c.op.key = c'.op.key →
        ((∃ msg, Rejected strerror srv c msg) ↔ ∃ msg, Rejected strerror srv' c' msg) := by
  constructor
  · intro srv c
    constructor
    · intro h hempty
      exact message_ne_zeroLength (h.empty.mpr hempty)
    · intro hne
      refine ⟨?_, ?_, message_eq_tooLong_iff⟩
      · rw [rejected_iff, or_iff_right hne]
      · exact iff_of_false message_ne_zeroLength hne
  · intro srv srv' c c' hkey
    rw [rejected_iff, rejected_iff, hkey]

/-- A value put under an empty namespace and an empty key: the server is sent the key `:`. -/
theorem empty_pair_admitted :
    (Call.run (fun _ => "") Server.fresh ⟨.put ([], []) [118], 0, none, []⟩).1.requests =
        [.set [58] [118] 0] ∧
      ¬ ExactAdmission (fun _ => "") Server.fresh ⟨.put ([], []) [118], 0, none, []⟩ := by
  refine ⟨by decide, fun h => ?_⟩
  have hmessage := h.empty.mpr rfl
  exact absurd hmessage (by decide)

end AprsPruner
