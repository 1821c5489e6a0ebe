import Mistress.Sched
import Mistress.Operation
import Mathlib.Logic.Function.Basic

/-!
# The runtime

`Runtime` is the scheduler together with what its sessions are doing, the
watchers of the event loop and the tables of finalizers. The code of a session is
arbitrary: when it runs, it calls operations, closes connections, returns or
raises errors in any order.

A *top-level* session has a table of finalizers of its own, run by `clean` when
its coroutine ends. The sessions `parallel` runs the functions in, its children,
share the table and the connections of their parent, and clean nothing: they are
of the *family* of the top-level session.

What is queued stays queued when `clean` destroys the watchers of the family. A child
that is resumed then, by an event of before, may destroy its watcher a second time
(`freesTwice`).

Which connection `http` closes is decided in `Pool`, where its calls are followed: it is
one that no other call uses (`Pool.closing_alone`), and the step of `close` asks for
as much. A connection is closed a second time only where `receive` has ended with `closed`
or `parse_failed` (`Pool.act_reclose`), and this has no step of its own here.

* `Base`: the invariant: the scheduler's own, and how the states of the sessions
  fit its queue (`base_of_reachable`).
-/

namespace Mistress

open Transition

/-- A watcher, with the id of the session to be resumed. -/
structure Watcher where
  handle : Nat
  id : Nat
  kind : WatcherKind
  deriving DecidableEq

/-- The values a session is planned with. -/
structure Values where
  args : Wake
  /-- History: the watcher whose event planned the session, if one did. -/
  source : Option Nat
  deriving DecidableEq

/-- An entry of a table of finalizers. -/
inductive Finalizer
  /-- The session `id` destroys the watcher. -/
  | destroy (id handle : Nat)
  /-- The connection is closed: `fin` of `Session:connect`. -/
  | fin (conn : Nat)
  deriving DecidableEq

/-- What a session is doing. -/
inductive SState
  /-- It is not registered: it has not been created yet, or its coroutine has ended. -/
  | absent
  /-- Its coroutine has not started. -/
  | fresh
  /-- Its code runs. -/
  | user
  /-- An operation has raised an error in its code: `STOP` if `stop`. -/
  | raised (op : Op) (stop : Bool)
  /-- It is suspended in the operation. -/
  | waiting (op : Op)
  deriving DecidableEq

/-- A session. -/
structure Session where
  /-- `_gonna_shut_down` -/
  gonnaShutDown : Bool
  /-- The id of the top-level session whose table of finalizers it uses. -/
  root : Nat
  /-- The call of `parallel` it runs a function of; `none` at top level. -/
  join : Option Nat
  state : SState

/-- A call of `parallel`. -/
structure Join where
  parent : Nat
  fnsLeft : Nat
  /-- The ids of the sessions of its functions. -/
  children : List Nat

/-- The sessions, the scheduler and the event loop. -/
structure Runtime where
  sched : Sched Unit Values
  session : Nat → Session
  /-- The active watchers. -/
  watchers : List Watcher
  /-- The tables of finalizers, by the top-level session. -/
  finalizers : Nat → List Finalizer
  /-- The open connections. -/
  conns : List Nat
  nextHandle : Nat
  join : Nat → Join
  nextJoin : Nat
  /-- History: the sessions started, in order. -/
  started : List Nat
  /-- History: the calls of `parallel` that have returned. -/
  returned : List Nat
  /-- History: the sessions whose `run` has been left by `STOP`. -/
  stopped : List Nat
  /-- History: the top-level sessions that have run their finalizers. -/
  cleaned : List Nat

/-- The code of the session runs, or an error is on its way out of it. -/
def SState.Runs : SState → Prop
  | .user | .raised _ _ => True
  | _ => False

namespace Runtime

/-- The actions of the event loop and of the sessions. -/
inductive Act
  /-- Between two passes, the callback of a watcher. -/
  | event (handle : Nat) (args : Wake)
  /-- Between two passes, `Manager:shut_down`, the table of the sessions being
      gone through in the order `ids`. -/
  | shutDown (ids : List Nat)
  /-- A pass begins. -/
  | start
  /-- The next entry of the queue is fetched, and its session resumed. Should it
      be in `send`, `again` tells whether the socket is full again. -/
  | fetch (again : Bool)
  /-- The pass is over. -/
  | done
  /-- A top-level session is registered and planned. -/
  | spawn
  /-- The running session waits for an event: `sleep`, `receive`, `connect`,
      `accept`, or a `send` that finds the socket full. -/
  | block (kind : WatcherKind)
  /-- The running session calls `parallel`, with `n` functions. -/
  | parallel (n : Nat)
  /-- The running session calls `cooperate`. -/
  | cooperate
  /-- The running session closes a connection: `http`. -/
  | close (conn : Nat)
  /-- The `run` of the running session returns. -/
  | ret
  /-- The `run` of the running session raises an error of its own, whose value is `nil` or
      `false` if `falsy`. -/
  | throw (falsy : Bool)
  /-- The code of the running session catches the error an operation raised. -/
  | rescue
  /-- The error an operation raised leaves the `run` of the running session. -/
  | escape

/-- The state before the first session is registered. -/
def start : Runtime where
  sched := Sched.start
  session _ := ⟨false, 0, none, .absent⟩
  watchers := []
  finalizers _ := []
  conns := []
  nextHandle := 0
  join _ := ⟨0, 0, []⟩
  nextJoin := 0
  started := []
  returned := []
  stopped := []
  cleaned := []

/-- A session is in the state `st`. -/
def setState (s : Runtime) (id : Nat) (st : SState) : Runtime :=
  { s with session := Function.update s.session id { s.session id with state := st } }

/-- A watcher is destroyed, and removed from the finalizers. -/
def destroy (s : Runtime) (id handle : Nat) : Runtime :=
  { s with
    watchers := s.watchers.filter (·.handle ≠ handle)
    finalizers := Function.update s.finalizers (s.session id).root
      ((s.finalizers (s.session id).root).erase (.destroy id handle)) }

/-- `conn:close()`, by a session of the family of `root`. -/
def closeConn (s : Runtime) (root conn : Nat) : Runtime :=
  { s with
    conns := s.conns.erase conn
    finalizers := Function.update s.finalizers root ((s.finalizers root).erase (.fin conn)) }

/-- The session `id` is suspended in the operation. -/
def suspend (s : Runtime) (id : Nat) (op : Op) : Runtime :=
  { s.setState id (.waiting op) with sched := { s.sched with ctl := .loop } }

/-- The session `id` waits with a new watcher. `connect` also opens a connection. -/
def block (s : Runtime) (id : Nat) (kind : WatcherKind) : Runtime :=
  let handle := s.nextHandle
  let root := (s.session id).root
  let fins := if kind = .connect then [.destroy id handle, .fin handle] else [.destroy id handle]
  { s.suspend id (.watch kind handle) with
    watchers := s.watchers ++ [⟨handle, id, kind⟩]
    finalizers := Function.update s.finalizers root (s.finalizers root ++ fins)
    conns := if kind = .connect then handle :: s.conns else s.conns
    nextHandle := handle + 1 }

/-- `plan_resume`, without values. -/
def plan (s : Runtime) (id : Nat) : Runtime :=
  { s with sched := { s.sched with mgr := s.sched.mgr.planResume id ⟨.nothing, none⟩ } }

/-- A session is created, registered and planned. -/
def spawn (s : Runtime) (root : Nat) (join : Option Nat) : Runtime :=
  let id := s.sched.mgr.nextId + 1
  { s with
    sched := { s.sched with
      mgr := (s.sched.mgr.register fun _ => ()).planResume id ⟨.nothing, none⟩ }
    session := Function.update s.session id ⟨false, root, join, .fresh⟩ }

/-- The children of a call of `parallel` are created, registered and planned. -/
def spawnChildren (s : Runtime) (root join : Nat) : Nat → Runtime
  | 0 => s
  | n + 1 => (s.spawn root (some join)).spawnChildren root join n

/-- The session `id` calls `parallel`, with `n` functions. -/
def parallel (s : Runtime) (id n : Nat) : Runtime :=
  let j := s.nextJoin
  let children := List.range' (s.sched.mgr.nextId + 1) n
  { (s.spawnChildren (s.session id).root j n).suspend id (.parallel j) with
    join := Function.update s.join j ⟨id, n, children⟩
    nextJoin := j + 1 }

/-- The code of the session `id` goes on after an operation has returned. -/
def returns (s : Runtime) (id : Nat) (op : Op) : Runtime :=
  match op with
  | .parallel j => { s.setState id .user with returned := s.returned ++ [j] }
  | _ => s.setState id .user

/-- What an operation leaves behind when it returns. -/
def release (s : Runtime) (id : Nat) (op : Op) (destroys closes : Bool) : Runtime :=
  match op with
  | .watch _ handle =>
    let s := if destroys then s.destroy id handle else s
    if closes then s.closeConn (s.session id).root handle else s
  | _ => s

/-- The session `id`, suspended in the operation, is resumed with the values `args`. -/
def resumeOp (s : Runtime) (id : Nat) (op : Op) (args : Wake) (again : Bool) : Runtime :=
  match op.reply (s.session id).gonnaShutDown args with
  | .stop => s.setState id (.raised op true)
  | .error => s.setState id (.raised op false)
  | .wait => s.suspend id op
  | .ret destroys closes =>
    match op, again with
    | .watch (.send conn) _, true => (s.release id op destroys closes).block id (.send conn)
    | _, _ => (s.release id op destroys closes).returns id op

/-- The watcher that the operation destroys when it returns has been freed already, by the
    `clean` of the family's top-level session. -/
def freesTwice (s : Runtime) (id : Nat) (op : Op) (args : Wake) : Bool :=
  match op, op.reply (s.session id).gonnaShutDown args with
  | .watch _ handle, .ret true _ => .destroy id handle ∉ s.finalizers (s.session id).root
  | _, _ => false

/-- The process ends. -/
def abort (s : Runtime) : Runtime := { s with sched := { s.sched with ctl := .exited } }

/-- The session `id` is resumed with the values `args`. -/
def resume (s : Runtime) (id : Nat) (args : Wake) (again : Bool) : Option Runtime :=
  match (s.session id).state with
  | .fresh => some { s.setState id .user with started := s.started ++ [id] }
  | .waiting op =>
    -- What comes of a second `free` is undefined; it is taken to end the process.
    if s.freesTwice id op args then some s.abort else some (s.resumeOp id op args again)
  | _ => none

/-- `on_after_run` of a child: the last one plans the parent. -/
def afterRun (s : Runtime) (id : Nat) : Runtime :=
  match (s.session id).join with
  | none => s
  | some j =>
    let left := (s.join j).fnsLeft - 1
    let s := { s with join := Function.update s.join j { s.join j with fnsLeft := left } }
    if left = 0 then s.plan (s.join j).parent else s

/-- `clean`, which does nothing in a child. -/
def clean (s : Runtime) (id : Nat) : Runtime :=
  match (s.session id).join with
  | some _ => s
  | none =>
    { s with
      watchers := s.watchers.filter fun w => .destroy w.id w.handle ∉ s.finalizers id
      conns := s.conns.filter fun c => .fin c ∉ s.finalizers id
      finalizers := Function.update s.finalizers id []
      cleaned := s.cleaned ++ [id] }

/-- The coroutine of the session `id` ends without `on_after_run`, and what it returns is no
    error to `resume_active_sessions`. -/
def quit (s : Runtime) (id : Nat) : Runtime :=
  let s := s.clean id
  { s.setState id .absent with
    sched := { s.sched with ctl := .loop, mgr := s.sched.mgr.remove id } }

/-- The coroutine of the session `id` ends without an error. -/
def finish (s : Runtime) (id : Nat) : Runtime := (s.afterRun id).quit id

/-- The coroutine of the session `id` ends with an error, and the process with it. -/
def fail (s : Runtime) (id : Nat) : Runtime :=
  { s.clean id with sched := { s.sched with ctl := .exited } }

/-- The session `id` is told to shut down. -/
def flag (s : Runtime) (id : Nat) : Runtime :=
  { s with session := Function.update s.session id { s.session id with gonnaShutDown := true } }

/-- All the sessions are flagged and planned. -/
def shutDown (s : Runtime) (ids : List Nat) : Runtime :=
  ids.foldl (fun s id => (s.flag id).plan id) s

/-- The session whose code runs. -/
def current (s : Runtime) : Option Nat :=
  match s.sched.ctl with
  | .running id => if (s.session id).state = .user then some id else none
  | _ => none

/-- The connection, if it is a named one, is an open one of the family of `root`. -/
def Owns (s : Runtime) (root : Nat) : WatcherKind → Prop
  | .receive (some conn) | .send (some conn) => .fin conn ∈ s.finalizers root ∧ conn ∈ s.conns
  | _ => True

instance (s : Runtime) (root : Nat) (kind : WatcherKind) : Decidable (s.Owns root kind) := by
  unfold Owns
  split <;> infer_instance

/-- The callback of a watcher plans its session. A timer that has fired is inactive. -/
def event (s : Runtime) (w : Watcher) (args : Wake) : Runtime :=
  { s with
    sched := { s.sched with mgr := s.sched.mgr.planResume w.id ⟨args, some w.handle⟩ }
    watchers := if w.kind = .sleep then s.watchers.filter (·.handle ≠ w.handle) else s.watchers }

/-- Where the turn of a session begins. -/
def fetched (s : Runtime) (id : Nat) (v : Values) : Runtime :=
  { s with sched := { s.sched with
    ctl := .running id
    cursor := s.sched.cursor + 1
    resumes := s.sched.resumes ++ [(id, v)] } }

/-- The step of an action, where it is possible. -/
def step (s : Runtime) : Act → Option Runtime
  | .event handle args =>
    match s.watchers.find? (·.handle = handle) with
    | some w => if s.sched.ctl = .idle ∧ w.kind.Passes args then some (s.event w args) else none
    | none => none
  | .shutDown ids =>
    if s.sched.ctl = .idle ∧ ids.Perm s.sched.mgr.sessions.keys then some (s.shutDown ids)
    else none
  | .start => (s.sched.step .start).map fun sched => { s with sched }
  | .fetch again =>
    match s.sched.mgr.activeSessions[s.sched.cursor]?, s.sched.step .fetch with
    | some (id, v), some sched =>
      if id ∈ s.sched.mgr.sessions then resume { s with sched } id v.args again
      else some { s with sched }
    | _, _ => none
  | .done => (s.sched.step .done).map fun sched => { s with sched }
  | .spawn =>
    if s.sched.ctl = .idle ∨ s.current.isSome then some (s.spawn (s.sched.mgr.nextId + 1) none)
    else none
  | .block kind =>
    s.current.bind fun id =>
      if s.Owns (s.session id).root kind then some (s.block id kind) else none
  | .parallel n => s.current.map fun id => s.parallel id n
  | .cooperate => s.current.map fun id => (s.plan id).suspend id .cooperate
  | .close conn =>
    s.current.bind fun id =>
      -- `http` closes a connection of the family that no other call is using.
      if .fin conn ∈ s.finalizers (s.session id).root ∧
          ∀ w ∈ s.watchers, w.kind = .receive (some conn) → w.id = id then
        some (s.closeConn (s.session id).root conn)
      else none
  | .ret => s.current.map s.finish
  | .throw falsy => s.current.map fun id => if falsy then s.quit id else s.fail id
  | .rescue =>
    match s.sched.ctl with
    | .running id =>
      match (s.session id).state with
      | .raised _ _ => some (s.setState id .user)
      | _ => none
    | _ => none
  | .escape =>
    match s.sched.ctl with
    | .running id =>
      match (s.session id).state with
      | .raised _ true => some { s.finish id with stopped := s.stopped ++ [id] }
      | .raised _ false => some (s.fail id)
      | _ => none
    | _ => none

/-- The runtime, from the state without sessions. -/
def sys : System Runtime Act where
  init s := s = start
  step := step

/-! ## What a step does -/

variable {s s' : Runtime} {id : Nat}

theorem current_eq_some : s.current = some id ↔
    s.sched.ctl = .running id ∧ (s.session id).state = .user := by
  unfold current
  split
  · rename_i id' hctl
    rw [hctl]
    split
    · rename_i hst
      refine ⟨fun h => ?_, fun ⟨h, _⟩ => ?_⟩
      · obtain rfl := Option.some.inj h
        exact ⟨rfl, hst⟩
      · rw [Ctl.running.inj h]
    · rename_i hst
      refine ⟨fun h => (by cases h), fun ⟨h, h'⟩ => ?_⟩
      rw [Ctl.running.inj h] at hst
      exact absurd h' hst
  · rename_i hctl
    exact ⟨fun h => (by cases h), fun ⟨h, _⟩ => absurd h (hctl id)⟩

theorem step_event {handle : Nat} {args : Wake} (h : s.step (.event handle args) = some s') :
    s.sched.ctl = .idle ∧ ∃ w ∈ s.watchers, w.handle = handle ∧ w.kind.Passes args ∧
      s' = s.event w args := by
  simp only [step] at h
  split at h
  · rename_i w hw
    obtain ⟨⟨hctl, hp⟩, h⟩ := Option.ite_none_right_eq_some.1 h
    exact ⟨hctl, w, List.mem_of_find?_eq_some hw, by simpa using List.find?_some hw, hp,
      (Option.some.inj h).symm⟩
  · cases h

theorem step_shutDown {ids : List Nat} (h : s.step (.shutDown ids) = some s') :
    s.sched.ctl = .idle ∧ ids.Perm s.sched.mgr.sessions.keys ∧ s' = s.shutDown ids := by
  obtain ⟨⟨hctl, hp⟩, h⟩ := Option.ite_none_right_eq_some.1 h
  exact ⟨hctl, hp, (Option.some.inj h).symm⟩

theorem step_start (h : s.step .start = some s') :
    s.sched.ctl = .idle ∧ s' = { s with sched := { s.sched with ctl := .loop } } := by
  obtain ⟨sched, hs, rfl⟩ := Option.map_eq_some_iff.1 h
  obtain ⟨hctl, rfl⟩ := Sched.step_start hs
  exact ⟨hctl, rfl⟩

theorem step_done (h : s.step .done = some s') :
    s.sched.ctl = .loop ∧ s.sched.mgr.activeSessions.length ≤ s.sched.cursor ∧
      s' = { s with sched := { s.sched with
        ctl := .idle, mgr := s.sched.mgr.clear, cursor := 0, passes := s.sched.passes + 1 } } := by
  obtain ⟨sched, hs, rfl⟩ := Option.map_eq_some_iff.1 h
  obtain ⟨hctl, hle, rfl⟩ := Sched.step_done hs
  exact ⟨hctl, hle, rfl⟩

/-- The session of the next entry is resumed, or it is absent. -/
theorem step_fetch {again : Bool} (h : s.step (.fetch again) = some s') :
    s.sched.ctl = .loop ∧ ∃ id v, s.sched.mgr.activeSessions[s.sched.cursor]? = some (id, v) ∧
      ((id ∈ s.sched.mgr.sessions ∧ (s.fetched id v).resume id v.args again = some s') ∨
        (id ∉ s.sched.mgr.sessions ∧
          s' = { s with sched := { s.sched with cursor := s.sched.cursor + 1 } })) := by
  simp only [step] at h
  split at h
  · rename_i id v sched hget hs
    obtain ⟨hctl, id', v', hget', hs'⟩ := Sched.step_fetch hs
    obtain ⟨rfl, rfl⟩ := Prod.mk.inj (Option.some.inj (hget.symm.trans hget'))
    refine ⟨hctl, id, v, hget, ?_⟩
    rcases hs' with ⟨hmem, rfl⟩ | ⟨hmem, rfl⟩
    · rw [if_pos hmem] at h
      exact .inl ⟨hmem, h⟩
    · rw [if_neg hmem] at h
      exact .inr ⟨hmem, (Option.some.inj h).symm⟩
  · cases h

theorem resume_cases {args : Wake} {again : Bool} (h : s.resume id args again = some s') :
    ((s.session id).state = .fresh ∧
      s' = { s.setState id .user with started := s.started ++ [id] }) ∨
    ∃ op, (s.session id).state = .waiting op ∧
      ((s.freesTwice id op args = true ∧ s' = s.abort) ∨ s' = s.resumeOp id op args again) := by
  simp only [resume] at h
  split at h
  · exact .inl ⟨‹_›, (Option.some.inj h).symm⟩
  · split at h
    · exact .inr ⟨_, ‹_›, .inl ⟨‹_›, (Option.some.inj h).symm⟩⟩
    · exact .inr ⟨_, ‹_›, .inr (Option.some.inj h).symm⟩
  · cases h

/-- What a suspended session does when it is resumed. -/
theorem resumeOp_cases (s : Runtime) (id : Nat) (op : Op) (args : Wake) (again : Bool) :
    (∃ stop, op.reply (s.session id).gonnaShutDown args = (if stop then .stop else .error) ∧
      s.resumeOp id op args again = s.setState id (.raised op stop)) ∨
    (op.reply (s.session id).gonnaShutDown args = .wait ∧
      s.resumeOp id op args again = s.suspend id op) ∨
    ∃ destroys closes, op.reply (s.session id).gonnaShutDown args = .ret destroys closes ∧
      (s.resumeOp id op args again = (s.release id op destroys closes).returns id op ∨
      ∃ conn handle, op = .watch (.send conn) handle ∧
        s.resumeOp id op args again = (s.release id op destroys closes).block id (.send conn)) := by
  unfold resumeOp
  split
  · exact .inl ⟨true, ‹_›, rfl⟩
  · exact .inl ⟨false, ‹_›, rfl⟩
  · exact .inr (.inl ⟨‹_›, rfl⟩)
  · refine .inr (.inr ⟨_, _, ‹_›, ?_⟩)
    split
    · exact .inr ⟨_, _, rfl, rfl⟩
    · exact .inl rfl

theorem step_spawn (h : s.step .spawn = some s') :
    (s.sched.ctl = .idle ∨ ∃ id, s.current = some id) ∧
      s' = s.spawn (s.sched.mgr.nextId + 1) none := by
  obtain ⟨hctl, h⟩ := Option.ite_none_right_eq_some.1 h
  exact ⟨hctl.imp_right Option.isSome_iff_exists.1, (Option.some.inj h).symm⟩

theorem step_block {kind : WatcherKind} (h : s.step (.block kind) = some s') :
    ∃ id, s.current = some id ∧ s.Owns (s.session id).root kind ∧ s' = s.block id kind := by
  obtain ⟨id, hid, h⟩ := Option.bind_eq_some_iff.1 h
  obtain ⟨hown, h⟩ := Option.ite_none_right_eq_some.1 h
  exact ⟨id, hid, hown, (Option.some.inj h).symm⟩

theorem step_parallel {n : Nat} (h : s.step (.parallel n) = some s') :
    ∃ id, s.current = some id ∧ s' = s.parallel id n := by
  obtain ⟨id, hid, h⟩ := Option.map_eq_some_iff.1 h
  exact ⟨id, hid, h.symm⟩

theorem step_cooperate (h : s.step .cooperate = some s') :
    ∃ id, s.current = some id ∧ s' = (s.plan id).suspend id .cooperate := by
  obtain ⟨id, hid, h⟩ := Option.map_eq_some_iff.1 h
  exact ⟨id, hid, h.symm⟩

theorem step_close {conn : Nat} (h : s.step (.close conn) = some s') :
    ∃ id, s.current = some id ∧ .fin conn ∈ s.finalizers (s.session id).root ∧
      (∀ w ∈ s.watchers, w.kind = .receive (some conn) → w.id = id) ∧
      s' = s.closeConn (s.session id).root conn := by
  obtain ⟨id, hid, h⟩ := Option.bind_eq_some_iff.1 h
  obtain ⟨⟨hfin, hex⟩, h⟩ := Option.ite_none_right_eq_some.1 h
  exact ⟨id, hid, hfin, hex, (Option.some.inj h).symm⟩

theorem step_ret (h : s.step .ret = some s') : ∃ id, s.current = some id ∧ s' = s.finish id := by
  obtain ⟨id, hid, h⟩ := Option.map_eq_some_iff.1 h
  exact ⟨id, hid, h.symm⟩

theorem step_throw {falsy : Bool} (h : s.step (.throw falsy) = some s') :
    ∃ id, s.current = some id ∧
      ((falsy = true ∧ s' = s.quit id) ∨ (falsy = false ∧ s' = s.fail id)) := by
  obtain ⟨id, hid, h⟩ := Option.map_eq_some_iff.1 h
  refine ⟨id, hid, ?_⟩
  cases falsy with
  | true => exact .inl ⟨rfl, h.symm⟩
  | false => exact .inr ⟨rfl, h.symm⟩

theorem step_rescue (h : s.step .rescue = some s') :
    ∃ id op stop, s.sched.ctl = .running id ∧ (s.session id).state = .raised op stop ∧
      s' = s.setState id .user := by
  simp only [step] at h
  split at h
  · split at h
    · exact ⟨_, _, _, ‹_›, ‹_›, (Option.some.inj h).symm⟩
    · cases h
  · cases h

theorem step_escape (h : s.step .escape = some s') :
    ∃ id op, s.sched.ctl = .running id ∧
      (((s.session id).state = .raised op true ∧
        s' = { s.finish id with stopped := s.stopped ++ [id] }) ∨
      ((s.session id).state = .raised op false ∧ s' = s.fail id)) := by
  simp only [step] at h
  split at h
  · split at h
    · exact ⟨_, _, ‹_›, .inl ⟨‹_›, (Option.some.inj h).symm⟩⟩
    · exact ⟨_, _, ‹_›, .inr ⟨‹_›, (Option.some.inj h).symm⟩⟩
    · cases h
  · cases h

/-! ## The invariant -/

/-- The invariant of the runtime. -/
structure Base (s : Runtime) : Prop where
  inv : s.sched.Inv
  /-- Only ids given already are queued, -/
  queued : ∀ id ∈ s.sched.mgr.queue, id ≤ s.sched.mgr.nextId
  /-- watched for, -/
  watched : ∀ w ∈ s.watchers, w.id ≤ s.sched.mgr.nextId
  /-- or to be planned by their children. -/
  parents : ∀ j, (s.join j).parent ≤ s.sched.mgr.nextId
  registered : ∀ id, id ∈ s.sched.mgr.sessions ↔ (s.session id).state ≠ .absent
  /-- At most one session runs. -/
  runs : ∀ id, (s.session id).state.Runs → s.sched.ctl = .running id ∨ s.sched.ctl = .exited
  /-- A session that has not started is to be fetched. -/
  fresh : ∀ id, (s.session id).state = .fresh → s.sched.ctl ≠ .running id → id ∈ s.sched.pending

theorem state_setState (s : Runtime) (id : Nat) (st : SState) (i : Nat) :
    ((s.setState id st).session i).state = if i = id then st else (s.session i).state := by
  simp only [setState, Function.update_apply]
  split <;> rfl

theorem state_spawn (s : Runtime) (root : Nat) (join : Option Nat) (i : Nat) :
    ((s.spawn root join).session i).state =
      if i = s.sched.mgr.nextId + 1 then .fresh else (s.session i).state := by
  simp only [spawn, Function.update_apply]
  split <;> rfl

theorem state_flag (s : Runtime) (id i : Nat) :
    ((s.flag id).session i).state = (s.session i).state := by
  simp only [flag, Function.update_apply]
  split
  · rw [‹i = id›]
  · rfl

theorem state_shutDown (s : Runtime) (ids : List Nat) (i : Nat) :
    ((s.shutDown ids).session i).state = (s.session i).state := by
  induction ids generalizing s with
  | nil => rfl
  | cons id ids ih => exact (ih _).trans (state_flag s id i)

/-- What changes neither the scheduler nor the states of the sessions keeps the invariant. -/
theorem Base.congr (hs : s.Base) (hsched : s'.sched = s.sched)
    (hstate : ∀ id, (s'.session id).state = (s.session id).state)
    (hw : ∀ w ∈ s'.watchers, w.id ≤ s.sched.mgr.nextId)
    (hj : ∀ j, (s'.join j).parent ≤ s.sched.mgr.nextId) : s'.Base := by
  refine ⟨?_, ?_, ?_, ?_, fun id => ?_, fun id => ?_, fun id => ?_⟩
  all_goals simp only [hsched, hstate]
  · exact hs.inv
  · exact hs.queued
  · exact hw
  · exact hj
  · exact hs.registered id
  · exact hs.runs id
  · exact hs.fresh id

theorem mem_queue_planResume {m : Manager Unit Values} {i id : Nat} {v : Values}
    (h : i ∈ (m.planResume id v).queue) : i ∈ m.queue ∨ i = id := by
  unfold Manager.planResume at h
  split at h
  · exact .inl h
  · simpa [Manager.queue] using h

theorem Base.plan (hs : s.Base) (hid : id ≤ s.sched.mgr.nextId) (v : Values) :
    Base { s with sched := { s.sched with mgr := s.sched.mgr.planResume id v } } where
  inv := hs.inv.plan id v
  queued i hi := by
    rw [Manager.planResume_nextId]
    rcases mem_queue_planResume hi with hi | rfl
    · exact hs.queued i hi
    · exact hid
  watched := by simpa using hs.watched
  parents := by simpa using hs.parents
  registered i := by
    rw [Manager.planResume_sessions]
    exact hs.registered i
  runs := hs.runs
  fresh i hi hctl := hs.inv.pending_planResume id v (hs.fresh i hi hctl)

/-- The session that is registered next is not queued. -/
theorem Base.not_mem_queue (hs : s.Base) : s.sched.mgr.nextId + 1 ∉ s.sched.mgr.queue :=
  fun h => absurd (hs.queued _ h) (Nat.not_succ_le_self _)

theorem Base.spawn (hs : s.Base) (root : Nat) (join : Option Nat) : (s.spawn root join).Base := by
  have hnew : s.sched.mgr.nextId + 1 ∉ s.sched.taken := fun h =>
    hs.not_mem_queue (List.mem_of_mem_take h)
  have hinv := hs.inv.register fun _ => ()
  refine ⟨hinv.plan _ _, fun i hi => ?_, fun w hw => ?_, fun j => ?_, fun i => ?_, fun i hi => ?_,
    fun i hi hctl => ?_⟩
  · change i ≤ Manager.nextId (Manager.planResume _ _ _)
    rw [Manager.planResume_nextId]
    rcases mem_queue_planResume hi with hi | rfl
    · exact Nat.le_succ_of_le (hs.queued i hi)
    · exact le_rfl
  · change w.id ≤ Manager.nextId (Manager.planResume _ _ _)
    rw [Manager.planResume_nextId]
    exact Nat.le_succ_of_le (hs.watched w hw)
  · change _ ≤ Manager.nextId (Manager.planResume _ _ _)
    rw [Manager.planResume_nextId]
    exact Nat.le_succ_of_le (hs.parents j)
  · change i ∈ Manager.sessions (Manager.planResume _ _ _) ↔ _
    rw [Manager.planResume_sessions]
    change i ∈ s.sched.mgr.sessions.insert _ _ ↔ _
    rw [AList.mem_insert, hs.registered i, state_spawn]
    split <;> simp_all
  · rw [state_spawn] at hi
    split at hi
    · exact hi.elim
    · exact hs.runs i hi
  · rw [state_spawn] at hi
    split at hi
    · subst ‹i = _›
      exact hinv.mem_pending_planResume hnew ⟨.nothing, none⟩
    · exact hinv.pending_planResume _ _ (hs.fresh i hi hctl)

/-- The running session goes on, or an operation raises an error in it. -/
theorem Base.setState (hs : s.Base) (hctl : s.sched.ctl = .running id)
    (hid : id ∈ s.sched.mgr.sessions) {st : SState} (hst : st.Runs) : (s.setState id st).Base where
  inv := hs.inv
  queued := hs.queued
  watched := hs.watched
  parents := hs.parents
  registered i := by
    rw [state_setState]
    split
    · subst ‹i = id›
      refine iff_of_true hid fun h => ?_
      rw [h] at hst
      exact hst
    · exact hs.registered i
  runs i hi := by
    rw [state_setState] at hi
    split at hi
    · exact .inl (‹i = id› ▸ hctl)
    · exact hs.runs i hi
  fresh i hi hne := by
    rw [state_setState] at hi
    split at hi
    · rw [hi] at hst
      exact hst.elim
    · exact hs.fresh i hi hne

/-- The running session is suspended. -/
theorem Base.suspend (hs : s.Base) (hctl : s.sched.ctl = .running id)
    (hid : id ∈ s.sched.mgr.sessions) (op : Op) : (s.suspend id op).Base where
  inv := by
    have hstep : s.sched.step .yield = some (s.suspend id op).sched := by
      simp only [Sched.step, hctl]
      rfl
    exact hs.inv.step hstep
  queued := hs.queued
  watched := hs.watched
  parents := hs.parents
  registered i := by
    change _ ↔ ((s.setState id (.waiting op)).session i).state ≠ _
    rw [state_setState]
    split
    · subst ‹i = id›
      exact iff_of_true hid (by simp)
    · exact hs.registered i
  runs i hi := by
    change ((s.setState id (.waiting op)).session i).state.Runs at hi
    rw [state_setState] at hi
    split at hi
    · exact hi.elim
    · rcases hs.runs i hi with h | h
      · exact absurd (Ctl.running.inj (hctl.symm.trans h)).symm ‹_›
      · rw [hctl] at h
        cases h
  fresh i hi _ := by
    change ((s.setState id (.waiting op)).session i).state = _ at hi
    rw [state_setState] at hi
    split at hi
    · cases hi
    · refine hs.fresh i hi fun h => ?_
      exact absurd (Ctl.running.inj (hctl.symm.trans h)).symm ‹_›

theorem Base.block (hs : s.Base) (hctl : s.sched.ctl = .running id)
    (hid : id ∈ s.sched.mgr.sessions) (kind : WatcherKind) : (s.block id kind).Base := by
  refine (hs.suspend hctl hid (.watch kind s.nextHandle)).congr rfl (fun _ => rfl) ?_ hs.parents
  intro w hw
  rcases List.mem_append.1 hw with hw | hw
  · exact hs.watched w hw
  · obtain rfl := List.mem_singleton.1 hw
    exact hs.inv.consistent.le_nextId _ hid

@[simp] theorem spawn_nextId (s : Runtime) (root : Nat) (join : Option Nat) :
    (s.spawn root join).sched.mgr.nextId = s.sched.mgr.nextId + 1 :=
  Manager.planResume_nextId _

theorem spawn_session (s : Runtime) (root : Nat) (join : Option Nat) (i : Nat) :
    (s.spawn root join).session i =
      if i = s.sched.mgr.nextId + 1 then ⟨false, root, join, .fresh⟩ else s.session i :=
  Function.update_apply _ _ _ _

theorem mem_sessions_spawn (s : Runtime) (root : Nat) (join : Option Nat) (i : Nat) :
    i ∈ (s.spawn root join).sched.mgr.sessions ↔
      i = s.sched.mgr.nextId + 1 ∨ i ∈ s.sched.mgr.sessions := by
  change i ∈ Manager.sessions (Manager.planResume _ _ _) ↔ _
  rw [Manager.planResume_sessions]
  exact AList.mem_insert _

@[simp] theorem spawnChildren_nextId (s : Runtime) (root join n : Nat) :
    (s.spawnChildren root join n).sched.mgr.nextId = s.sched.mgr.nextId + n := by
  induction n generalizing s with
  | zero => rfl
  | succ n ih =>
    rw [spawnChildren, ih, spawn_nextId]
    omega

/-- The children are the sessions with the next ids. -/
theorem spawnChildren_session (s : Runtime) (root join n i : Nat) :
    (s.spawnChildren root join n).session i =
      if s.sched.mgr.nextId < i ∧ i ≤ s.sched.mgr.nextId + n then ⟨false, root, some join, .fresh⟩
      else s.session i := by
  induction n generalizing s with
  | zero => rw [if_neg (by omega)]; rfl
  | succ n ih =>
    rw [spawnChildren, ih, spawn_nextId, spawn_session]
    split_ifs <;> first | rfl | omega

theorem spawnChildren_of_le {s : Runtime} {i : Nat} (h : i ≤ s.sched.mgr.nextId)
    (root join n : Nat) : (s.spawnChildren root join n).session i = s.session i := by
  rw [spawnChildren_session, if_neg (by omega)]

theorem mem_sessions_spawnChildren {s : Runtime} {root join n i : Nat}
    (h : i ∈ s.sched.mgr.sessions) : i ∈ (s.spawnChildren root join n).sched.mgr.sessions := by
  induction n generalizing s with
  | zero => exact h
  | succ n ih => exact ih ((mem_sessions_spawn _ _ _ _).2 (.inr h))

/-- Creating the children changes nothing but the scheduler and the sessions. -/
theorem spawnChildren_eq (s : Runtime) (root join n : Nat) :
    s.spawnChildren root join n = { s with
      sched := { s.sched with mgr := (s.spawnChildren root join n).sched.mgr }
      session := (s.spawnChildren root join n).session } := by
  induction n generalizing s with
  | zero => rfl
  | succ n ih => rw [spawnChildren, ih]; rfl

/-- Besides the sessions, a call of `parallel` changes the table of the calls. -/
theorem parallel_eq (s : Runtime) (id n : Nat) :
    (s.parallel id n).returned = s.returned ∧ (s.parallel id n).nextJoin = s.nextJoin + 1 ∧
      (s.parallel id n).sched.mgr.nextId = s.sched.mgr.nextId + n ∧
      ∀ j, (s.parallel id n).join j =
        if j = s.nextJoin then ⟨id, n, List.range' (s.sched.mgr.nextId + 1) n⟩ else s.join j := by
  refine ⟨?_, rfl, spawnChildren_nextId s _ _ n, fun j => ?_⟩
  · change (s.spawnChildren _ _ n).returned = _
    rw [spawnChildren_eq]
  · exact Function.update_apply s.join _ _ _

/-- The children are new, and the session waits for them. -/
theorem parallel_session (s : Runtime) (hle : id ≤ s.sched.mgr.nextId) (n i : Nat) :
    (s.parallel id n).session i =
      if i = id then { s.session id with state := .waiting (.parallel s.nextJoin) }
      else if s.sched.mgr.nextId < i ∧ i ≤ s.sched.mgr.nextId + n then
        ⟨false, (s.session id).root, some s.nextJoin, .fresh⟩
      else s.session i := by
  change Function.update (s.spawnChildren _ _ n).session id
    { (s.spawnChildren _ _ n).session id with state := _ } i = _
  rw [spawnChildren_of_le hle, Function.update_apply]
  split
  · rfl
  · exact spawnChildren_session s _ _ n i

theorem Base.spawnChildren (hs : s.Base) (root join n : Nat) :
    (s.spawnChildren root join n).Base := by
  induction n generalizing s with
  | zero => exact hs
  | succ n ih => exact ih (hs.spawn root (some join))

theorem Base.parallel (hs : s.Base) (hctl : s.sched.ctl = .running id)
    (hid : id ∈ s.sched.mgr.sessions) (n : Nat) : (s.parallel id n).Base := by
  have hb := hs.spawnChildren (s.session id).root s.nextJoin n
  have hctl' : (s.spawnChildren (s.session id).root s.nextJoin n).sched.ctl = .running id := by
    rw [spawnChildren_eq]
    exact hctl
  refine (hb.suspend hctl' (mem_sessions_spawnChildren hid) (.parallel s.nextJoin)).congr rfl
    (fun _ => rfl) hb.watched fun j => ?_
  change (Function.update s.join s.nextJoin _ j).parent ≤ _
  rw [Function.update_apply]
  split
  · exact hb.inv.consistent.le_nextId _ (mem_sessions_spawnChildren hid)
  · have := hb.parents j
    rwa [spawnChildren_eq] at this

theorem Base.afterRun (hs : s.Base) : (s.afterRun id).Base := by
  unfold Runtime.afterRun
  split
  · exact hs
  · rename_i j _
    have hb : Base { s with
        join := Function.update s.join j { s.join j with fnsLeft := (s.join j).fnsLeft - 1 } } := by
      refine hs.congr rfl (fun _ => rfl) hs.watched fun i => ?_
      change (Function.update s.join j _ i).parent ≤ _
      rw [Function.update_apply]
      split
      · exact hs.parents j
      · exact hs.parents i
    simp only
    split
    · exact hb.plan (hb.parents j) ⟨.nothing, none⟩
    · exact hb

theorem Base.clean (hs : s.Base) : (s.clean id).Base := by
  unfold Runtime.clean
  split
  · exact hs
  · exact hs.congr rfl (fun _ => rfl) (fun w hw => hs.watched w (List.mem_of_mem_filter hw))
      hs.parents

theorem afterRun_ctl (s : Runtime) (id : Nat) : (s.afterRun id).sched.ctl = s.sched.ctl := by
  unfold afterRun
  split
  · rfl
  · simp only
    split <;> rfl

theorem clean_sched (s : Runtime) (id : Nat) : (s.clean id).sched = s.sched := by
  unfold clean
  split <;> rfl

theorem afterRun_eq (s : Runtime) (id : Nat) :
    ∃ mgr join, s.afterRun id = { s with sched := { s.sched with mgr }, join } ∧
      (mgr = s.sched.mgr ∨ ∃ parent, mgr = s.sched.mgr.planResume parent ⟨.nothing, none⟩) := by
  unfold afterRun
  split
  · exact ⟨_, _, rfl, .inl rfl⟩
  · simp only
    split
    · exact ⟨_, _, rfl, .inr ⟨_, rfl⟩⟩
    · exact ⟨_, _, rfl, .inl rfl⟩

theorem clean_eq (s : Runtime) (id : Nat) : ∃ watchers finalizers conns cleaned,
    watchers ⊆ s.watchers ∧ s.clean id = { s with watchers, finalizers, conns, cleaned } := by
  unfold clean
  split
  · exact ⟨_, _, _, _, List.Subset.refl _, rfl⟩
  · exact ⟨_, _, _, _, List.filter_subset_self _, rfl⟩

/-- The coroutine of a session ends: it is absent, and the others are as they were. -/
theorem state_quit (s : Runtime) (id i : Nat) :
    ((s.quit id).session i).state = if i = id then .absent else (s.session i).state := by
  obtain ⟨_, _, _, _, -, h⟩ := clean_eq s id
  change (((s.clean id).setState id .absent).session i).state = _
  rw [state_setState, h]

theorem state_finish (s : Runtime) (id i : Nat) :
    ((s.finish id).session i).state = if i = id then .absent else (s.session i).state := by
  obtain ⟨_, _, h, -⟩ := afterRun_eq s id
  rw [finish, state_quit, h]

@[simp] theorem quit_nextId (s : Runtime) (id : Nat) :
    (s.quit id).sched.mgr.nextId = s.sched.mgr.nextId := by
  change (s.clean id).sched.mgr.nextId = _
  rw [clean_sched]

theorem afterRun_nextId (s : Runtime) (id : Nat) :
    (s.afterRun id).sched.mgr.nextId = s.sched.mgr.nextId := by
  obtain ⟨mgr, _, h, hmgr⟩ := afterRun_eq s id
  rw [h]
  rcases hmgr with rfl | ⟨parent, rfl⟩
  · rfl
  · exact Manager.planResume_nextId _

@[simp] theorem finish_nextId (s : Runtime) (id : Nat) :
    (s.finish id).sched.mgr.nextId = s.sched.mgr.nextId := by
  rw [finish, quit_nextId, afterRun_nextId]

/-- A top-level session has no `on_after_run`. -/
theorem finish_of_top (h : (s.session id).join = none) : s.finish id = s.quit id := by
  rw [finish, afterRun, h]

theorem Base.quit (hs : s.Base) (hctl : s.sched.ctl = .running id) : (s.quit id).Base := by
  have hb : (s.clean id).Base := hs.clean
  have hctl' : (s.clean id).sched.ctl = .running id := by rw [clean_sched, hctl]
  have hstate i : ((s.quit id).session i).state =
      if i = id then .absent else ((s.clean id).session i).state :=
    state_setState (s.clean id) id .absent i
  have hstep : (s.clean id).sched.step .finish = some (s.quit id).sched := by
    simp only [Sched.step, hctl']
    rfl
  have hne {i} (hi : i ≠ id) : (s.clean id).sched.ctl ≠ .running i := by
    rw [hctl']
    exact fun h => hi (Ctl.running.inj h).symm
  refine ⟨hb.inv.step hstep, hb.queued, hb.watched, hb.parents, fun i => ?_, fun i hi => ?_,
    fun i hi _ => ?_⟩
  · rw [hstate]
    have : i ∈ (s.quit id).sched.mgr.sessions ↔ i ≠ id ∧ i ∈ (s.clean id).sched.mgr.sessions :=
      AList.mem_erase
    rw [this, hb.registered i]
    split <;> simp_all
  · rw [hstate] at hi
    split at hi
    · exact hi.elim
    · rcases hb.runs i hi with h | h
      · exact absurd h (hne ‹_›)
      · rw [hctl'] at h
        cases h
  · rw [hstate] at hi
    split at hi
    · cases hi
    · exact hb.fresh i hi (hne ‹_›)

theorem Base.finish (hs : s.Base) (hctl : s.sched.ctl = .running id) : (s.finish id).Base :=
  hs.afterRun.quit (by rw [afterRun_ctl, hctl])

theorem clean_session (s : Runtime) (id : Nat) : (s.clean id).session = s.session := by
  unfold clean
  split <;> rfl

theorem finish_session (s : Runtime) (id i : Nat) :
    (s.finish id).session i =
      if i = id then { s.session id with state := .absent } else s.session i := by
  obtain ⟨_, _, h, -⟩ := afterRun_eq s id
  have hsess : ((s.afterRun id).clean id).session = s.session := by
    rw [clean_session, h]
  change Function.update ((s.afterRun id).clean id).session id
    { ((s.afterRun id).clean id).session id with state := _ } i = _
  rw [hsess, Function.update_apply]

theorem finish_eq (s : Runtime) (id : Nat) :
    (s.finish id).returned = s.returned ∧ (s.finish id).nextJoin = s.nextJoin ∧
      (s.finish id).join = (s.afterRun id).join ∧
      (s.finish id).sched.pending = (s.afterRun id).sched.pending := by
  obtain ⟨_, _, h, -⟩ := afterRun_eq s id
  obtain ⟨_, _, _, _, -, h'⟩ := clean_eq (s.afterRun id) id
  refine ⟨?_, ?_, ?_, ?_⟩
  · change ((s.afterRun id).clean id).returned = _
    rw [h', h]
  · change ((s.afterRun id).clean id).nextJoin = _
    rw [h', h]
  · change ((s.afterRun id).clean id).join = _
    rw [h']
  · change ((s.afterRun id).clean id).sched.pending = _
    rw [clean_sched]

theorem Base.abort (hs : s.Base) (hctl : s.sched.ctl = .running id)
    (hst : (s.session id).state ≠ .fresh) : s.abort.Base := by
  have hstep : s.sched.step .raise = some { s.sched with ctl := .exited } := by
    simp only [Sched.step, hctl]
  refine ⟨hs.inv.step hstep, hs.queued, hs.watched, hs.parents, hs.registered, fun i _ => .inr rfl,
    fun i hi _ => hs.fresh i hi fun h => ?_⟩
  -- The one that runs has started.
  rw [Ctl.running.inj (hctl.symm.trans h)] at hst
  exact hst hi

theorem fail_eq (s : Runtime) (id : Nat) : s.fail id = (s.clean id).abort := by
  rw [fail, abort, clean_sched]

theorem Base.fail (hs : s.Base) (hctl : s.sched.ctl = .running id)
    (hrun : (s.session id).state.Runs) : (s.fail id).Base := by
  rw [fail_eq]
  refine hs.clean.abort (by rw [clean_sched, hctl]) ?_
  rw [clean_session]
  exact fun h => (h ▸ hrun :)

/-- Between the turns of the sessions no session runs. -/
theorem Base.not_runs (hs : s.Base) (hctl : s.sched.ctl = .idle ∨ s.sched.ctl = .loop) (i : Nat) :
    ¬(s.session i).state.Runs := fun h => by
  rcases hs.runs i h with h | h <;> rcases hctl with h' | h' <;> rw [h'] at h <;> cases h

theorem Base.fetched (hs : s.Base) {v : Values} (hctl : s.sched.ctl = .loop)
    (hget : s.sched.mgr.activeSessions[s.sched.cursor]? = some (id, v))
    (hmem : id ∈ s.sched.mgr.sessions) : (s.fetched id v).Base where
  inv := hs.inv.step (Sched.resume_of_fetch hctl hget hmem)
  queued := hs.queued
  watched := hs.watched
  parents := hs.parents
  registered := hs.registered
  runs i hi := absurd hi (hs.not_runs (.inr hctl) i)
  fresh i hi hne := by
    have hp := hs.fresh i hi (by rw [hctl]; simp)
    rw [(Sched.pending_eq_cons hget).1] at hp
    exact (List.mem_cons.1 hp).resolve_left fun h => hne (h ▸ rfl)

/-- The entry of an absent session is skipped. -/
theorem Base.skip (hs : s.Base) {v : Values} (hctl : s.sched.ctl = .loop)
    (hget : s.sched.mgr.activeSessions[s.sched.cursor]? = some (id, v))
    (hmem : id ∉ s.sched.mgr.sessions) :
    Base { s with sched := { s.sched with cursor := s.sched.cursor + 1 } } where
  inv := hs.inv.step (Sched.skip_of_fetch hctl hget hmem)
  queued := hs.queued
  watched := hs.watched
  parents := hs.parents
  registered := hs.registered
  runs := hs.runs
  fresh i hi hne := by
    have hp := hs.fresh i hi hne
    rw [(Sched.pending_eq_cons hget).1] at hp
    refine (List.mem_cons.1 hp).resolve_left fun h => hmem ?_
    rw [← h, hs.registered, hi]
    simp

/-- What an operation leaves behind concerns neither the scheduler nor the sessions. -/
theorem release_eq (s : Runtime) (id : Nat) (op : Op) (destroys closes : Bool) :
    ∃ watchers finalizers conns, watchers ⊆ s.watchers ∧
      s.release id op destroys closes = { s with watchers, finalizers, conns } := by
  unfold release
  split
  · rename_i handle
    have hsub : s.watchers.filter (·.handle ≠ handle) ⊆ s.watchers := List.filter_subset_self _
    cases destroys <;> cases closes
    · exact ⟨_, _, _, List.Subset.refl _, rfl⟩
    · exact ⟨_, _, _, List.Subset.refl _, rfl⟩
    · exact ⟨_, _, _, hsub, rfl⟩
    · exact ⟨_, _, _, hsub, rfl⟩
  · exact ⟨_, _, _, List.Subset.refl _, rfl⟩

theorem Base.release (hs : s.Base) (op : Op) (destroys closes : Bool) :
    (s.release id op destroys closes).Base := by
  obtain ⟨_, _, _, hsub, h⟩ := release_eq s id op destroys closes
  rw [h]
  exact hs.congr rfl (fun _ => rfl) (fun w hw => hs.watched w (hsub hw)) hs.parents

theorem Base.returns (hs : s.Base) (hctl : s.sched.ctl = .running id)
    (hid : id ∈ s.sched.mgr.sessions) (op : Op) : (s.returns id op).Base := by
  have hb : (s.setState id .user).Base := hs.setState hctl hid trivial
  unfold Runtime.returns
  split
  · exact hb.congr rfl (fun _ => rfl) hb.watched hb.parents
  · exact hb

theorem Base.resume (hs : s.Base) (hctl : s.sched.ctl = .running id)
    (hid : id ∈ s.sched.mgr.sessions) {args : Wake} {again : Bool}
    (h : s.resume id args again = some s') : s'.Base := by
  rcases resume_cases h with ⟨-, rfl⟩ | ⟨op, hst, ⟨-, rfl⟩ | rfl⟩
  · have hb : (s.setState id .user).Base := hs.setState hctl hid trivial
    exact hb.congr rfl (fun _ => rfl) hb.watched hb.parents
  · exact hs.abort hctl (by simp [hst])
  · rcases resumeOp_cases s id op args again with ⟨stop, -, h'⟩ | ⟨-, h'⟩ | ⟨d, c, -, h'⟩
    · exact h' ▸ hs.setState hctl hid trivial
    · exact h' ▸ hs.suspend hctl hid op
    · have hb : (s.release id op d c).Base := hs.release op d c
      obtain ⟨_, _, _, -, heq⟩ := release_eq s id op d c
      have hctl' : (s.release id op d c).sched.ctl = .running id := by rw [heq]; exact hctl
      have hid' : id ∈ (s.release id op d c).sched.mgr.sessions := by rw [heq]; exact hid
      rcases h' with h' | ⟨conn, _, -, h'⟩
      · exact h' ▸ hb.returns hctl' hid' op
      · exact h' ▸ hb.block hctl' hid' _

theorem Base.shutDown (hs : s.Base) {ids : List Nat} (hids : ∀ id ∈ ids, id ≤ s.sched.mgr.nextId) :
    (s.shutDown ids).Base := by
  induction ids generalizing s with
  | nil => exact hs
  | cons id ids ih =>
    have hb : (s.flag id).Base := hs.congr rfl (state_flag s id) hs.watched hs.parents
    refine ih (hb.plan (hids id List.mem_cons_self) ⟨.nothing, none⟩) fun i hi => ?_
    change i ≤ Manager.nextId (Manager.planResume _ _ _)
    rw [Manager.planResume_nextId]
    exact hids i (List.mem_cons_of_mem _ hi)

/-- Every step keeps the invariant. -/
theorem Base.step (hs : s.Base) {a : Act} (h : s.step a = some s') : s'.Base := by
  have hcur {id} (hid : s.current = some id) : s.sched.ctl = .running id ∧
      id ∈ s.sched.mgr.sessions ∧ (s.session id).state.Runs := by
    obtain ⟨hctl, hst⟩ := current_eq_some.1 hid
    exact ⟨hctl, (hs.inv.running id hctl).1, by rw [hst]; trivial⟩
  cases a with
  | event handle args =>
    obtain ⟨-, w, hw, -, -, rfl⟩ := step_event h
    have hb := hs.plan (hs.watched w hw) ⟨args, some w.handle⟩
    refine hb.congr rfl (fun _ => rfl) (fun w' hw' => hb.watched w' ?_) hb.parents
    unfold event at hw'
    split at hw'
    · exact List.mem_of_mem_filter hw'
    · exact hw'
  | shutDown ids =>
    obtain ⟨-, hperm, rfl⟩ := step_shutDown h
    exact hs.shutDown fun id hid => hs.inv.consistent.le_nextId id (hperm.mem_iff.1 hid)
  | start =>
    obtain ⟨hctl, rfl⟩ := step_start h
    refine ⟨hs.inv.step (a := .start) (by simp [Sched.step, hctl]), hs.queued, hs.watched,
      hs.parents, hs.registered, fun i hi => absurd hi (hs.not_runs (.inl hctl) i),
      fun i hi _ => hs.fresh i hi (by rw [hctl]; simp)⟩
  | fetch again =>
    obtain ⟨hctl, id, v, hget, ⟨hmem, h⟩ | ⟨hmem, rfl⟩⟩ := step_fetch h
    · exact (hs.fetched hctl hget hmem).resume rfl hmem h
    · exact hs.skip hctl hget hmem
  | done =>
    obtain ⟨hctl, hle, rfl⟩ := step_done h
    have hpend : s.sched.pending = [] :=
      List.drop_eq_nil_of_le (by rwa [Manager.queue, List.length_map])
    refine ⟨hs.inv.step (a := .done) (by simp [Sched.step, hctl, hle]), fun i hi => ?_, hs.watched,
      hs.parents, hs.registered, fun i hi => absurd hi (hs.not_runs (.inr hctl) i), fun i hi _ => ?_⟩
    · exact absurd hi List.not_mem_nil
    · have := hs.fresh i hi (by rw [hctl]; simp)
      rw [hpend] at this
      exact absurd this List.not_mem_nil
  | spawn =>
    obtain ⟨-, rfl⟩ := step_spawn h
    exact hs.spawn _ _
  | block kind =>
    obtain ⟨id, hid, -, rfl⟩ := step_block h
    exact hs.block (hcur hid).1 (hcur hid).2.1 kind
  | parallel n =>
    obtain ⟨id, hid, rfl⟩ := step_parallel h
    exact hs.parallel (hcur hid).1 (hcur hid).2.1 n
  | cooperate =>
    obtain ⟨id, hid, rfl⟩ := step_cooperate h
    have hb : (s.plan id).Base := hs.plan (hs.inv.consistent.le_nextId id (hcur hid).2.1) _
    refine hb.suspend (hcur hid).1 ?_ .cooperate
    change id ∈ Manager.sessions (Manager.planResume _ _ _)
    rw [Manager.planResume_sessions]
    exact (hcur hid).2.1
  | close conn =>
    obtain ⟨id, -, -, -, rfl⟩ := step_close h
    exact hs.congr rfl (fun _ => rfl) hs.watched hs.parents
  | ret =>
    obtain ⟨id, hid, rfl⟩ := step_ret h
    exact hs.finish (hcur hid).1
  | throw falsy =>
    obtain ⟨id, hid, ⟨-, rfl⟩ | ⟨-, rfl⟩⟩ := step_throw h
    · exact hs.quit (hcur hid).1
    · exact hs.fail (hcur hid).1 (hcur hid).2.2
  | rescue =>
    obtain ⟨id, op, stop, hctl, hst, rfl⟩ := step_rescue h
    exact hs.setState hctl (hs.inv.running id hctl).1 trivial
  | escape =>
    obtain ⟨id, op, hctl, ⟨hst, rfl⟩ | ⟨hst, rfl⟩⟩ := step_escape h
    · have hb := hs.finish hctl
      exact hb.congr rfl (fun _ => rfl) hb.watched hb.parents
    · exact hs.fail hctl (by rw [hst]; trivial)

theorem base_start : start.Base where
  inv := Sched.inv_start
  queued := by simp [start, Sched.start, Manager.init, Manager.queue]
  watched := by simp [start]
  parents _ := Nat.zero_le _
  registered id := iff_of_false (AList.notMem_empty id) (by simp [start])
  runs id h := h.elim
  fresh id h := by simp [start] at h

theorem base_of_reachable {P : Runtime → Act → Prop} (hs : sys.ReachableBy P s) : s.Base :=
  hs.invariant (by rintro _ rfl; exact base_start) fun _ hI _ h => hI.step h

end Runtime

end Mistress
