import Mistress.Sched
import Mathlib.Logic.Function.Basic

/-!
# The pool of connections

`http` keeps the connections it has opened for later requests. `get_connection`
takes one of the table of *free* connections of the host, and opens a new one
only if that table is empty; `http` marks the connection *busy* while it uses it,
and free again when the response has been read.

The children of a session share its cache of connections. Between the suspension
points of `http` (in `connect`, `send` and `receive`) no other session runs, but
while it is suspended any other one may.

File descriptors are numbers the kernel reuses: a new socket gets any number that
is not open. The sockets of other operations, files and the like come and go at
any time.

When a session is resumed is up to the manager, whose queue is that of `Sched`: an event
plans the session that waits for it, and a later pass resumes it (`refinement`). In
between the session may lose what it waits for. `clean` of its top-level session
destroys the watchers of the family, and closes its connections, but leaves the queue as
it is. A session that is then resumed in `receive`, with a result that says that the
peer has closed the connection, goes on, and `http` closes the connection again: it
closes whatever has got the file descriptor since (`Act.reclose`). With any other result it
destroys its watcher a second time, which is taken to end the process (`Act.exit`).

* `act_connect`, `act_received` and the like: what each action does, guards included.
* `Timely`: the steps in which no connection is closed again.
-/

namespace Mistress

open Transition

/-- What a file descriptor stands for. -/
inductive Sock
  /-- The socket of a connection opened by `get_connection`. -/
  | conn (c : Nat)
  /-- Anything else. -/
  | other
  deriving DecidableEq

/-- A connection opened by `get_connection`. -/
structure Conn where
  /-- The top-level session whose `_conn_cache` it belongs to. -/
  root : Nat
  /-- `ip .. ':' .. remote_port` -/
  hkey : String
  fd : Nat
  /-- `get_connection` has put it in the cache, and added the finalizer that takes it out. -/
  cached : Bool
  /-- History: the requests written to its socket. -/
  written : Nat
  /-- History: the complete responses read from its socket. -/
  read : Nat

/-- The place of a table of connections: a cache and a host key. -/
def Conn.key (c : Conn) : Nat × String := (c.root, c.hkey)

/-- Where a session stands in `http`. -/
inductive Http
  /-- It is not in `http`. -/
  | out
  /-- It is suspended in `connect`. -/
  | connect (c : Nat)
  /-- It runs, the connection being marked busy and the request being built or sent. -/
  | request (c : Nat)
  /-- It is suspended in `send`. -/
  | send (c : Nat)
  /-- It is suspended in `receive`. -/
  | receive (c : Nat)
  deriving DecidableEq

/-- The connection a call uses. -/
def Http.conn : Http → Option Nat
  | .out => none
  | .connect c | .request c | .send c | .receive c => some c

/-- A session, as far as `http` is concerned. -/
structure Client where
  /-- The top-level session whose cache and finalizers it shares. -/
  root : Nat
  /-- `_gonna_shut_down` -/
  gonnaShutDown : Bool
  http : Http
  /-- The watcher of the operation it is suspended in has not been destroyed. -/
  watching : Bool

/-- The sessions, their caches and the file descriptors. -/
structure Pool where
  /-- The manager and its passes. What a session is resumed with is told by the action
      that follows, and not kept in the queue. -/
  sched : Sched Unit Unit
  session : Nat → Client
  /-- The process has exited. -/
  exited : Bool
  nextConn : Nat
  conn : Nat → Conn
  fds : Nat → Option Sock
  free : Nat × String → Table Nat Nat
  busy : Nat × String → Table Nat Nat
  /-- The connections whose `fin` is in the finalizers of the top-level session. -/
  finalizers : Nat → List Nat

/-- What becomes of a call of `mistress.send`. -/
inductive SendOutcome
  /-- The rest of the request has been written. -/
  | all
  /-- The socket is full. -/
  | full
  /-- An error number, which `http` asserts there is not. -/
  | error
  deriving DecidableEq

/-- What becomes of a call of `receive`. -/
inductive ReceiveOutcome
  /-- A complete response; whether the connection is kept alive. -/
  | done (keepalive : Bool)
  /-- A complete response, an error being raised while it is processed: its body
      cannot be unzipped, or its headers or cookies are not understood. -/
  | raised
  /-- An error, a timeout, the end of the stream or what cannot be parsed. -/
  | failed
  deriving DecidableEq

namespace Pool

/-- The actions of the event loop, of the sessions and of the process. -/
inductive Act
  /-- A top-level session is registered and planned. -/
  | spawn
  /-- A session that is not in `http` is planned: by an event it waits for, by the running
      session, which may be itself, or by the last of its children. -/
  | plan (id : Nat)
  /-- Between two passes, the callback of the watcher a session waits with in `http`. -/
  | event (id : Nat)
  /-- Between two passes, `Manager:shut_down`, the table of the sessions being gone through
      in the order `ids`. -/
  | shutDown (ids : List Nat)
  /-- A pass begins. -/
  | start
  /-- The next entry of the queue is fetched, and its session resumed. -/
  | fetch
  /-- The pass is over. -/
  | done
  /-- The running session calls `parallel`, with `n` functions. -/
  | parallel (n : Nat)
  /-- The running session is suspended, outside of `http`. -/
  | yield
  /-- The coroutine of the running session ends. If it is a top-level one, `pairs`
      goes through its finalizers in the order `cs`. -/
  | finish (cs : List Nat)
  /-- The process exits. -/
  | exit
  /-- `http` is called, and `next` finds the free connection at `fd`. -/
  | reuse (hkey : String) (fd : Nat)
  /-- `http` is called, no connection is free, and the new socket is `fd`. -/
  | connect (hkey : String) (fd : Nat)
  /-- Resumed in `connect`: the connection has been established (`cb_connect`). -/
  | connected (id : Nat)
  /-- It has not, or its file descriptor is `0`. -/
  | refused (id : Nat)
  /-- The request is built, and `mistress.send` called. -/
  | send (out : SendOutcome)
  /-- Resumed in `send`: the socket takes data again (`cb_send_ready`), -/
  | sendReady (id : Nat)
  /-- or it has not in time (`cb_send_timeout`). -/
  | sendTimeout (id : Nat)
  /-- Resumed in `receive`, with a part of a response, and suspended again. -/
  | part (id : Nat)
  /-- Resumed in `receive`, whose call ends. -/
  | received (id : Nat) (out : ReceiveOutcome)
  /-- Resumed in `receive` with `closed` or `parse_failed`, by an event that had been queued
      when `clean` of the top-level session destroyed the watcher and closed the connection. -/
  | reclose (id : Nat)
  /-- Resumed in `http` with `_gonna_shut_down` set: `STOP` is raised. -/
  | stop (id : Nat)
  /-- A file descriptor is opened by something else, -/
  | open (fd : Nat)
  /-- and closed. -/
  | close (fd : Nat)

/-- No sessions, and no sockets. -/
def start : Pool where
  sched := Sched.start
  session _ := ⟨0, false, .out, false⟩
  exited := false
  nextConn := 0
  conn _ := ⟨0, "", 0, false, 0, 0⟩
  fds _ := none
  free _ := ∅
  busy _ := ∅
  finalizers _ := []

/-- The number of the sessions registered so far. -/
def nextId (s : Pool) : Nat := s.sched.mgr.nextId

/-- The session is registered, and its coroutine has not ended. -/
def Registered (s : Pool) (id : Nat) : Prop := id ∈ s.sched.mgr.sessions

instance (s : Pool) (id : Nat) : Decidable (s.Registered id) :=
  inferInstanceAs (Decidable (id ∈ s.sched.mgr.sessions))

/-- The session that has been resumed. -/
def ctl (s : Pool) : Option Nat :=
  match s.sched.ctl with
  | .running id => some id
  | _ => none

/-- A step of the scheduler. -/
def scheduled (s : Pool) (a : Sched.Act Unit Unit) : Option Pool :=
  (s.sched.step a).map fun sched => { s with sched }

/-- The running session yields. -/
def suspend (s : Pool) : Pool := { s with sched := { s.sched with ctl := .loop } }

/-- A session of the family of `root` is registered and planned. -/
def register (s : Pool) (root : Nat) : Pool :=
  { s with
    sched := { s.sched with mgr := (s.sched.mgr.register fun _ => ()).planResume (s.nextId + 1) () }
    session := Function.update s.session (s.nextId + 1) ⟨root, false, .out, false⟩ }

/-- A top-level session is registered and planned. -/
def spawn (s : Pool) : Pool := s.register (s.nextId + 1)

/-- The children of a call of `parallel` are registered and planned. -/
def registerChildren (s : Pool) (root : Nat) : Nat → Pool
  | 0 => s
  | n + 1 => (s.register root).registerChildren root n

/-- A session is told to shut down, and planned. -/
def flag (s : Pool) (id : Nat) : Pool :=
  { s with
    sched := { s.sched with mgr := s.sched.mgr.planResume id () }
    session := Function.update s.session id { s.session id with gonnaShutDown := true } }

/-- `mark_busy` of a connection. -/
def markBusy (s : Pool) (c : Nat) : Pool :=
  let key := (s.conn c).key
  let fd := (s.conn c).fd
  { s with
    busy := Function.update s.busy key ((s.busy key).assign fd ((s.free key).lookup fd))
    free := Function.update s.free key ((s.free key).erase fd) }

/-- `mark_free` of a connection. -/
def markFree (s : Pool) (c : Nat) : Pool :=
  let key := (s.conn c).key
  let fd := (s.conn c).fd
  { s with
    free := Function.update s.free key ((s.free key).assign fd ((s.busy key).lookup fd))
    busy := Function.update s.busy key ((s.busy key).erase fd) }

/-- The finalizer added by `get_connection`. -/
def uncache (s : Pool) (c : Nat) : Pool :=
  let key := (s.conn c).key
  let fd := (s.conn c).fd
  { s with
    free := Function.update s.free key ((s.free key).erase fd)
    busy := Function.update s.busy key ((s.busy key).erase fd) }

/-- `cl_close_socket`, which exits the process if the file descriptor is not open. -/
def closeSocket (s : Pool) (fd : Nat) : Pool :=
  match s.fds fd with
  | none => { s with exited := true }
  | some _ => { s with fds := Function.update s.fds fd none }

/-- `Connection:close`: the finalizers of the connection, the last one first. -/
def closeConn (s : Pool) (c : Nat) (leaveFin : Bool) : Pool :=
  let root := (s.conn c).root
  let s := (if (s.conn c).cached then s.uncache c else s).closeSocket (s.conn c).fd
  if leaveFin then s
  else { s with finalizers := Function.update s.finalizers root ((s.finalizers root).erase c) }

/-- The watchers the family of `root` waits with are destroyed. What their events have
    queued stays queued. -/
def unwatch (s : Pool) (root : Nat) : Pool :=
  { s with session := fun i =>
      if (s.session i).root = root then { s.session i with watching := false } else s.session i }

/-- `clean` of a top-level session: the watchers of its finalizers are destroyed, and
    the connections `cs` closed. -/
def clean (s : Pool) (root : Nat) (cs : List Nat) : Pool :=
  cs.foldl (fun s c => s.closeConn c true)
    { s.unwatch root with finalizers := Function.update s.finalizers root [] }

/-- The coroutine of the running session `id` ends. -/
def ended (s : Pool) (id : Nat) : Pool :=
  { s with sched := { s.sched with ctl := .loop, mgr := s.sched.mgr.remove id } }

/-- The running session `id` goes on, and stands at `http`. -/
def goOn (s : Pool) (id : Nat) (http : Http) : Pool :=
  { s with
    session := Function.update s.session id { s.session id with http, watching := false } }

/-- The running session `id` is suspended at `http`, with a watcher. -/
def wait (s : Pool) (id : Nat) (http : Http) : Pool :=
  { s.suspend with
    session := Function.update s.session id { s.session id with http, watching := true } }

/-- A connection is opened, and the session `id` waits until it is established. -/
def openConn (s : Pool) (id : Nat) (hkey : String) (fd : Nat) : Pool :=
  let c := s.nextConn
  let root := (s.session id).root
  { s.wait id (.connect c) with
    nextConn := c + 1
    conn := Function.update s.conn c ⟨root, hkey, fd, false, 0, 0⟩
    fds := Function.update s.fds fd (some (.conn c))
    finalizers := Function.update s.finalizers root (s.finalizers root ++ [c]) }

/-- The rest of `get_connection` once the connection is established. -/
def cache (s : Pool) (c : Nat) : Pool :=
  let key := (s.conn c).key
  { s with
    conn := Function.update s.conn c { s.conn c with cached := true }
    free := Function.update s.free key ((s.free key).insert (s.conn c).fd c) }

/-- The requests written to a connection and the responses read from it. -/
def count (s : Pool) (c written read : Nat) : Pool :=
  { s with conn := Function.update s.conn c { s.conn c with written, read } }

/-- A request is written to the socket `fd`. -/
def write (s : Pool) (fd : Nat) : Pool :=
  match s.fds fd with
  | some (.conn c) => s.count c ((s.conn c).written + 1) (s.conn c).read
  | _ => s

/-- A response is read from the socket `fd`. -/
def read (s : Pool) (fd : Nat) : Pool :=
  match s.fds fd with
  | some (.conn c) => s.count c (s.conn c).written ((s.conn c).read + 1)
  | _ => s

/-- The session that runs code of its own. -/
def current (s : Pool) : Option Nat :=
  s.ctl.filter fun id => (s.session id).http = .out

/-- Where the running session stands if it has been resumed by an event. -/
def resumed (s : Pool) (id : Nat) : Option Http :=
  if s.ctl = some id ∧ (s.session id).gonnaShutDown = false then some (s.session id).http else none

/-- Where it stands if the watcher of its operation is its own to destroy: it has not been
    destroyed since the event. Otherwise it is freed twice, which ends the process (`exit`). -/
def waiting (s : Pool) (id : Nat) : Option Http :=
  (s.resumed id).filter fun _ => (s.session id).watching

/-- The rest of `http` once `receive` has ended. -/
def receive (s : Pool) (id c : Nat) : ReceiveOutcome → Pool
  | .done keepalive =>
    let s := ((s.goOn id .out).read (s.conn c).fd).markFree c
    if keepalive then s else s.closeConn c false
  | .raised => (s.goOn id .out).read (s.conn c).fd
  | .failed => (s.goOn id .out).closeConn c false

/-- The step of an action of a process that has not exited. -/
def act (s : Pool) : Act → Option Pool
  | .spawn => if s.sched.Callable then some s.spawn else none
  | .plan id => if (s.session id).http = .out then s.scheduled (.plan id ()) else none
  | .event id =>
    if s.sched.ctl = .idle ∧ (s.session id).watching then s.scheduled (.plan id ()) else none
  | .shutDown ids =>
    if s.sched.ctl = .idle ∧ ids.Perm s.sched.mgr.sessions.keys then some (ids.foldl flag s)
    else none
  | .start => s.scheduled .start
  | .fetch => s.scheduled .fetch
  | .done => s.scheduled .done
  | .parallel n => s.current.map fun id => (s.registerChildren (s.session id).root n).suspend
  | .yield => s.current.map fun _ => s.suspend
  | .finish cs =>
    s.current.bind fun id =>
      if (s.session id).root = id then
        if cs.Perm (s.finalizers id) then some ((s.ended id).clean id cs) else none
      else some (s.ended id)
  | .exit => some { s with exited := true }
  | .reuse hkey fd =>
    s.current.bind fun id =>
      ((s.free ((s.session id).root, hkey)).lookup fd).map fun c =>
        (s.markBusy c).goOn id (.request c)
  | .connect hkey fd =>
    s.current.bind fun id =>
      if (s.free ((s.session id).root, hkey)).entries = [] ∧ s.fds fd = none then
        some (s.openConn id hkey fd)
      else none
  | .connected id =>
    (s.waiting id).bind fun
      | .connect c =>
        if (s.conn c).fd ≠ 0 then
          some ((((s.goOn id .out).cache c).markBusy c).goOn id (.request c))
        else none
      | _ => none
  | .refused id =>
    (s.waiting id).bind fun
      | .connect c => some ((s.goOn id .out).closeConn c false)
      | _ => none
  | .send out =>
    s.ctl.bind fun id =>
      match (s.session id).http, out with
      | .request _, .error => some (s.goOn id .out)
      | .request c, .full =>
        if (s.fds (s.conn c).fd).isSome then some (s.wait id (.send c)) else none
      | .request c, .all =>
        if (s.fds (s.conn c).fd).isSome then
          some (((s.goOn id .out).write (s.conn c).fd).wait id (.receive c))
        else none
      | _, _ => none
  | .sendReady id =>
    (s.waiting id).bind fun
      | .send c => some (s.goOn id (.request c))
      | _ => none
  | .sendTimeout id =>
    -- The error is raised before the watcher would be destroyed.
    if s.ctl = some id then
      match (s.session id).http with
      | .send _ => some (s.goOn id .out)
      | _ => none
    else none
  | .part id =>
    (s.resumed id).bind fun
      | .receive _ => some s.suspend
      | _ => none
  | .received id out =>
    (s.waiting id).bind fun
      | .receive c => some (s.receive id c out)
      | _ => none
  | .reclose id =>
    -- `receive` returns without destroying the watcher, and `http` closes the connection.
    (s.resumed id).bind fun
      | .receive c => if (s.session id).watching then none else some (s.receive id c .failed)
      | _ => none
  | .stop id =>
    if s.ctl = some id ∧ (s.session id).gonnaShutDown then
      match (s.session id).http with
      | .connect _ | .send _ | .receive _ => some (s.goOn id .out)
      | _ => none
    else none
  | .open fd =>
    if s.fds fd = none then some { s with fds := Function.update s.fds fd (some .other) } else none
  | .close fd =>
    if s.fds fd = some .other then some { s with fds := Function.update s.fds fd none } else none

/-- The pool, from the state without sessions. -/
def sys : System Pool Act where
  init s := s = start
  step s a := if s.exited then none else s.act a

/-- No session goes on with an event that had been queued before its top-level session was
    cleaned. -/
def Timely (_ : Pool) : Act → Prop
  | .reclose _ => False
  | _ => True

instance (s : Pool) : DecidablePred s.Timely := fun a => by
  cases a <;> unfold Timely <;> infer_instance

/-! ## What a step does -/

variable {s s' : Pool} {id fd : Nat} {hkey : String}

/-- The session that runs, and calls `http` or does something else. -/
theorem current_eq_some : s.current = some id ↔ s.ctl = some id ∧ (s.session id).http = .out := by
  simp [current, Option.filter_eq_some_iff]

theorem ctl_eq_some : s.ctl = some id ↔ s.sched.ctl = .running id := by
  unfold ctl
  split
  · rename_i i hctl
    simp [hctl]
  · rename_i hctl
    exact iff_of_false nofun (hctl id)

/-- It is resumed in `http`, and not told to shut down, -/
theorem resumed_eq_some {http : Http} : s.resumed id = some http ↔
    s.ctl = some id ∧ (s.session id).gonnaShutDown = false ∧ (s.session id).http = http := by
  simp [resumed, and_assoc]

/-- and it still has its watcher. -/
theorem waiting_eq_some {http : Http} : s.waiting id = some http ↔
    s.ctl = some id ∧ ((s.session id).gonnaShutDown = false ∧ (s.session id).watching = true) ∧
      (s.session id).http = http := by
  rw [waiting, Option.filter_eq_some_iff, resumed_eq_some]
  tauto

/-- The actions of the scheduler that register and end no session. -/
def Scheduling : Act → Prop
  | .plan _ | .event _ | .start | .fetch | .done => True
  | _ => False

/-- They leave the sessions and the connections alone, and a session that runs goes on. -/
theorem act_scheduling {a : Act} (h : s.act a = some s') (ha : Scheduling a) :
    ∃ sched, s' = { s with sched } ∧ sched.mgr.sessions = s.sched.mgr.sessions ∧
      sched.mgr.nextId = s.sched.mgr.nextId ∧
      ∀ id, s.sched.ctl = .running id → sched.ctl = .running id := by
  have hplan {id : Nat} (h : s.scheduled (.plan id ()) = some s') :
      ∃ sched, s' = { s with sched } ∧ sched.mgr.sessions = s.sched.mgr.sessions ∧
        sched.mgr.nextId = s.sched.mgr.nextId ∧
        ∀ id, s.sched.ctl = .running id → sched.ctl = .running id := by
    obtain ⟨sched, hs, rfl⟩ := Option.map_eq_some_iff.1 h
    obtain ⟨-, rfl⟩ := Sched.step_plan hs
    exact ⟨_, rfl, by simp, by simp, fun _ h => h⟩
  cases a with
  | plan id => exact hplan (Option.ite_none_right_eq_some.1 h).2
  | event id => exact hplan (Option.ite_none_right_eq_some.1 h).2
  | start =>
    obtain ⟨sched, hs, rfl⟩ := Option.map_eq_some_iff.1 h
    obtain ⟨hctl, rfl⟩ := Sched.step_start hs
    exact ⟨_, rfl, rfl, rfl, fun _ h => by rw [hctl] at h; cases h⟩
  | fetch =>
    obtain ⟨sched, hs, rfl⟩ := Option.map_eq_some_iff.1 h
    obtain ⟨hctl, id, args, -, ⟨-, rfl⟩ | ⟨-, rfl⟩⟩ := Sched.step_fetch hs
    all_goals exact ⟨_, rfl, rfl, rfl, fun _ h => by rw [hctl] at h; cases h⟩
  | done =>
    obtain ⟨sched, hs, rfl⟩ := Option.map_eq_some_iff.1 h
    obtain ⟨hctl, -, rfl⟩ := Sched.step_done hs
    exact ⟨_, rfl, rfl, rfl, fun _ h => by rw [hctl] at h; cases h⟩
  | _ => exact ha.elim

theorem act_shutDown {ids : List Nat} (h : s.act (.shutDown ids) = some s') :
    s.sched.ctl = .idle ∧ s' = ids.foldl flag s := by
  obtain ⟨⟨hctl, -⟩, h⟩ := Option.ite_none_right_eq_some.1 h
  exact ⟨hctl, (Option.some.inj h).symm⟩

/-- A session that ends is cleaned if it is a top-level one. -/
theorem act_finish {cs : List Nat} (h : s.act (.finish cs) = some s') :
    ∃ id, s.current = some id ∧
      (((s.session id).root = id ∧ cs.Perm (s.finalizers id) ∧ s' = (s.ended id).clean id cs) ∨
        ((s.session id).root ≠ id ∧ s' = s.ended id)) := by
  obtain ⟨id, hid, h⟩ := Option.bind_eq_some_iff.1 h
  refine ⟨id, hid, ?_⟩
  split at h
  · obtain ⟨hcs, h⟩ := Option.ite_none_right_eq_some.1 h
    exact .inl ⟨‹_›, hcs, (Option.some.inj h).symm⟩
  · exact .inr ⟨‹_›, (Option.some.inj h).symm⟩

/-- A free connection is taken, -/
theorem act_reuse (h : s.act (.reuse hkey fd) = some s') :
    ∃ id c, s.current = some id ∧ (s.free ((s.session id).root, hkey)).lookup fd = some c ∧
      s' = (s.markBusy c).goOn id (.request c) := by
  obtain ⟨id, hid, h⟩ := Option.bind_eq_some_iff.1 h
  obtain ⟨c, hc, rfl⟩ := Option.map_eq_some_iff.1 h
  exact ⟨id, c, hid, hc, rfl⟩

/-- and a new one is opened only if there is none. -/
theorem act_connect (h : s.act (.connect hkey fd) = some s') :
    ∃ id, s.current = some id ∧ (s.free ((s.session id).root, hkey)).entries = [] ∧
      s.fds fd = none ∧ s' = s.openConn id hkey fd := by
  obtain ⟨id, hid, h⟩ := Option.bind_eq_some_iff.1 h
  obtain ⟨⟨hfree, hfd⟩, h⟩ := Option.ite_none_right_eq_some.1 h
  exact ⟨id, hid, hfree, hfd, (Option.some.inj h).symm⟩

/-- A connection that is established is put in the cache, and is busy at once. -/
theorem act_connected (h : s.act (.connected id) = some s') :
    ∃ c, s.waiting id = some (.connect c) ∧ (s.conn c).fd ≠ 0 ∧
      s' = (((s.goOn id .out).cache c).markBusy c).goOn id (.request c) := by
  obtain ⟨http, hw, h⟩ := Option.bind_eq_some_iff.1 h
  cases http with
  | connect c =>
    obtain ⟨hfd, h⟩ := Option.ite_none_right_eq_some.1 h
    exact ⟨c, hw, hfd, (Option.some.inj h).symm⟩
  | _ => cases h

/-- One that is not is closed. -/
theorem act_refused (h : s.act (.refused id) = some s') :
    ∃ c, s.waiting id = some (.connect c) ∧ s' = (s.goOn id .out).closeConn c false := by
  obtain ⟨http, hw, h⟩ := Option.bind_eq_some_iff.1 h
  cases http with
  | connect c => exact ⟨c, hw, (Option.some.inj h).symm⟩
  | _ => cases h

/-- The request is written, partly or as a whole, or `http` raises an error. -/
theorem act_send {out : SendOutcome} (h : s.act (.send out) = some s') :
    ∃ id c, s.ctl = some id ∧ (s.session id).http = .request c ∧
      ((out = .error ∧ s' = s.goOn id .out) ∨
      ((s.fds (s.conn c).fd).isSome = true ∧ out = .full ∧ s' = s.wait id (.send c)) ∨
      ((s.fds (s.conn c).fd).isSome = true ∧ out = .all ∧
        s' = ((s.goOn id .out).write (s.conn c).fd).wait id (.receive c))) := by
  obtain ⟨id, hctl, h⟩ := Option.bind_eq_some_iff.1 h
  split at h
  · rename_i c hhttp _
    exact ⟨id, c, hctl, hhttp, .inl ⟨rfl, (Option.some.inj h).symm⟩⟩
  · rename_i c hhttp _
    obtain ⟨hfd, h⟩ := Option.ite_none_right_eq_some.1 h
    exact ⟨id, c, hctl, hhttp, .inr (.inl ⟨hfd, rfl, (Option.some.inj h).symm⟩)⟩
  · rename_i c hhttp _
    obtain ⟨hfd, h⟩ := Option.ite_none_right_eq_some.1 h
    exact ⟨id, c, hctl, hhttp, .inr (.inr ⟨hfd, rfl, (Option.some.inj h).symm⟩)⟩
  · cases h

theorem act_sendReady (h : s.act (.sendReady id) = some s') :
    ∃ c, s.waiting id = some (.send c) ∧ s' = s.goOn id (.request c) := by
  obtain ⟨http, hw, h⟩ := Option.bind_eq_some_iff.1 h
  cases http with
  | send c => exact ⟨c, hw, (Option.some.inj h).symm⟩
  | _ => cases h

/-- After a timeout the connection stays busy: `http` raises an error. -/
theorem act_sendTimeout (h : s.act (.sendTimeout id) = some s') :
    s.ctl = some id ∧ s' = s.goOn id .out := by
  obtain ⟨hctl, h⟩ := Option.ite_none_right_eq_some.1 h
  split at h
  · exact ⟨hctl, (Option.some.inj h).symm⟩
  · cases h

theorem act_part (h : s.act (.part id) = some s') :
    ∃ c, s.resumed id = some (.receive c) ∧ s' = s.suspend := by
  obtain ⟨http, hr, h⟩ := Option.bind_eq_some_iff.1 h
  cases http with
  | receive c => exact ⟨c, hr, (Option.some.inj h).symm⟩
  | _ => cases h

/-- `http` frees or closes the connection, or raises an error. -/
theorem act_received {out : ReceiveOutcome} (h : s.act (.received id out) = some s') :
    ∃ c, s.waiting id = some (.receive c) ∧ s' = s.receive id c out := by
  obtain ⟨http, hw, h⟩ := Option.bind_eq_some_iff.1 h
  cases http with
  | receive c => exact ⟨c, hw, (Option.some.inj h).symm⟩
  | _ => cases h

/-- The connection is closed again, with no watcher left. -/
theorem act_reclose (h : s.act (.reclose id) = some s') :
    ∃ c, s.resumed id = some (.receive c) ∧ (s.session id).watching = false ∧
      s' = s.receive id c .failed := by
  obtain ⟨http, hr, h⟩ := Option.bind_eq_some_iff.1 h
  cases http with
  | receive c =>
    obtain ⟨hw, h⟩ := Option.ite_none_left_eq_some.1 h
    exact ⟨c, hr, Bool.eq_false_iff.2 hw, (Option.some.inj h).symm⟩
  | _ => cases h

/-- A session stops where it waits, whether or not it still has a watcher. -/
theorem act_stop (h : s.act (.stop id) = some s') :
    s.ctl = some id ∧ (∃ c, (s.session id).http = .connect c ∨ (s.session id).http = .send c ∨
      (s.session id).http = .receive c) ∧ s' = s.goOn id .out := by
  obtain ⟨⟨hctl, -⟩, h⟩ := Option.ite_none_right_eq_some.1 h
  split at h
  · exact ⟨hctl, ⟨_, .inl ‹_›⟩, (Option.some.inj h).symm⟩
  · exact ⟨hctl, ⟨_, .inr (.inl ‹_›)⟩, (Option.some.inj h).symm⟩
  · exact ⟨hctl, ⟨_, .inr (.inr ‹_›)⟩, (Option.some.inj h).symm⟩
  · cases h

/-! ## The passes -/

/-- What becomes of the connections does not concern the manager. -/
theorem sched_closeConn (s : Pool) (c : Nat) (leaveFin : Bool) :
    (s.closeConn c leaveFin).sched = s.sched := by
  have hclose (s : Pool) (fd : Nat) : (s.closeSocket fd).sched = s.sched := by
    unfold closeSocket
    split <;> rfl
  have hun : (if (s.conn c).cached then s.uncache c else s).sched = s.sched := by
    split <;> rfl
  cases leaveFin <;> exact (hclose _ _).trans hun

theorem sched_clean (s : Pool) (root : Nat) (cs : List Nat) : (s.clean root cs).sched = s.sched := by
  have hall (s : Pool) : (cs.foldl (fun s c => s.closeConn c true) s).sched = s.sched := by
    induction cs generalizing s with
    | nil => rfl
    | cons c cs ih => exact (ih _).trans (sched_closeConn s c true)
  exact hall _

theorem sched_write (s : Pool) (fd : Nat) : (s.write fd).sched = s.sched := by
  unfold write
  split <;> rfl

theorem sched_read (s : Pool) (fd : Nat) : (s.read fd).sched = s.sched := by
  unfold read
  split <;> rfl

theorem sched_receive (s : Pool) (id c : Nat) (out : ReceiveOutcome) :
    (s.receive id c out).sched = s.sched := by
  have hread := sched_read (s.goOn id .out) (s.conn c).fd
  cases out with
  | done keepalive =>
    cases keepalive with
    | true => exact hread
    | false => exact (sched_closeConn (markFree _ _) c false).trans hread
  | raised => exact hread
  | failed => exact sched_closeConn _ c false

theorem run_yield (hctl : s.ctl = some id) : Sched.Run s.sched [.yield] s.suspend.sched :=
  .single trivial (by simp [Sched.sys, Sched.step, ctl_eq_some.1 hctl, suspend])

theorem run_register (h : s.sched.Callable) (root : Nat) : Sched.Run s.sched
    [.register fun _ => (), .plan (s.nextId + 1) ()] (s.register root).sched :=
  .cons trivial (if_pos h) (.single trivial (if_pos h))

/-- `parallel` registers the functions one by one, and plans them. -/
theorem run_registerChildren (hctl : s.ctl = some id) (root n : Nat) :
    ∃ as, Sched.Run s.sched as (s.registerChildren root n).sched ∧
      (s.registerChildren root n).ctl = some id := by
  induction n generalizing s with
  | zero => exact ⟨[], .nil _, hctl⟩
  | succ n ih =>
    obtain ⟨as, has, hctl'⟩ := ih (s := s.register root) hctl
    exact ⟨_, (run_register (.inr ⟨id, ctl_eq_some.1 hctl⟩) root).trans has, hctl'⟩

/-- A shutdown plans the sessions one by one. -/
theorem run_shutDown (hctl : s.sched.ctl = .idle) (ids : List Nat) :
    ∃ as, Sched.Run s.sched as (ids.foldl flag s).sched := by
  induction ids generalizing s with
  | nil => exact ⟨[], .nil _⟩
  | cons id ids ih =>
    obtain ⟨as, has⟩ := ih (s := s.flag id) hctl
    have hstep : Sched.sys.step s.sched (.plan id ()) = some (s.flag id).sched :=
      if_pos (.inl hctl)
    exact ⟨_, .cons trivial hstep has⟩

/-- The sessions of the pool are resumed in the passes of the manager: every step is a run
    of the scheduler. -/
theorem refinement : Refinement sys Sched.sys Pool.sched where
  init := by rintro _ rfl; rfl
  step := by
    intro s a s' _ h
    obtain ⟨-, h⟩ := Option.ite_none_left_eq_some.1 h
    have hone {b : Sched.Act Unit Unit} (h : s.scheduled b = some s') :
        ∃ as, Sched.Run s.sched as s'.sched := by
      obtain ⟨sched, hs, rfl⟩ := Option.map_eq_some_iff.1 h
      exact ⟨[b], .single trivial hs⟩
    have hnone (heq : s'.sched = s.sched) : ∃ as, Sched.Run s.sched as s'.sched := by
      rw [heq]
      exact ⟨[], .nil _⟩
    have hyield {id : Nat} (hctl : s.ctl = some id) (heq : s'.sched = s.suspend.sched) :
        ∃ as, Sched.Run s.sched as s'.sched := by
      rw [heq]
      exact ⟨_, run_yield hctl⟩
    cases a with
    | plan id => exact hone (Option.ite_none_right_eq_some.1 h).2
    | event id => exact hone (Option.ite_none_right_eq_some.1 h).2
    | start | fetch | done => exact hone h
    | spawn =>
      obtain ⟨hcall, h⟩ := Option.ite_none_right_eq_some.1 h
      obtain rfl := Option.some.inj h
      exact ⟨_, run_register hcall _⟩
    | shutDown ids =>
      obtain ⟨hctl, rfl⟩ := act_shutDown h
      exact run_shutDown hctl ids
    | parallel n =>
      obtain ⟨id, hid, rfl⟩ := Option.map_eq_some_iff.1 h
      obtain ⟨as, has, hctl⟩ :=
        run_registerChildren (current_eq_some.1 hid).1 (s.session id).root n
      exact ⟨_, has.trans (run_yield hctl)⟩
    | yield =>
      obtain ⟨id, hid, rfl⟩ := Option.map_eq_some_iff.1 h
      exact hyield (current_eq_some.1 hid).1 rfl
    | part id =>
      obtain ⟨c, hr, rfl⟩ := act_part h
      exact hyield (resumed_eq_some.1 hr).1 rfl
    | finish cs =>
      obtain ⟨id, hid, h⟩ := act_finish h
      have hctl := ctl_eq_some.1 (current_eq_some.1 hid).1
      have hrun : Sched.Run s.sched [.finish] (s.ended id).sched :=
        .single trivial (by simp [Sched.sys, Sched.step, hctl, ended])
      rcases h with ⟨-, -, rfl⟩ | ⟨-, rfl⟩
      · rw [sched_clean]
        exact ⟨_, hrun⟩
      · exact ⟨_, hrun⟩
    | exit =>
      obtain rfl := Option.some.inj h
      exact hnone rfl
    | reuse hkey fd =>
      obtain ⟨id, c, -, -, rfl⟩ := act_reuse h
      exact hnone rfl
    | connect hkey fd =>
      obtain ⟨id, hid, -, -, rfl⟩ := act_connect h
      exact hyield (current_eq_some.1 hid).1 rfl
    | connected id =>
      obtain ⟨c, -, -, rfl⟩ := act_connected h
      exact hnone rfl
    | refused id =>
      obtain ⟨c, -, rfl⟩ := act_refused h
      exact hnone (sched_closeConn _ c false)
    | send out =>
      obtain ⟨id, c, hctl, -, ⟨-, rfl⟩ | ⟨-, -, rfl⟩ | ⟨-, -, rfl⟩⟩ := act_send h
      · exact hnone rfl
      · exact hyield hctl rfl
      · refine hyield hctl ?_
        simp only [wait, suspend, sched_write]
        rfl
    | sendReady id =>
      obtain ⟨c, -, rfl⟩ := act_sendReady h
      exact hnone rfl
    | sendTimeout id =>
      obtain ⟨-, rfl⟩ := act_sendTimeout h
      exact hnone rfl
    | received id out =>
      obtain ⟨c, -, rfl⟩ := act_received h
      exact hnone (sched_receive s id c out)
    | reclose id =>
      obtain ⟨c, -, -, rfl⟩ := act_reclose h
      exact hnone (sched_receive s id c .failed)
    | stop id =>
      obtain ⟨-, -, rfl⟩ := act_stop h
      exact hnone rfl
    | «open» fd | close fd =>
      obtain ⟨-, h⟩ := Option.ite_none_right_eq_some.1 h
      obtain rfl := Option.some.inj h
      exact hnone rfl

end Pool

end Mistress
