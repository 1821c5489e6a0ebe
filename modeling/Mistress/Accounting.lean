import Mistress.Exclusive
import Mistress.Framing
import Mistress.Stat

/-!
# The accounting of `http`

A call of `http` gets a connection, sends a request on it and receives the response. On
its way it adds records to the statistics, and at its end it either marks the connection
free or closes it.

`Traffic` is the pool of connections together with the statistics and the calls under
way. Each part of `http` between two suspension points is a step, so that the calls of the
sessions of a family, which share their connections, interleave at these points. The records
of a call are what the statistics gain in its steps (`Stat.gained`).

* `HttpCall.Stands`: the records a call has added, by the place where it is suspended;
* `Accounted`: the records of a call that has returned, and where its connection is;
* `accounted_of_returned`: every call is accounted for, in the runs in which no connection is
  closed again.
-/

open LuaStack

namespace Mistress

open Transition

open HttpParser (bytes)

/-! ## The code between the suspension points -/

/-- The options of `http` but for those of the request. What is missing is `none`. -/
structure HttpOptions where
  remotePort : Option Nat := none
  keepalive : Option Bool := none
  groupName : Option Bytes := none
  remapStatus : Option (Table ℤ ℤ) := none

/-- What `receive` returns to `http`, or raises. -/
inductive ReceiveResult
  /-- A response. The body is `true`, here `none`, unless it is to be fetched. -/
  | response (headersTokens : Fields) (body : Option Bytes) (passed statusCode : ℤ)
      (isKeepalive : Bool)
  /-- A message without headers: all but the body is `nil`. -/
  | headless (body : Option Bytes)
  /-- `false` and an error: that of `recv`, a timeout, `conn closed` or a failure to parse. -/
  | failed (err : String)
  /-- An error of `gunzip`. -/
  | raised (e : LuaError)

/-- The values `receive` returns. -/
def ReceiveResult.received : ReceiveResult → Session.Received
  | .response headersTokens body passed statusCode isKeepalive =>
    .response (.table headersTokens) body (.num passed) (.num statusCode) (.bool isKeepalive) .nil
  | .headless body => .response .nil body .nil .nil .nil .nil
  | .failed err => .failed (.str err)
  | .raised e => .raised e

/-- What `http` returns. -/
inductive HttpResult
  /-- `return nil` -/
  | nil
  /-- `return res, headers, status_code` -/
  | values (res : Option (Option Bytes)) (headers : Option (Table Bytes HeaderValue))
      (statusCode : Option ℤ)

/-- What `http` does once `receive` has ended. -/
structure Ending where
  /-- The records it adds. -/
  records : List StatRecord
  /-- What it does with the connection. -/
  outcome : ReceiveOutcome
  /-- What it returns, unless it raises an error. -/
  result : Option HttpResult

namespace HttpOptions

variable (o : HttpOptions)

/-- `opts.remote_port`, merged with its default. -/
def port : Nat := o.remotePort.getD 80

/-- `opts.keepalive`, merged with its default. -/
def keeps : Bool := o.keepalive.getD true

/-- `opts.group_name`, merged with its default. -/
def group : Bytes := o.groupName.getD (bytes "unnamed")

/-- `opts.remap_status[status_code] or status_code`, if there is an `opts.remap_status`. -/
def remap (statusCode : ℤ) : ℤ :=
  (o.remapStatus.bind (·.lookup statusCode)).getD statusCode

/-- The rest of `http` where `receive` has returned an error. -/
def receiveError (err : Bytes) : Ending where
  records := [⟨.responseError, .text (o.group ++ bytes ": " ++ err)⟩]
  outcome := .failed
  result := some (.values none none none)

/-- The rest of `http` once `receive` has ended. `cookies` is what becomes of
    `handle_cookies`, which is called if there is a `Set-Cookie` header. -/
def afterReceive (cookies : Except LuaError Unit) : ReceiveResult → Ending
  | .response headersTokens body passed statusCode isKeepalive =>
    let keepalive := if isKeepalive then o.keeps else false
    let statusCode := o.remap statusCode
    let records := [⟨.responseTime, .group o.group passed⟩,
      ⟨.responseStatus, .group o.group statusCode⟩]
    match parseHeaders headersTokens with
    | .error _ => ⟨records, .raised, none⟩
    | .ok headers =>
      let setCookie := headers.lookup (bytes "Set-Cookie")
      match if setCookie.isSome then cookies else .ok () with
      | .error _ => ⟨records, .raised, none⟩
      | .ok () =>
        ⟨records, .done keepalive, some (.values (some body) (some headers) (some statusCode))⟩
  | .headless (some body) => o.receiveError body -- The body is taken for an error.
  | .headless none => ⟨[], .raised, none⟩ -- `true` cannot be concatenated.
  | .failed err => o.receiveError (bytes err)
  | .raised _ => ⟨[], .raised, none⟩

end HttpOptions

/-! ## The calls -/

/-- The records that have been added to the statistics since they were `old`. -/
def Stat.gained (stat old : Stat) : List StatRecord := stat.statBuf.drop old.statBuf.length

/-- A call of `http` that has been given an address of the host. -/
structure HttpCall where
  opts : HttpOptions
  ip : String
  /-- History: the number of the connections opened before it. -/
  before : Nat
  /-- History: what the statistics have gained in its steps. -/
  records : List StatRecord

/-- A call of `http` that has returned. -/
structure HttpReturn where
  call : HttpCall
  /-- History: the connection `get_connection` has got. -/
  conn : Option Nat
  /-- History: what `receive` has returned. -/
  received : Option ReceiveResult
  result : HttpResult

/-- The pool of connections, the statistics and the calls of `http`. -/
structure Traffic where
  pool : Pool
  /-- `_hosts_cache` of the top-level sessions: the addresses of a host. -/
  hosts : Nat → Table String (List String)
  stat : Stat
  /-- The calls of the sessions that are in `http`. -/
  call : Nat → Option HttpCall
  /-- History: the call that has returned in the last step. -/
  returned : Option HttpReturn

/-- How `get_connection` goes on once it has an address. -/
inductive Lookup
  /-- `next` finds the free connection at `fd`. -/
  | free (fd : Nat)
  /-- No connection is free, and the new socket is `fd`. -/
  | socket (fd : Nat)
  /-- No connection is free, and no port either. -/
  | noPorts (now : ℚ)

namespace Traffic

/-- The actions. -/
inductive Act
  /-- Something in which `http` has no part. -/
  | other (a : Pool.Act)
  /-- The sessions of a family get the addresses of a host. -/
  | resolve (root : Nat) (host : String) (ips : List String)
  /-- Something else adds to the statistics, or resets them. -/
  | stat (stat : Stat)
  /-- The running session calls `http`; `random` picks the address `i`. -/
  | http (host : String) (opts : HttpOptions) (i : Nat) (lookup : Lookup)
  /-- The connection has been established: `cb_connect`. -/
  | connected (id : Nat) (passed : ℚ)
  /-- It has not, for the error `passed`, or in time; or its file descriptor is `0`. -/
  | refused (id : Nat) (passed : Option String) (now : ℚ)
  /-- The request is built, and `mistress.send` called. An error there is one of either. -/
  | send (out : SendOutcome)
  /-- The socket takes data again: `cb_send_ready`. -/
  | sendReady (id : Nat)
  /-- `cb_send_timeout` -/
  | sendTimeout (id : Nat)
  /-- `receive` ends. -/
  | received (id : Nat) (r : ReceiveResult) (cookies : Except LuaError Unit)
  /-- It ends with the error `err`, by an event that had been queued when the top-level session
      was cleaned. -/
  | reclose (id : Nat) (err : String)
  /-- A session suspended in `http` is resumed by a shutdown, and `STOP` raised. -/
  | stop (id : Nat)

/-- The actions of the pool in which no call of `http` gets anywhere. -/
def Elsewhere : Pool.Act → Prop
  | .spawn | .plan _ | .event _ | .shutDown _ | .start | .fetch | .done | .parallel _ | .yield
  | .finish _ | .exit | .part _ | .open _ | .close _ => True
  | .reuse _ _ | .connect _ _ | .connected _ | .refused _ | .send _ | .sendReady _
  | .sendTimeout _ | .received _ _ | .reclose _ | .stop _ => False

instance : DecidablePred Elsewhere
  | .spawn | .plan _ | .event _ | .shutDown _ | .start | .fetch | .done | .parallel _ | .yield
  | .finish _ | .exit | .part _ | .open _ | .close _ => isTrue trivial
  | .reuse _ _ | .connect _ _ | .connected _ | .refused _ | .send _ | .sendReady _
  | .sendTimeout _ | .received _ _ | .reclose _ | .stop _ => isFalse id

/-- No sessions, no addresses and no records. -/
def start : Traffic := ⟨.start, fun _ => ∅, .init, fun _ => none, none⟩

/-- `Stat:add` of several records. -/
def addAll (stat : Stat) (records : List StatRecord) : Stat :=
  records.foldl (fun stat r => stat.add r.type r.value) stat

variable (t : Traffic) (s : Pool) (id : Nat) (k : HttpCall)

/-- The call with what the statistics have gained. -/
def noted (stat : Stat) : HttpCall := { k with records := k.records ++ stat.gained t.stat }

/-- The call goes on, having added records. -/
def go (records : List StatRecord) : Traffic :=
  let stat := addAll t.stat records
  { t with pool := s, stat, call := Function.update t.call id (some (t.noted k stat)) }

/-- The call raises an error, having added records. -/
def raise (records : List StatRecord) : Traffic :=
  { t with
    pool := s
    stat := addAll t.stat records
    call := Function.update t.call id none }

/-- The call returns, having added records. -/
def ret (records : List StatRecord) (conn : Option Nat) (received : Option ReceiveResult)
    (result : HttpResult) : Traffic :=
  { t.raise s id records with
    returned := some ⟨t.noted k (addAll t.stat records), conn, received, result⟩ }

/-- `get_connection` where `connect` returns `0` and an error, and the rest of `http`. -/
def connectError (err : String) (now : ℚ) : Traffic :=
  let msg := k.opts.group ++ bytes ": " ++ bytes err
  t.ret s id k [⟨.connectError, .connectError msg (bytes k.ip) now⟩] none none .nil

/-- `get_connection` with an address, up to its suspension or its return. -/
def getConnection : Lookup → Option Traffic
  | .free fd =>
    (t.pool.act (.reuse (k.ip ++ ":" ++ toString k.opts.port) fd)).map fun s => t.go s id k []
  | .socket fd =>
    (t.pool.act (.connect (k.ip ++ ":" ++ toString k.opts.port) fd)).map fun s => t.go s id k []
  | .noPorts now =>
    let key := ((t.pool.session id).root, k.ip ++ ":" ++ toString k.opts.port)
    if (t.pool.free key).entries = [] then
      some (t.connectError t.pool id k "not enough ports" now)
    else none

/-- The step of an action of a process that has not exited. -/
def act (t : Traffic) : Act → Option Traffic
  | .other a => if Elsewhere a then (t.pool.act a).map fun s => { t with pool := s } else none
  | .resolve root host ips =>
    some { t with hosts := Function.update t.hosts root ((t.hosts root).insert host ips) }
  | .stat stat => some { t with stat }
  | .http host opts i lookup =>
    t.pool.current.bind fun id =>
      match (t.hosts (t.pool.session id).root).lookup host with
      | none => some t -- An error is raised.
      | some ips =>
        ips[i]?.bind fun ip => t.getConnection id ⟨opts, ip, t.pool.nextConn, []⟩ lookup
  | .connected id passed =>
    (t.call id).bind fun k =>
      (t.pool.act (.connected id)).map fun s =>
        t.go s id k [⟨.connectTime, .group k.opts.group passed⟩]
  | .refused id passed now =>
    (t.call id).bind fun k =>
      (t.pool.act (.refused id)).map fun s => t.connectError s id k (passed.getD "timeout") now
  | .send out =>
    t.pool.ctl.bind fun id =>
      (t.call id).bind fun k =>
        (t.pool.act (.send out)).map fun s =>
          match out with
          | .all => t.go s id k [⟨.requestSent, .num 1⟩]
          | .full => t.go s id k []
          | .error => t.raise s id []
  | .sendReady id =>
    (t.call id).bind fun k => (t.pool.act (.sendReady id)).map fun s => t.go s id k []
  | .sendTimeout id => (t.pool.act (.sendTimeout id)).map fun s => t.raise s id []
  | .received id r cookies =>
    (t.call id).bind fun k =>
      match t.pool.waiting id with
      | some (.receive c) =>
        let e := k.opts.afterReceive cookies r
        (t.pool.act (.received id e.outcome)).map fun s =>
          match e.result with
          | some result => t.ret s id k e.records (some c) (some r) result
          | none => t.raise s id e.records
      | _ => none
  | .reclose id err =>
    (t.call id).bind fun k =>
      match t.pool.resumed id with
      | some (.receive c) =>
        (t.pool.act (.reclose id)).map fun s =>
          t.ret s id k (k.opts.receiveError (bytes err)).records (some c) (some (.failed err))
            (.values none none none)
      | _ => none
  | .stop id => (t.pool.act (.stop id)).map fun s => t.raise s id []

/-- The traffic, from the state without sessions. -/
def sys : System Traffic Act where
  init t := t = start
  step t a := if t.pool.exited then none else { t with returned := none }.act a

/-- No session goes on with an event queued before its top-level session was cleaned. -/
def Timely (_ : Traffic) : Act → Prop
  | .reclose _ _ => False
  | _ => True

instance (t : Traffic) : DecidablePred t.Timely := fun a => by
  cases a <;> unfold Timely <;> infer_instance

end Traffic

/-! ## What is promised -/

/-- Whether a response allows the connection to be kept alive. -/
def ReceiveResult.keepalive? : ReceiveResult → Option Bool
  | .response _ _ _ _ isKeepalive => some isKeepalive
  | _ => none

namespace HttpReturn

variable (r : HttpReturn)

/-- The types of the records the call has added. -/
def types : List SType := r.call.records.map StatRecord.type

/-- Whether a response has been received. -/
def Responded : Prop := ∃ b, r.received.bind ReceiveResult.keepalive? = some b

/-- Whether a response has been received and allows the connection to be kept alive. -/
def Allows : Prop := r.received.bind ReceiveResult.keepalive? = some true

instance : Decidable r.Responded :=
  decidable_of_iff _ Option.isSome_iff_exists

instance : Decidable r.Allows := inferInstanceAs (Decidable (_ = _))

end HttpReturn

/-- The connection is in the free table of its host key. -/
def Pool.InFree (s : Pool) (c : Nat) : Prop :=
  (s.free (s.conn c).key).lookup (s.conn c).fd = some c

/-- The records of a call that has returned are those of what has become of it, and its
    connection is free or closed. -/
structure Accounted (r : HttpReturn) (s : Pool) : Prop where
  /-- Where no connection has been got, there is a `CONNECT_ERROR` only. -/
  unconnected : r.conn = none → r.types = [.connectError] ∧ r.result = .nil
  /-- Otherwise there is a `CONNECT_TIME` if the connection has been opened by the call, then
      a `REQUEST_SENT`, and the records of the response or of the failure. -/
  connected : ∀ c ∈ r.conn, r.types =
    (if r.call.before ≤ c then [.connectTime] else []) ++ .requestSent ::
      if r.Responded then [.responseTime, .responseStatus] else [.responseError]
  /-- The connection is free if a response has been received that allows it to be kept alive,
      as requested, and only then, -/
  free : ∀ c ∈ r.conn, s.InFree c ↔ r.Responded ∧ r.call.opts.keeps ∧ r.Allows
  /-- and otherwise it is closed, and in no table. -/
  closed : ∀ c ∈ r.conn, ¬ s.InFree c → ¬ s.Open c ∧ ∀ key fd,
    (s.free key).lookup fd ≠ some c ∧ (s.busy key).lookup fd ≠ some c

/-! ## Where the sessions are in `http` -/

namespace Pool

variable {s s' s'' : Pool} {id c : Nat} {http : Http}

/-- The session `id` comes to stand at `http`, and the others stay where they are. -/
def Moves (s s' : Pool) (id : Nat) (http : Http) : Prop :=
  ∀ i, (s'.session i).http = if i = id then http else (s.session i).http

theorem moves_goOn (s : Pool) (id : Nat) (http : Http) : Moves s (s.goOn id http) id http := by
  intro i
  rw [session_goOn]
  split <;> rfl

theorem moves_wait (s : Pool) (id : Nat) (http : Http) : Moves s (s.wait id http) id http := by
  intro i
  rw [session_wait]
  split <;> rfl

/-- Only the last of two moves of a session counts. -/
theorem Moves.trans {http' : Http} (h : Moves s s' id http') (h' : Moves s' s'' id http) :
    Moves s s'' id http := by
  intro i
  rw [h' i, h i]
  split <;> rfl

theorem Moves.congr (h : Moves s s' id http) (heq : s''.session = s'.session) :
    Moves s s'' id http := by
  intro i
  rw [heq]
  exact h i

theorem session_write (s : Pool) (fd : Nat) : (s.write fd).session = s.session := by
  unfold write
  split <;> rfl

theorem session_read (s : Pool) (fd : Nat) : (s.read fd).session = s.session := by
  unfold read
  split <;> rfl

theorem session_closeConn (s : Pool) (c : Nat) (leaveFin : Bool) :
    (s.closeConn c leaveFin).session = s.session := by
  have hclose (s : Pool) (fd : Nat) : (s.closeSocket fd).session = s.session := by
    unfold closeSocket
    split <;> rfl
  have hun : (if (s.conn c).cached then s.uncache c else s).session = s.session := by
    split <;> rfl
  cases leaveFin <;> exact (hclose _ _).trans hun

theorem http_clean (s : Pool) (root : Nat) (cs : List Nat) (i : Nat) :
    ((s.clean root cs).session i).http = (s.session i).http := by
  have hall (s : Pool) : (cs.foldl (fun s c => s.closeConn c true) s).session = s.session := by
    induction cs generalizing s with
    | nil => rfl
    | cons c cs ih => exact (ih _).trans (session_closeConn s c true)
  rw [clean, hall]
  simp only [unwatch]
  split <;> rfl

theorem moves_receive (s : Pool) (id c : Nat) (out : ReceiveOutcome) :
    Moves s (s.receive id c out) id .out := by
  have hread := (moves_goOn s id .out).congr (session_read (s.goOn id .out) (s.conn c).fd)
  cases out with
  | done keepalive =>
    cases keepalive with
    | true => exact hread
    | false => exact hread.congr (session_closeConn (markFree _ _) c false)
  | raised => exact hread
  | failed => exact (moves_goOn s id .out).congr (session_closeConn (s.goOn id .out) c false)

/-! What the actions of `http` do, in terms of where the sessions are. -/

theorem reuse_cases {hkey : String} {fd : Nat} (h : s.act (.reuse hkey fd) = some s') :
    ∃ id c, s.current = some id ∧ (s.free ((s.session id).root, hkey)).lookup fd = some c ∧
      Moves s s' id (.request c) := by
  obtain ⟨id, c, hid, hc, rfl⟩ := act_reuse h
  exact ⟨id, c, hid, hc, moves_goOn (s.markBusy c) id (.request c)⟩

theorem connect_cases {hkey : String} {fd : Nat} (h : s.act (.connect hkey fd) = some s') :
    ∃ id, s.current = some id ∧ Moves s s' id (.connect s.nextConn) := by
  obtain ⟨id, hid, -, -, rfl⟩ := act_connect h
  exact ⟨id, hid, moves_wait s id (.connect s.nextConn)⟩

theorem connected_cases (h : s.act (.connected id) = some s') :
    ∃ c, (s.session id).http = .connect c ∧ Moves s s' id (.request c) := by
  obtain ⟨c, hw, -, rfl⟩ := act_connected h
  exact ⟨c, (waiting_eq_some.1 hw).2.2,
    (moves_goOn s id .out).trans (moves_goOn (markBusy _ c) id (.request c))⟩

theorem refused_cases (h : s.act (.refused id) = some s') :
    ∃ c, (s.session id).http = .connect c ∧ Moves s s' id .out := by
  obtain ⟨c, hw, rfl⟩ := act_refused h
  exact ⟨c, (waiting_eq_some.1 hw).2.2,
    (moves_goOn s id .out).congr (session_closeConn (s.goOn id .out) c false)⟩

/-- Where a call stands once the request has been sent, or some of it. -/
def afterSend (c : Nat) : SendOutcome → Http
  | .all => .receive c
  | .full => .send c
  | .error => .out

theorem send_cases {out : SendOutcome} (hctl : s.ctl = some id) (h : s.act (.send out) = some s') :
    ∃ c, (s.session id).http = .request c ∧ Moves s s' id (afterSend c out) := by
  obtain ⟨id', c, hctl', hhttp, h⟩ := act_send h
  obtain rfl := Option.some.inj (hctl.symm.trans hctl')
  rcases h with ⟨rfl, rfl⟩ | ⟨-, rfl, rfl⟩ | ⟨-, rfl, rfl⟩
  · exact ⟨c, hhttp, moves_goOn s id .out⟩
  · exact ⟨c, hhttp, moves_wait s id (.send c)⟩
  · exact ⟨c, hhttp, ((moves_goOn s id .out).congr (session_write _ _)).trans
      (moves_wait _ id (.receive c))⟩

theorem sendReady_cases (h : s.act (.sendReady id) = some s') :
    ∃ c, (s.session id).http = .send c ∧ Moves s s' id (.request c) := by
  obtain ⟨c, hw, rfl⟩ := act_sendReady h
  exact ⟨c, (waiting_eq_some.1 hw).2.2, moves_goOn s id (.request c)⟩

theorem sendTimeout_cases (h : s.act (.sendTimeout id) = some s') : Moves s s' id .out := by
  obtain ⟨-, rfl⟩ := act_sendTimeout h
  exact moves_goOn s id .out

theorem received_cases {out : ReceiveOutcome} (hw : s.waiting id = some (.receive c))
    (h : s.act (.received id out) = some s') : s' = s.receive id c out := by
  obtain ⟨c', hw', rfl⟩ := act_received h
  obtain rfl := Http.receive.inj (Option.some.inj (hw.symm.trans hw'))
  rfl

theorem stop_cases (h : s.act (.stop id) = some s') : Moves s s' id .out := by
  obtain ⟨-, -, rfl⟩ := act_stop h
  exact moves_goOn s id .out

/-- Elsewhere no session gets anywhere in `http`. -/
theorem http_elsewhere {a : Act} (ha : Traffic.Elsewhere a) (h : s.act a = some s') (i : Nat) :
    (s'.session i).http = (s.session i).http ∨ (s'.session i).http = .out := by
  have hregister (s : Pool) (root : Nat) : ((s.register root).session i).http =
      (s.session i).http ∨ ((s.register root).session i).http = .out := by
    simp only [register, Function.update_apply]
    split
    · exact .inr rfl
    · exact .inl rfl
  cases a with
  | plan | event | start | fetch | done =>
    obtain ⟨sched, rfl, -⟩ := act_scheduling h trivial
    exact .inl rfl
  | spawn =>
    obtain ⟨-, h⟩ := Option.ite_none_right_eq_some.1 h
    obtain rfl := Option.some.inj h
    exact hregister s _
  | shutDown ids =>
    obtain ⟨-, rfl⟩ := act_shutDown h
    clear h ha
    induction ids generalizing s with
    | nil => exact .inl rfl
    | cons id ids ih =>
      rcases ih (s := s.flag id) with h | h
      · exact .inl (h.trans (http_flag s id i).1)
      · exact .inr h
  | parallel n =>
    obtain ⟨id, -, rfl⟩ := Option.map_eq_some_iff.1 h
    clear h ha
    change ((s.registerChildren (s.session id).root n).session i).http = _ ∨
      ((s.registerChildren (s.session id).root n).session i).http = _
    generalize (s.session id).root = root
    induction n generalizing s with
    | zero => exact .inl rfl
    | succ n ih =>
      rcases ih (s := s.register root) with h | h
      · rcases hregister s root with h' | h'
        · exact .inl (h.trans h')
        · exact .inr (h.trans h')
      · exact .inr h
  | yield =>
    obtain ⟨id, -, rfl⟩ := Option.map_eq_some_iff.1 h
    exact .inl rfl
  | part id =>
    obtain ⟨c, -, rfl⟩ := act_part h
    exact .inl rfl
  | finish cs =>
    -- A session that ends stays where it is in `http`.
    obtain ⟨id, -, ⟨-, -, rfl⟩ | ⟨-, rfl⟩⟩ := act_finish h
    · exact .inl (http_clean _ _ _ _)
    · exact .inl rfl
  | exit =>
    obtain rfl := Option.some.inj h
    exact .inl rfl
  | «open» fd | close fd =>
    obtain ⟨-, h⟩ := Option.ite_none_right_eq_some.1 h
    obtain rfl := Option.some.inj h
    exact .inl rfl
  | reuse | connect | connected | refused | send | sendReady | sendTimeout | received | reclose
  | stop =>
    exact ha.elim

end Pool

/-! ## What the statistics gain -/

namespace Traffic

theorem statBuf_addAll (stat : Stat) (records : List StatRecord) :
    (addAll stat records).statBuf = stat.statBuf ++ records := by
  induction records generalizing stat with
  | nil => exact (List.append_nil _).symm
  | cons r records ih => exact (ih _).trans (List.append_assoc _ _ _)

/-- What is added to the statistics is what they gain. -/
theorem gained_addAll (stat : Stat) (records : List StatRecord) :
    (addAll stat records).gained stat = records := by
  rw [Stat.gained, statBuf_addAll, List.drop_left]

/-- A call that adds records has these records more. -/
theorem noted_addAll (t : Traffic) (k : HttpCall) (records : List StatRecord) :
    t.noted k (addAll t.stat records) = { k with records := k.records ++ records } := by
  rw [noted, gained_addAll]

end Traffic

/-! ## The calls under way -/

/-- The records of a call that has got the connection `c`. -/
def HttpCall.opening (k : HttpCall) (c : Nat) : List SType :=
  if k.before ≤ c then [.connectTime] else []

/-- The records a call has added where it stands. -/
def HttpCall.Stands (k : HttpCall) : Http → Prop
  | .out => True
  | .connect c => k.before ≤ c ∧ k.records = []
  | .request c | .send c => k.records.map StatRecord.type = k.opening c
  | .receive c => k.records.map StatRecord.type = k.opening c ++ [.requestSent]

namespace Traffic

variable {t t' : Traffic} {s s' : Pool} {id c : Nat} {k : HttpCall} {a : Act} {r : HttpReturn}

/-- The calls under way stand where their sessions do. -/
def Underway (s : Pool) (call : Nat → Option HttpCall) : Prop :=
  ∀ i, (s.session i).http ≠ .out → ∃ k, call i = some k ∧ k.Stands (s.session i).http

/-- What every step keeps. -/
structure Inv (t : Traffic) : Prop where
  pool : t.pool.Inv
  calls : Underway t.pool t.call
  returned : ∀ r ∈ t.returned, Accounted r t.pool

theorem Underway.congr (h : Underway s t.call)
    (hhttp : ∀ i, (s'.session i).http = (s.session i).http ∨ (s'.session i).http = .out) :
    Underway s' t.call := by
  intro i hi
  have heq := (hhttp i).resolve_right hi
  rw [heq] at hi ⊢
  exact h i hi

/-- The session `id` moves, and its call with it. -/
theorem Underway.moves {call : Nat → Option HttpCall} (h : Underway s call) {http : Http}
    (hs : s.Moves s' id http) {v : Option HttpCall}
    (hv : http ≠ .out → ∃ k, v = some k ∧ k.Stands http) :
    Underway s' (Function.update call id v) := by
  intro i hi
  rw [hs i] at hi ⊢
  rw [Function.update_apply]
  split
  · rw [if_pos ‹_›] at hi
    exact hv hi
  · rw [if_neg ‹_›] at hi
    exact h i hi

/-- The call `k` of the session `id` goes on. -/
theorem Underway.go (h : Underway t.pool t.call) {http : Http} (hs : t.pool.Moves s id http)
    {records : List StatRecord}
    (hk : HttpCall.Stands { k with records := k.records ++ records } http) :
    Underway s (t.go s id k records).call :=
  h.moves hs fun _ => ⟨_, rfl, by rwa [noted_addAll]⟩

/-- The call of the session `id` is over. -/
theorem Underway.leave {call : Nat → Option HttpCall} (h : Underway s call)
    (hs : s.Moves s' id .out) : Underway s' (Function.update call id none) :=
  h.moves hs fun hne => absurd rfl hne

/-- The call of a session that stands in `http`. -/
theorem Underway.stands (h : Underway t.pool t.call) (hk : t.call id = some k) {http : Http}
    (hhttp : (t.pool.session id).http = http) (hne : http ≠ .out) : k.Stands http := by
  subst hhttp
  obtain ⟨k', hk', hstands⟩ := h id hne
  obtain rfl := Option.some.inj (hk.symm.trans hk')
  exact hstands

/-! ## What a call comes to -/

/-- The records added once `receive` has ended, if `http` returns, and what becomes of the
    connection. -/
theorem afterReceive_cases {o : HttpOptions} {cookies : Except LuaError Unit} {r : ReceiveResult}
    {e : Ending} {result : HttpResult} (he : o.afterReceive cookies r = e)
    (h : e.result = some result) :
    (∃ b, r.keepalive? = some b ∧ e.outcome = .done (o.keeps && b) ∧
      e.records.map StatRecord.type = [.responseTime, .responseStatus]) ∨
    (r.keepalive? = none ∧ e.outcome = .failed ∧
      e.records.map StatRecord.type = [.responseError]) := by
  subst he
  cases r with
  | response headersTokens body passed statusCode isKeepalive =>
    -- The records are those of a response, if parsing its headers and its cookies raises nothing.
    refine .inl ⟨isKeepalive, rfl, ?_⟩
    simp only [HttpOptions.afterReceive] at h ⊢
    split at h
    · cases h
    · split at h
      · cases h
      · exact ⟨by cases isKeepalive <;> simp, rfl⟩
  | headless body =>
    cases body with
    | none => cases h
    | some body => exact .inr ⟨rfl, rfl, rfl⟩
  | failed err => exact .inr ⟨rfl, rfl, rfl⟩
  | raised e => cases h

/-- The response has been read, and the connection is kept. -/
theorem inFree_receive (hs : s.Inv) (hw : s.waiting id = some (.receive c)) :
    (s.receive id c (.done true)).InFree c := by
  obtain ⟨s₂, hread, -, -, -, -, hbusy⟩ := hs.readDone hw
  simp only [Pool.receive, hread]
  exact (Pool.lookup_update_assign s₂.free _ _ _ _ _).trans ((if_pos ⟨rfl, rfl⟩).trans hbusy)

/-- A connection that is closed is in no table. -/
theorem not_open_closeConn (hc : s.Open c) : ¬ (s.closeConn c false).Open c := by
  intro h
  obtain ⟨free, busy, finalizers, heq, -⟩ := Pool.closeConn_eq hc false
  rw [heq] at h
  change Function.update s.fds (s.conn c).fd none (s.conn c).fd = _ at h
  rw [Function.update_self] at h
  cases h

/-- The call has ended otherwise, and the connection is closed. -/
theorem not_open_receive (hs : s.Inv) (hw : s.waiting id = some (.receive c))
    {out : ReceiveOutcome} (hout : out = .done false ∨ out = .failed) :
    ¬ (s.receive id c out).Open c := by
  rcases hout with rfl | rfl
  · -- The response has been read before the connection is closed.
    obtain ⟨s₂, hread, -, -, ho, -, -⟩ := hs.readDone hw
    simp only [Pool.receive, hread]
    exact not_open_closeConn (s := s₂.markFree c) ho
  · obtain ⟨-, ho, -, -⟩ := hs.waiting hw rfl
    exact not_open_closeConn (s := s.goOn id .out) ho

/-- A connection that is not open is in no table. -/
theorem not_in_tables (hs : s.Inv) (hc : ¬ s.Open c) (key : Nat × String) (fd : Nat) :
    (s.free key).lookup fd ≠ some c ∧ (s.busy key).lookup fd ≠ some c :=
  ⟨fun h => hc (hs.free key fd c h).1.isOpen, fun h => hc (hs.busy key fd c h).isOpen⟩

/-- A call that returns without a connection. -/
theorem accounted_connectError {err : String} {now : ℚ} (hrec : k.records = [])
    (hr : r ∈ (t.connectError s id k err now).returned) : Accounted r s := by
  obtain rfl := Option.some.inj hr
  refine ⟨fun _ => ⟨?_, rfl⟩, fun c hc => ?_, fun c hc => ?_, fun c hc => ?_⟩
  · simp [HttpReturn.types, noted_addAll, hrec]
  all_goals cases hc

/-- A call that returns once `receive` has ended. -/
theorem accounted_received (hs : s.Inv) (hw : s.waiting id = some (.receive c))
    (hk : k.Stands (.receive c)) {cookies : Except LuaError Unit} {got : ReceiveResult} {e : Ending}
    {result : HttpResult} (he : k.opts.afterReceive cookies got = e)
    (hres : e.result = some result) :
    Accounted ⟨t.noted k (addAll t.stat e.records), some c, some got, result⟩
      (s.receive id c e.outcome) := by
  rw [noted_addAll]
  have htypes : (k.records ++ e.records).map StatRecord.type =
      k.opening c ++ .requestSent :: e.records.map StatRecord.type := by
    rw [List.map_append, hk, List.append_assoc]
    rfl
  -- Unless the connection is kept, it is closed.
  have hclosed (hout : e.outcome = .done false ∨ e.outcome = .failed) :
      ¬ (s.receive id c e.outcome).Open c ∧ ∀ key fd,
        ((s.receive id c e.outcome).free key).lookup fd ≠ some c ∧
          ((s.receive id c e.outcome).busy key).lookup fd ≠ some c := by
    have hno := not_open_receive hs hw hout
    exact ⟨hno, not_in_tables (hs.receive hw e.outcome) hno⟩
  rcases afterReceive_cases he hres with ⟨b, hb, hout, hrec⟩ | ⟨hb, hout, hrec⟩
  · -- The response has been received. The connection is kept if both sides allow it.
    refine ⟨fun h => (by cases h), fun c' hc' => ?_, fun c' hc' => ?_, fun c' hc' hnot => ?_⟩
    all_goals obtain rfl := Option.some.inj hc'
    · refine htypes.trans ?_
      rw [hrec]
      exact congrArg (k.opening c ++ SType.requestSent :: ·) (if_pos ⟨b, hb⟩).symm
    · by_cases hkeep : k.opts.keeps && b
      · obtain ⟨hkeeps, rfl⟩ := Bool.and_eq_true_iff.1 hkeep
        rw [hkeep] at hout
        rw [hout]
        exact iff_of_true (inFree_receive hs hw) ⟨⟨_, hb⟩, hkeeps, hb⟩
      · rw [Bool.not_eq_true] at hkeep
        rw [hkeep] at hout
        refine iff_of_false ((hclosed (.inl hout)).2 _ _).1 ?_
        rintro ⟨-, hkeeps, hallows⟩
        have hb' : b = true := Option.some.inj (hb.symm.trans hallows)
        rw [hb', Bool.and_true] at hkeep
        exact Bool.false_ne_true (hkeep.symm.trans hkeeps)
    · cases hkeep : k.opts.keeps && b with
      | true =>
        rw [hout, hkeep] at hnot
        exact absurd (inFree_receive hs hw) hnot
      | false => exact hclosed (.inl (hout.trans (congrArg _ hkeep)))
  · -- `receive` has failed, and the connection is closed.
    refine ⟨fun h => (by cases h), fun c' hc' => ?_, fun c' hc' => ?_, fun c' hc' _ => ?_⟩
    all_goals obtain rfl := Option.some.inj hc'
    · refine htypes.trans ?_
      rw [hrec]
      refine congrArg (k.opening c ++ SType.requestSent :: ·) (if_neg ?_).symm
      rintro ⟨b, h⟩
      exact absurd (hb.symm.trans h) (by simp)
    · refine iff_of_false ((hclosed (.inr hout)).2 _ _).1 ?_
      rintro ⟨-, -, hallows⟩
      exact absurd (hb.symm.trans hallows) (by simp)
    · exact hclosed (.inr hout)

/-! ## Every step -/

/-- The invariant is kept where the process is, with what is returned. -/
theorem Inv.of_act (ht : t.Inv) {b : Pool.Act} (hs : t.pool.act b = some s)
    (hb : t.pool.Timely b) (hpool : t'.pool = s) (hcalls : Underway s t'.call)
    (hret : ∀ r ∈ t'.returned, Accounted r s) : t'.Inv := by
  subst hpool
  exact ⟨ht.pool.act hb hs, hcalls, hret⟩

/-- Where no call of `http` gets anywhere, none gets anywhere with a stale event. -/
theorem timely_of_elsewhere {b : Pool.Act} (hb : Elsewhere b) : s.Timely b := by
  cases b with
  | reclose => exact hb.elim
  | _ => trivial

theorem none_returned (hr : t.returned = none) (s : Pool) :
    ∀ r ∈ t.returned, Accounted r s := by
  rw [hr]
  intro r h
  cases h

/-- A call begins. -/
theorem Inv.getConnection (ht : t.Inv) (hid : t.pool.current = some id) (hr : t.returned = none)
    {opts : HttpOptions} {ip : String} {lookup : Lookup}
    (h : t.getConnection id ⟨opts, ip, t.pool.nextConn, []⟩ lookup = some t') : t'.Inv := by
  cases lookup with
  | free fd =>
    obtain ⟨s, hs, rfl⟩ := Option.map_eq_some_iff.1 h
    obtain ⟨id', c, hid', hc, hmoves⟩ := Pool.reuse_cases hs
    obtain rfl := Option.some.inj (hid.symm.trans hid')
    refine ht.of_act hs trivial rfl (ht.calls.go hmoves ?_) (none_returned hr _)
    -- A connection of the tables has been opened before.
    have hlt := (ht.pool.sock _ c (ht.pool.free _ _ c hc).1.isOpen).1
    exact (if_neg (Nat.not_le.2 hlt)).symm
  | socket fd =>
    obtain ⟨s, hs, rfl⟩ := Option.map_eq_some_iff.1 h
    obtain ⟨id', hid', hmoves⟩ := Pool.connect_cases hs
    obtain rfl := Option.some.inj (hid.symm.trans hid')
    exact ht.of_act hs trivial rfl (ht.calls.go hmoves ⟨Nat.le_refl _, rfl⟩) (none_returned hr _)
  | noPorts now =>
    obtain ⟨-, h⟩ := Option.ite_none_right_eq_some.1 h
    obtain rfl := Option.some.inj h
    have hout := (Pool.current_eq_some.1 hid).2
    refine ⟨ht.pool, ht.calls.leave fun i => ?_, fun r hr => accounted_connectError rfl hr⟩
    split
    · subst i
      exact hout
    · rfl

/-- Every step keeps the invariant. -/
theorem Inv.act (ht : t.Inv) (hT : t.Timely a) (hr : t.returned = none)
    (h : t.act a = some t') : t'.Inv := by
  cases a with
  | reclose => exact hT.elim
  | other b =>
    obtain ⟨hb, h⟩ := Option.ite_none_right_eq_some.1 h
    obtain ⟨s, hs, rfl⟩ := Option.map_eq_some_iff.1 h
    exact ht.of_act hs (timely_of_elsewhere hb) rfl (ht.calls.congr (Pool.http_elsewhere hb hs))
      (none_returned hr _)
  | resolve root host ips =>
    obtain rfl := Option.some.inj h
    exact ⟨ht.pool, ht.calls, (none_returned hr _)⟩
  | stat stat =>
    obtain rfl := Option.some.inj h
    exact ⟨ht.pool, ht.calls, (none_returned hr _)⟩
  | http host opts i lookup =>
    obtain ⟨id, hid, h⟩ := Option.bind_eq_some_iff.1 h
    split at h
    · obtain rfl := Option.some.inj h
      exact ht
    · obtain ⟨ip, -, h⟩ := Option.bind_eq_some_iff.1 h
      exact ht.getConnection hid hr h
  | connected id passed =>
    obtain ⟨k, hk, h⟩ := Option.bind_eq_some_iff.1 h
    obtain ⟨s, hs, rfl⟩ := Option.map_eq_some_iff.1 h
    obtain ⟨c, hhttp, hmoves⟩ := Pool.connected_cases hs
    -- The time of the connection is the first record of the call,
    obtain ⟨hle, hrec⟩ := ht.calls.stands hk hhttp (by simp)
    refine ht.of_act hs trivial rfl (ht.calls.go hmoves ?_) (none_returned hr _)
    simp [HttpCall.Stands, HttpCall.opening, hrec, hle]
  | refused id passed now =>
    obtain ⟨k, hk, h⟩ := Option.bind_eq_some_iff.1 h
    obtain ⟨s, hs, rfl⟩ := Option.map_eq_some_iff.1 h
    obtain ⟨c, hhttp, hmoves⟩ := Pool.refused_cases hs
    obtain ⟨-, hrec⟩ := ht.calls.stands hk hhttp (by simp)
    exact ht.of_act hs trivial rfl (ht.calls.leave hmoves) fun r => accounted_connectError hrec
  | send out =>
    obtain ⟨id, hctl, h⟩ := Option.bind_eq_some_iff.1 h
    obtain ⟨k, hk, h⟩ := Option.bind_eq_some_iff.1 h
    obtain ⟨s, hs, rfl⟩ := Option.map_eq_some_iff.1 h
    obtain ⟨c, hhttp, hmoves⟩ := Pool.send_cases hctl hs
    have hstands := ht.calls.stands hk hhttp (by simp)
    cases out with
    | all =>
      refine ht.of_act hs trivial rfl (ht.calls.go hmoves ?_) (none_returned hr _)
      -- and the record of the request the next one.
      exact List.map_append.trans (congrArg (· ++ [SType.requestSent]) hstands)
    | full =>
      refine ht.of_act hs trivial rfl (ht.calls.go hmoves ?_) (none_returned hr _)
      rw [List.append_nil]
      exact hstands
    | error => exact ht.of_act hs trivial rfl (ht.calls.leave hmoves) (none_returned hr _)
  | sendReady id =>
    obtain ⟨k, hk, h⟩ := Option.bind_eq_some_iff.1 h
    obtain ⟨s, hs, rfl⟩ := Option.map_eq_some_iff.1 h
    obtain ⟨c, hhttp, hmoves⟩ := Pool.sendReady_cases hs
    have hstands := ht.calls.stands hk hhttp (by simp)
    refine ht.of_act hs trivial rfl (ht.calls.go hmoves ?_) (none_returned hr _)
    rw [List.append_nil]
    exact hstands
  | sendTimeout id =>
    obtain ⟨s, hs, rfl⟩ := Option.map_eq_some_iff.1 h
    exact ht.of_act hs trivial rfl (ht.calls.leave (Pool.sendTimeout_cases hs)) (none_returned hr _)
  | received id got cookies =>
    obtain ⟨k, hk, h⟩ := Option.bind_eq_some_iff.1 h
    split at h
    · rename_i c hw
      obtain ⟨s, hs, rfl⟩ := Option.map_eq_some_iff.1 h
      obtain rfl := Pool.received_cases hw hs
      have hmoves := Pool.moves_receive t.pool id c (k.opts.afterReceive cookies got).outcome
      have hstands := ht.calls.stands hk (Pool.waiting_eq_some.1 hw).2.2 (by simp)
      split
      · -- The call returns, or an error is on its way out of it.
        rename_i result hres
        refine ht.of_act hs trivial rfl (ht.calls.leave hmoves) fun r hr => ?_
        obtain rfl := Option.some.inj hr
        exact accounted_received ht.pool hw hstands rfl hres
      · exact ht.of_act hs trivial rfl (ht.calls.leave hmoves) (none_returned hr _)
    · cases h
  | stop id =>
    obtain ⟨s, hs, rfl⟩ := Option.map_eq_some_iff.1 h
    exact ht.of_act hs trivial rfl (ht.calls.leave (Pool.stop_cases hs)) (none_returned hr _)

theorem inv_of_reachable (h : sys.ReachableBy Timely t) : t.Inv := by
  refine h.invariant ?_ fun {t a t'} _ ht hT hs => ?_
  · rintro _ rfl
    exact ⟨Pool.inv_start, fun i hi => absurd rfl hi, none_returned rfl _⟩
  · obtain ⟨-, hs⟩ := Option.ite_none_left_eq_some.1 hs
    have ht' : Inv { t with returned := none } := ⟨ht.pool, ht.calls, none_returned rfl _⟩
    exact ht'.act hT rfl hs

/-- As long as no session goes on with an event queued before its top-level session was
    cleaned, the statistics have gained in a call that returns exactly the records of what has
    become of it, and its connection is free or closed. -/
theorem accounted_of_returned (h : sys.ReachableBy Timely t) (hr : t.returned = some r) :
    Accounted r t.pool :=
  (inv_of_reachable h).returned r hr

/-- Two children of a session, one of which goes on to use the connection the other one has
    opened, which the server then closes. -/
theorem accounted_of_returned_children : ∃ t r, sys.ReachableBy Timely t ∧ t.returned = some r ∧
    r.types = [.requestSent, .responseError] ∧ Accounted r t.pool := by
  obtain ⟨t, hrun, ht⟩ := System.exists_run_of_execBy sys Timely start
    [.other .spawn, .resolve 1 "example.com" ["10.0.0.1"], .other .start, .other .fetch,
      .other (.parallel 2), .other .fetch, .http "example.com" {} 0 (.socket 5), .other .fetch,
      .other .yield, .other .done, .other (.event 2), .other .start, .other .fetch,
      .connected 2 1, .send .full, .other .done, .other (.event 2), .other .start, .other .fetch,
      .sendReady 2, .send .all, .other .done, .other (.event 2), .other (.plan 3), .other .start,
      .other .fetch, .received 2 (.response [] none 1 200 true) (.ok ()), .other .yield,
      .other .fetch, .http "example.com" {} 0 (.free 5), .send .all, .other .done,
      .other (.event 3), .other .start, .other .fetch,
      .received 3 (.failed "conn closed") (.ok ())]
    (fun t => decide (t.returned.map HttpReturn.types = some [.requestSent, .responseError]))
    (by decide +kernel)
  obtain ⟨r, hr, htypes⟩ := Option.map_eq_some_iff.1 (of_decide_eq_true ht)
  have hreach : sys.ReachableBy Timely t := System.ReachableBy.run (.init rfl) hrun
  exact ⟨t, r, hreach, hr, htypes, accounted_of_returned hreach hr⟩

/-- The sessions 1 and 2 and the child 3 of the first one are shut down, and catch the `STOP`:
    the child makes the session 6, and the session 2 the sessions 4 and 5.

    The session 1 ends when the event that the server of the session 6 has closed its
    connection is queued already. The session 6 closes then the file descriptor once more, which
    is that of the session 4 by now, and the session 5 gets it next. Its connection is the one
    that the session 4 marks free after its response. -/
theorem reclosed_not_accounted :
    ¬∀ t r, sys.Reachable t → t.returned = some r → Accounted r t.pool := by
  intro hall
  obtain ⟨t, hrun, ht⟩ := System.exists_run_of_exec sys start
    [.other .spawn, .other .spawn, .resolve 1 "a" ["10.0.0.1"], .resolve 2 "a" ["10.0.0.1"],
      .other .start, .other .fetch, .other (.parallel 1), .other .fetch, .other .yield,
      .other .fetch, .other .yield, .other .done,
      .other (.shutDown [1, 2, 3]), .other .start, .other .fetch, .other .yield, .other .fetch,
      .other (.parallel 2), .other .fetch, .other (.parallel 1), .other .fetch, .other .yield,
      .other .fetch, .other .yield, .other .fetch, .http "a" {} 0 (.socket 5), .other .done,
      .other (.event 6), .other .start, .other .fetch, .connected 6 1, .send .all, .other .done,
      .other (.plan 1), .other (.plan 4), .other (.event 6), .other (.plan 5), .other .start,
      .other .fetch, .other (.finish [0]), .other .fetch, .http "a" {} 0 (.socket 5),
      .other .fetch, .reclose 6 "conn closed", .other .yield, .other .fetch,
      .http "a" {} 0 (.socket 5), .other .done, .other (.event 4), .other (.event 5),
      .other .start, .other .fetch, .connected 4 1, .send .all, .other .fetch, .connected 5 1,
      .send .all, .other .done, .other (.event 4), .other .start, .other .fetch,
      .received 4 (.response [] none 1 200 true) (.ok ())]
    (fun t => decide (∃ r ∈ t.returned, r.conn = some 1 ∧ r.Responded ∧ r.call.opts.keeps ∧
      r.Allows ∧ (t.pool.free (t.pool.conn 1).key).lookup (t.pool.conn 1).fd ≠ some 1))
    (by decide +kernel)
  obtain ⟨r, hr, hc, hresp, hkeeps, hallows, hnot⟩ := of_decide_eq_true ht
  exact hnot (((hall t r (.run (.init rfl) hrun) hr).free 1 hc).2 ⟨hresp, hkeeps, hallows⟩)

end Traffic

end Mistress
