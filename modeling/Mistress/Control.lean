import Mistress.BuildReq
import Mistress.LoadRate
import Mistress.Message

/-!
# The manager and the workers

The manager of a test registers it with the statistics server, sends it to the workers
over their control connections, and waits on each of these for two replies: one at once,
and one at the end of the test, from within `finish_test` of the launcher of the worker.
It stops when the last of the workers has reported.

A control connection carries bytes, which the kernel takes from the sender and hands to
the receiver in parts of any size; both ends receive with `Session:receive`. The functions
of the manager that communicate with the workers run independently, as do the workers, so
that their steps interleave in any order. An error raised in a session of a process makes
the process exit.

Left open (`Env`) are `http_parser` as it parses requests, and what a test script and a URL
evaluate to. A launcher that runs is one of `Mistress.Launcher`.
-/

open LuaStack

namespace Mistress

open Transition

/-! ## `mistress.send` -/

/-- An answer of `send(2)`. -/
inductive Answer
  /-- That many bytes are taken. -/
  | taken (n : ℕ)
  /-- `EAGAIN` -/
  | again
  /-- `EPIPE` -/
  | pipe
  | error
  deriving DecidableEq

/-- How `mistress.send` ends. -/
inductive Sending
  /-- It returns `false`: all is sent. -/
  | done
  /-- It returns `0`: the socket is full, and a watcher waits for it. -/
  | full
  /-- It returns `EPIPE`. -/
  | broken
  /-- The process exits. -/
  | exited
  deriving DecidableEq

/-- The loop of `lua_mistress_send`, of which `totalSent` bytes are sent already: how it
    ends, and how many bytes are sent then. The kernel is asked as long as there are bytes
    left, and takes no more than that. -/
def sendLoop (coroutineId len : ℕ) : (totalSent : ℕ) → List Answer → Option (Sending × ℕ)
  | totalSent, [] => if totalSent < len then none else some (.done, totalSent)
  | totalSent, .taken n :: answers =>
    if totalSent < len ∧ n ≤ len - totalSent then sendLoop coroutineId len (totalSent + n) answers
    else none
  | totalSent, answer :: answers =>
    if totalSent < len ∧ answers = [] then
      match answer with
      | .pipe => some (.broken, totalSent)
      -- It is asserted that there is a coroutine to be resumed.
      | .again => some (if 0 < coroutineId then .full else .exited, totalSent)
      | _ => some (.exited, totalSent)
    else none

/-- `assert(not mistress.send(fd, data))`: whether the process goes on, and the bytes that
    are sent. -/
def assertSend (data : Bytes) (answers : List Answer) : Option (Bool × Bytes) :=
  (sendLoop 0 data.length 0 answers).map fun r => (r.1 = .done, data.take r.2)

/-! ## The requests and the replies -/

open HttpParser (bytes)

/-- The end of a line. -/
def crlf : Bytes := [13, 10]

/-- `build_response`, up to the body. -/
def responseHead (status : String) (keepalive : Bool) (body : Option Bytes) : Bytes :=
  crlf.intercalate [
    bytes "HTTP/1.1 " ++ bytes status,
    bytes (if keepalive then "Connection: Keep-Alive" else "Connection: close"),
    bytes "Content-Length: " ++ bytes (toString (body.getD []).length),
    bytes "Server: Mistress/0.1"] ++ crlf ++ crlf

/-- `build_response` -/
def buildResponse (status : String) (keepalive : Bool) (body : Option Bytes) : Bytes :=
  responseHead status keepalive body ++ body.getD []

/-- `build_req`, up to the body. -/
def requestHead (method : String) (path host body : Bytes) : Bytes :=
  crlf.intercalate ([
    bytes method ++ bytes " " ++ path ++ bytes " HTTP/1.1",
    bytes "Connection: Keep-Alive",
    bytes "Accept-Encoding: gzip, deflate",
    bytes "User-Agent: Mistress/0.1",
    bytes "Accept-Language: en-us,en;q=0.5",
    bytes "Accept: */*",
    bytes "Host: " ++ host] ++
    if body = [] then [] else [bytes "Content-Length: " ++ bytes (toString body.length)]) ++
    crlf ++ crlf

/-- `build_req` -/
def buildReq (method : String) (path host body : Bytes) : Bytes :=
  requestHead method path host body ++ body

/-- It is what `build_req` writes with these options, as bytes. -/
theorem map_buildReq {b64 : LuaString → LuaString} {upload : Option Upload} {method : String}
    {path host body : LuaString} :
    (ReqOptions.buildReq b64 upload
      { method := some method.toList, host := some host, body := some body } path).map
        (List.map HttpParser.byte) =
      .ok (buildReq method (path.map HttpParser.byte) (host.map HttpParser.byte)
        (body.map HttpParser.byte)) := by
  have hbuild : ReqOptions.buildReq b64 upload
      { method := some method.toList, host := some host, body := some body } path =
      .ok (Lines.crlf.intercalate (ReqOptions.lines b64
        { method := some method.toList, host := some host, body := some body } method.toList path
        body host none) ++ "\r\n\r\n".toList ++ body) := rfl
  have hbreaks : "\r\n\r\n".toList.map HttpParser.byte = crlf ++ crlf := by decide +kernel
  have hcrlf : Lines.crlf.map HttpParser.byte = crlf := by decide +kernel
  have hdigits : ∀ n : ℕ, bytes (toString n) = (Nat.toDigits 10 n).map HttpParser.byte :=
    fun n => by rw [bytes, Nat.toString_eq_ofList_toDigits, String.toList_ofList]
  have hlines : (ReqOptions.lines b64
      { method := some method.toList, host := some host, body := some body } method.toList path
      body host none).map (List.map HttpParser.byte) =
      [bytes method ++ bytes " " ++ path.map HttpParser.byte ++ bytes " HTTP/1.1",
        bytes "Connection: Keep-Alive",
        bytes "Accept-Encoding: gzip, deflate",
        bytes "User-Agent: Mistress/0.1",
        bytes "Accept-Language: en-us,en;q=0.5",
        bytes "Accept: */*",
        bytes "Host: " ++ host.map HttpParser.byte] ++
      (if body.map HttpParser.byte = [] then []
        else [bytes "Content-Length: " ++ bytes (toString (body.map HttpParser.byte).length)]) := by
    simp only [List.map_eq_nil_iff, List.length_map, hdigits]
    by_cases hbody : body = []
    · subst hbody
      simp [ReqOptions.lines, ReqOptions.header, bytes]
    · simp [ReqOptions.lines, ReqOptions.header, bytes, hbody, List.length_pos_iff]
  rw [hbuild, buildReq, requestHead, ← hlines]
  simp only [Except.map, List.map_append, Lines.map_intercalate, hbreaks, hcrlf, List.append_assoc]

/-- The first reply of a worker. -/
def okReply : Message := ⟨responseHead "200 OK" true none, [], none, 200, true⟩

/-- The last reply of a worker. -/
def finishedReply : Message :=
  ⟨responseHead "200 OK" false (some (bytes "finished")), bytes "finished", none, 200, false⟩

/-! ## The test -/

/-- `opts` of a test, as the script gives it. -/
structure TestOptions where
  phases : PhaseList
  totalDurationLimit : ℚ
  noStatServer : Bool

/-- `HTTPHandler:run`, on the options of the test: the phases are divided by the number
    of the workers. That there is one is asserted by the launcher. -/
def TestOptions.divide (opts : TestOptions) (workerNum : ℕ) : Option Config :=
  (dividePhases workerNum opts.phases).bind fun t =>
    if h : t.phases ≠ [] then
      some ⟨t.phases, opts.totalDurationLimit, opts.noStatServer, h⟩
    else none

/-- What a test is, from the point of view of the manager. -/
structure Test where
  /-- The text of the script. -/
  script : Bytes
  /-- What the script evaluates to. -/
  opts : TestOptions
  /-- The addresses of the workers. -/
  hosts : List Bytes
  statServerHost : Bytes
  delayedStartTime : Bytes
  /-- `none` for the default, `false`. -/
  projectId : Option Bytes
  writeConnectErrorLog : Bool
  /-- What the statistics server replies to the registration. -/
  registered : Session.Received

/-- What is left open. -/
structure Env where
  /-- `http_parser`, set up for requests. -/
  requestParser : Parser
  gunzip : Bytes → Except LuaError Bytes
  /-- `socket_url`: the parts of the path of a URL. -/
  pathParts : Bytes → List Bytes
  tonumber : Bytes → Option ℚ
  /-- `loadstring`: the options of a test, and the number of its workers. -/
  load : Bytes → Option (TestOptions × ℕ)

/-- The request `register_test` sends. A boolean cannot be concatenated. -/
def Test.registration (test : Test) : Option Bytes :=
  test.projectId.map fun projectId =>
    buildReq "POST" (bytes "/new_test?worker_num=" ++ bytes (toString test.hosts.length) ++
      bytes "&delayed_start_time=" ++ test.delayedStartTime ++ bytes "&project_id=" ++ projectId ++
      if test.writeConnectErrorLog then bytes "&write_connect_error_log=1" else [])
      test.statServerHost test.script

/-- The body of the reply of the statistics server, if the reply is as asserted. -/
def Test.testId (test : Test) : Option Bytes :=
  match test.registered with
  | .response headers (some body) _ (.num 200) _ _ => if headers.truthy then some body else none
  | _ => none

/-- The URL of the request that starts a test. -/
def Test.startUrl (test : Test) (testId : Bytes) : Bytes :=
  bytes "/start/" ++ testId ++ bytes "/" ++ test.delayedStartTime

/-- The request that starts a test. -/
def Test.request (test : Test) (testId host : Bytes) : Message where
  head := requestHead "GET" (test.startUrl testId) host test.script
  body := test.script
  url := some (test.startUrl testId)
  statusCode := 0
  keepAlive := true

/-! ## The state -/

/-- Where a function of the manager stands that communicates with a worker. -/
inductive Comm
  | connecting
  /-- In `receive`, for the second time if `again`. -/
  | receiving (again : Bool) (w : RecvWatcher httpParser) (v : Session.Receiving)
  | ended

/-- Where the handler of a worker stands. -/
inductive Handler (Q : Parser)
  | receiving (w : RecvWatcher Q) (v : Session.Receiving)
  /-- In the sleep before the start of the test. -/
  | sleeping (cfg : Config) (testId : Option ℚ)

/-- A worker, its control connection, and the function of the manager that communicates
    with it. -/
structure Peer (Q : Parser) where
  host : Bytes
  comm : Comm
  /-- The bytes on their way to the worker. -/
  toWorker : Bytes
  /-- The bytes on their way to the manager. -/
  toManager : Bytes
  handler : Handler Q
  /-- The launcher of the worker, with its options, -/
  launcher : Option (Config × Launcher)
  /-- and the id it has got of the test, unless that is `nil`. -/
  testId : Option ℚ
  /-- Whether the worker has closed the connection. -/
  closed : Bool
  /-- Whether the process of the worker has exited. -/
  exited : Bool
  /-- History: the bytes the worker has read. -/
  workerRead : ℕ
  /-- History: the bytes the manager has read. -/
  managerRead : ℕ
  /-- History: the replies of `finish_test`. -/
  finishes : ℕ
  /-- History: the status codes and the bodies received by the manager. -/
  replies : List (ℤ × Bytes)

/-- The manager and the workers. -/
structure Control (Q : Parser) where
  /-- Whether `register_test` has returned. -/
  registered : Bool
  /-- `_test_id` -/
  testId : Option Bytes
  /-- `workers_left` -/
  workersLeft : ℤ
  /-- History: the number of calls of `stop_ev_loop` by the manager. -/
  stops : ℕ
  /-- Whether the process of the manager has exited on an error. -/
  exited : Bool
  peers : List (Peer Q)

/-- A worker that is started, before the manager is connected to it. -/
def Peer.start (Q : Parser) (host : Bytes) : Peer Q where
  host := host
  comm := .connecting
  toWorker := []
  toManager := []
  handler := .receiving (.new Q 0) .init
  launcher := none
  testId := none
  closed := false
  exited := false
  workerRead := 0
  managerRead := 0
  finishes := 0
  replies := []

namespace Control

/-- The manager, with the workers started. -/
def start (Q : Parser) (test : Test) : Control Q where
  registered := false
  testId := none
  workersLeft := test.hosts.length
  stops := 0
  exited := false
  peers := test.hosts.map (Peer.start Q)

/-! ## The steps -/

/-- What happens. The index of a worker is that of its function, too. -/
inductive Act
  /-- `register_test` -/
  | register (answers : List Answer)
  /-- The worker accepts the connection. -/
  | connect (i : ℕ) (answers : List Answer)
  /-- The connection is not established. -/
  | refuse (i : ℕ)
  /-- The manager reads from the connection. -/
  | read (i : ℕ) (read : Read)
  /-- The manager has waited too long for a reply. -/
  | timeout (i : ℕ)
  /-- The handler reads from the connection; if it has got the request, it answers. -/
  | request (i : ℕ) (read : Read) (answers : List Answer)
  /-- The sleep of the handler is over, and the launcher starts. -/
  | launch (i : ℕ) (now : ℚ)
  /-- The launcher acts, or its environment. -/
  | launcher (i : ℕ) (a : Launcher.Act)
  /-- `HTTPHandler:finish_test`, called by the launcher. -/
  | finish (i : ℕ) (answers : List Answer)

variable {Q : Parser} (env : Env) (test : Test)

/-- The manager runs: it has not exited, and its event loop has not been stopped. -/
def Running (s : Control Q) : Prop := s.exited = false ∧ s.stops = 0

instance (s : Control Q) : Decidable s.Running := inferInstanceAs (Decidable (_ ∧ _))

/-- The process of the manager exits. -/
def exit (s : Control Q) : Control Q := { s with exited := true }

def setPeer (s : Control Q) (i : ℕ) (p : Peer Q) : Control Q := { s with peers := s.peers.set i p }

/-- What can be read of the bytes that have arrived: at most `CHUNK` of them, the end of the
    stream once there are none left and the peer is gone, or an error. -/
def Arrives (arrived : Bytes) (closed exited : Bool) : Read → Prop
  | .got b _ => b ≠ [] ∧ b.length ≤ CHUNK ∧ b <+: arrived
  | .closed => arrived = [] ∧ (closed = true ∨ exited = true)
  | .error _ => exited = true

instance (arrived : Bytes) (closed exited : Bool) (r : Read) :
    Decidable (Arrives arrived closed exited r) :=
  match r with
  | .got _ _ => inferInstanceAs (Decidable (_ ∧ _ ∧ _))
  | .closed => inferInstanceAs (Decidable (_ ∧ _))
  | .error _ => inferInstanceAs (Decidable (_ = _))

/-- The number of bytes of a read. -/
def count : Read → ℕ
  | .got b _ => b.length
  | _ => 0

/-- `WorkersManager:register_test` -/
def register (s : Control Q) (answers : List Answer) : Option (Control Q) :=
  if s.Running ∧ s.registered = false then
    if test.opts.noStatServer then
      if answers = [] then some { s with registered := true } else none
    else
      match test.registration with
      | none => some s.exit
      | some req =>
        (assertSend req answers).map fun r =>
          match r.1, test.testId with
          | true, some testId => { s with registered := true, testId := some testId }
          | _, _ => s.exit
  else none

/-- A function of the manager, once it is connected: it sends the request, and waits for
    the reply. -/
def connect (s : Control Q) (i : ℕ) (answers : List Answer) : Option (Control Q) :=
  match s.peers[i]? with
  | some p =>
    match p.comm with
    | .connecting =>
      if s.Running ∧ s.registered = true then
        match s.testId with
        -- `nil` cannot be concatenated.
        | none => if answers = [] then some s.exit else none
        | some testId =>
          (assertSend (test.request testId p.host).text answers).map fun r =>
            let s := s.setPeer i { p with
              toWorker := p.toWorker ++ r.2
              comm := .receiving false (.new httpParser i) .init }
            if r.1 then s else s.exit
      else none
    | _ => none
  | none => none

/-- A function of the manager that cannot connect, or has waited too long. -/
def raise (s : Control Q) (i : ℕ) (raises : Comm → Bool) : Option (Control Q) :=
  match s.peers[i]? with
  | some p => if s.Running ∧ s.registered = true ∧ raises p.comm then some s.exit else none
  | none => none

/-- `on_worker_finished` -/
def onWorkerFinished (s : Control Q) : Control Q :=
  let s := { s with workersLeft := s.workersLeft - 1 }
  if s.workersLeft = 0 then { s with stops := s.stops + 1 } else s

/-- A function of the manager, after `receive` has returned. -/
def received (s : Control Q) (i : ℕ) (p : Peer Q) (again : Bool) : Session.Received → Control Q
  | .response headers (some body) _ (.num statusCode) _ _ =>
    let p := { p with replies := p.replies ++ [(statusCode, body)] }
    if headers.truthy ∧ statusCode = 200 then
      if again then
        if body = bytes "finished" then (s.setPeer i { p with comm := .ended }).onWorkerFinished
        else (s.setPeer i p).exit
      else s.setPeer i { p with comm := .receiving true (.new httpParser i) .init }
    else (s.setPeer i p).exit
  | _ => s.exit

/-- A function of the manager reads. -/
def read (s : Control Q) (i : ℕ) (r : Read) : Option (Control Q) :=
  match s.peers[i]? with
  | some p =>
    match p.comm with
    | .receiving again w v =>
      if s.Running ∧ Arrives p.toManager p.closed p.exited r then
        let p := { p with
          toManager := p.toManager.drop (count r)
          managerRead := p.managerRead + count r }
        some <| match cbRecv true w r with
        | none => (s.setPeer i p).exit
        | some (w, args) =>
          match Session.receiveStep true env.gunzip v args with
          | .inl v => s.setPeer i { p with comm := .receiving again w v }
          | .inr r => s.received i p again r
      else none
    | _ => none
  | none => none

end Control

/-! ### The worker -/

namespace Peer

variable {Q : Parser} (env : Env)

/-- The handler of the worker, once it has got a request. -/
def serve (p : Peer Q) (url body : Bytes) (answers : List Answer) : Option (Peer Q) :=
  let parts := env.pathParts url
  if parts[0]? = some (bytes "start") then
    let testId := parts[1]?.bind env.tonumber
    match parts[2]?.bind env.tonumber with
    -- A start time that is `nil` cannot be concatenated.
    | none => if answers = [] then some { p with exited := true } else none
    | some _ =>
      (assertSend okReply.text answers).map fun r =>
        let p := { p with toManager := p.toManager ++ r.2 }
        if r.1 then
          match (env.load body).bind fun (opts, workerNum) => opts.divide workerNum with
          | some cfg => { p with handler := .sleeping cfg testId }
          | none => { p with exited := true }
        else { p with exited := true }
  else
    (assertSend (buildResponse "404 Not Found" false none) answers).map fun r =>
      { p with
        toManager := p.toManager ++ r.2
        handler := .receiving (.new Q 0) .init
        exited := !r.1 }

/-- The handler of the worker reads; `gone` says whether the manager is. -/
def request (p : Peer Q) (gone : Bool) (r : Read) (answers : List Answer) : Option (Peer Q) :=
  match p.handler with
  | .receiving w v =>
    if p.exited = false ∧ p.closed = false ∧ Control.Arrives p.toWorker false gone r then
      let p := { p with
        toWorker := p.toWorker.drop (Control.count r)
        workerRead := p.workerRead + Control.count r }
      let quiet (p : Peer Q) : Option (Peer Q) := if answers = [] then some p else none
      match cbRecv true w r with
      | none => quiet { p with exited := true }
      | some (w, args) =>
        match Session.receiveStep true env.gunzip v args with
        | .inl v => quiet { p with handler := .receiving w v }
        | .inr (.response headers (some body) _ _ _ (.bytes url)) =>
          if headers.truthy then p.serve env url body answers
          else quiet { p with exited := true }
        | .inr _ => quiet { p with exited := true }
    else none
  | _ => none

/-- The handler of the worker starts the launcher, and receives again. -/
def launch (p : Peer Q) (now : ℚ) : Option (Peer Q) :=
  match p.handler with
  | .sleeping cfg testId =>
    if p.exited = false then
      some { p with
        launcher := some (cfg, Launcher.start now)
        testId
        handler := .receiving (.new Q 0) .init }
    else none
  | _ => none

/-- Whether the request of `send_stats` cannot be built: a test id that is `nil` cannot be
    concatenated. -/
def Unsendable (p : Peer Q) (l : Launcher) : Prop :=
  p.testId = none ∧ (l.pc = .sending .tick ∨ l.pc = .sending .finish)

instance (p : Peer Q) (l : Launcher) : Decidable (p.Unsendable l) :=
  inferInstanceAs (Decidable (_ ∧ (_ ∨ _)))

/-- The launcher of the worker acts, except where the handler finishes the test for it. -/
def launcherAct (p : Peer Q) (a : Launcher.Act) : Option (Peer Q) :=
  match p.launcher with
  | some (cfg, l) =>
    if p.exited = false ∧ l.pc ≠ .handler then
      (Launcher.step cfg l a).map fun l =>
        { p with launcher := some (cfg, l), exited := l.pc = .exited ∨ p.Unsendable l }
    else none
  | none => none

/-- `HTTPHandler:finish_test` -/
def finish (p : Peer Q) (answers : List Answer) : Option (Peer Q) :=
  match p.launcher with
  | some (cfg, l) =>
    if p.exited = false ∧ l.pc = .handler then do
      let r ← assertSend finishedReply.text answers
      let l ← Launcher.step cfg l (.send (if r.1 then .all else .failed))
      return { p with
        toManager := p.toManager ++ r.2
        launcher := some (cfg, l)
        closed := r.1
        exited := !r.1
        finishes := p.finishes + if r.1 then 1 else 0 }
    else none
  | none => none

end Peer

namespace Control

variable {Q : Parser} (env : Env) (test : Test)

/-- A step of a worker. -/
def atWorker (s : Control Q) (i : ℕ) (f : Peer Q → Option (Peer Q)) : Option (Control Q) :=
  (s.peers[i]?.bind f).map (s.setPeer i)

/-- The step of an action, where it is possible. -/
def step (s : Control Q) : Act → Option (Control Q)
  | .register answers => s.register test answers
  | .connect i answers => s.connect test i answers
  | .refuse i => s.raise i fun comm => match comm with
    | .connecting => true
    | _ => false
  | .read i r => s.read env i r
  -- The second `receive` has no timeout.
  | .timeout i => s.raise i fun comm => match comm with
    | .receiving again _ _ => !again
    | _ => false
  | .request i r answers => s.atWorker i (·.request env (!decide s.Running) r answers)
  | .launch i now => s.atWorker i (·.launch now)
  | .launcher i a => s.atWorker i (·.launcherAct a)
  | .finish i answers => s.atWorker i (·.finish answers)

/-- The manager and the workers, from the registration of the test. -/
def sys : System (Control env.requestParser) Act where
  init s := s = start env.requestParser test
  step := step env test

end Control

end Mistress
