import Mistress.LuaStack

/-!
# Receiving

`cb_recv` reads what has arrived on a socket, at most `CHUNK` bytes at a time, and
has `http_parser` parse it. The callbacks of the parser build, on the stack of
the Lua state, the result `plan_resume` is called with: a table whose fields are
set as the parser comes to them. `Session:receive` takes the results of the
successive reads until one of them says that the response is done.

The parser is a parameter (`Parser`): its state, and what an execution does with
it, which is to call the callbacks in some order (`Event`). A string is reported
as a pointer into the buffer and a length; a pointer is what is left of the
buffer from there on.
-/

namespace Mistress

open LuaStack

/-! ## The parser -/

/-- The strings the parser reports. -/
inductive Kind
  | url
  | status
  | headerField
  | headerValue
  | body
  deriving DecidableEq

/-- A callback. -/
inductive Event
  | messageBegin
  /-- A string, or a part of one: the first `length` bytes at `ptr`. -/
  | data (kind : Kind) (ptr : Bytes) (length : Nat)
  /-- The byte at `ptr` ends the headers; `keepAlive` is what `http_should_keep_alive` says. -/
  | headersComplete (ptr : Bytes) (statusCode : Nat) (keepAlive : Bool)
  | messageComplete
  deriving DecidableEq

/-- What `http_parser_execute` does. -/
structure Execution (σ : Type) where
  events : List Event
  /-- The number of bytes parsed. -/
  nparsed : Nat
  next : σ
  /-- The field `upgrade` of the parser. -/
  upgrade : Bool

/-- An HTTP parser. -/
structure Parser where
  State : Type
  /-- The state `http_parser_init` sets. -/
  init : State
  execute : State → Bytes → Execution State

/-! ## The callbacks -/

/-- The Lua stack and what the callbacks use of the watcher. -/
structure Recv where
  stack : Stack
  headersTableIndex : Nat
  gotResponse : Bool

namespace Recv

/-- `memcmp(at, "gzip\r", 5) == 0`; beyond what was received, the buffer is zero. -/
def isGzip (ptr : Bytes) : Bool := ptr.take 5 == [103, 122, 105, 112, 13]

/-- `hp_message_begin_cb`. -/
def messageBegin (r : Recv) : Option Recv :=
  if r.gotResponse then some r
  else some { r with stack := .table [] :: .str "headers" :: r.stack }

/-- `hp_url_cb`. -/
def url (r : Recv) (s : Bytes) : Option Recv :=
  if r.gotResponse then none
  else do return { r with stack := ← rawset 5 (.bytes s :: .str "url" :: r.stack) }

/-- `hp_header_field_cb`. -/
def headerField (r : Recv) (s : Bytes) : Option Recv :=
  if r.gotResponse then none
  else do
    let stack ← rawseti 2 (r.headersTableIndex + 1) (.bytes s :: r.stack)
    return { r with stack, headersTableIndex := r.headersTableIndex + 1 }

/-- `hp_header_value_cb`. -/
def headerValue (r : Recv) (ptr : Bytes) (length : Nat) : Option Recv :=
  if r.gotResponse then none
  else do
    let stack ← if isGzip ptr then rawset 5 (.bool true :: .str "is_gzipped" :: r.stack)
      else some r.stack
    let stack ← rawseti 2 (r.headersTableIndex + 1) (.bytes (ptr.take length) :: stack)
    return { r with stack, headersTableIndex := r.headersTableIndex + 1 }

/-- `hp_headers_complete_cb`. -/
def headersComplete (r : Recv) (statusCode : Nat) (keepAlive : Bool) : Option Recv :=
  if r.gotResponse then none
  else do
    let stack ← rawset 3 r.stack
    let stack ← rawset 3 (.bool keepAlive :: .str "is_keepalive" :: stack)
    let stack ← rawset 3 (.num statusCode :: .str "status_code" :: stack)
    return { r with stack }

/-- `hp_body_cb`. -/
def body (r : Recv) (s : Bytes) : Option Recv :=
  if r.gotResponse then none
  else do
    let stack ← rawget 2 (.str "body" :: r.stack)
    match stack with
    | .nil :: stack => return { r with stack := ← rawset 3 (.bytes s :: .str "body" :: stack) }
    | stack =>
      let stack ← concat (.bytes s :: stack)
      let stack ← swap (.str "body" :: stack)
      return { r with stack := ← rawset 3 stack }

/-- `hp_message_complete_cb`. -/
def messageComplete (r : Recv) : Option Recv := do
  let stack ← rawset 3 (.bool true :: .str "is_done" :: r.stack)
  return { r with stack, gotResponse := true }

/-- The callback of an event. The status line is ignored, and so is the body
    unless it is to be fetched. -/
def callback (doFetchBody : Bool) (r : Recv) : Event → Option Recv
  | .messageBegin => r.messageBegin
  | .data .url ptr length => r.url (ptr.take length)
  | .data .status _ _ => some r
  | .data .headerField ptr length => r.headerField (ptr.take length)
  | .data .headerValue ptr length => r.headerValue ptr length
  | .data .body ptr length => if doFetchBody then r.body (ptr.take length) else some r
  | .headersComplete _ statusCode keepAlive => r.headersComplete statusCode keepAlive
  | .messageComplete => r.messageComplete

end Recv

/-! ## `cb_recv` -/

/-- What `recv` gives. -/
inductive Read
  /-- It fails with an error. -/
  | error (strerror : String)
  /-- The peer has closed the connection. -/
  | closed
  /-- Bytes, at most `CHUNK` of them; `passed` is the time since the watcher was created. -/
  | got (buffer : Bytes) (passed : Int)

/-- `CHUNK`. -/
def CHUNK : Nat := 16384

/-- The watcher of a `receive`. -/
structure RecvWatcher (P : Parser) where
  coroutineId : Nat
  parser : P.State
  headersTableIndex : Nat

variable {P : Parser}

/-- Calling `plan_resume` with the arguments on the stack: what the session is
    resumed with. Anything else on the stack makes the process exit. -/
def callPlanResume (argNum : Nat) (stack : Stack) : Option (List Value) :=
  match pcall argNum stack with
  | some ("plan_resume", _from :: _id :: args) => some args
  | _ => none

/-- `cb_recv`: the watcher left and what the session is resumed with, unless the
    process exits. -/
def cbRecv (doFetchBody : Bool) (w : RecvWatcher P) (read : Read) :
    Option (RecvWatcher P × List Value) :=
  let stack : Stack := [.num w.coroutineId, .str "cb_recv", .fn "plan_resume"]
  match read with
  | .error strerror => do return (w, ← callPlanResume 4 (.str strerror :: .bool false :: stack))
  | .closed => do
    let stack ← rawset 3 (.bool true :: .str "closed" :: .table [] :: stack)
    return (w, ← callPlanResume 3 stack)
  | .got buffer passed => do
    let stack ← rawset 3 (.num passed :: .str "passed" :: .table [] :: stack)
    let e := P.execute w.parser buffer
    let r ← e.events.foldlM (Recv.callback doFetchBody) ⟨stack, w.headersTableIndex, false⟩
    if e.upgrade then none
    else do
      let stack ← if e.nparsed ≠ buffer.length then do
          let stack ← rawset 3 (.bool true :: .str "parse_failed" :: r.stack)
          rawset 3 (.bytes buffer :: .str "body" :: stack)
        else some r.stack
      return (⟨w.coroutineId, e.next, r.headersTableIndex⟩, ← callPlanResume 3 stack)

end Mistress
