import Mistress.HttpParser

/-!
# The parser for requests

`http_parser_execute` of a parser for requests, in strict mode. The request line has
states of its own (`LineState`). Past it the bytes are those of a response, but for the end
of a message: that of a request is never the end of the stream, and the next one begins
with a method.
-/

open LuaStack

namespace Mistress

namespace HttpParser

/-! ## Methods -/

/-- `enum http_method`. -/
inductive Method
  | delete
  | get
  | head
  | post
  | put
  | connect
  | options
  | trace
  | copy
  | lock
  | mkcol
  | move
  | propfind
  | proppatch
  | search
  | unlock
  | report
  | mkactivity
  | checkout
  | merge
  | msearch
  | notify
  | subscribe
  | unsubscribe
  | patch
  | purge
  deriving DecidableEq

/-- `method_strings`. -/
def Method.text : Method → Bytes
  | .delete => bytes "DELETE"
  | .get => bytes "GET"
  | .head => bytes "HEAD"
  | .post => bytes "POST"
  | .put => bytes "PUT"
  | .connect => bytes "CONNECT"
  | .options => bytes "OPTIONS"
  | .trace => bytes "TRACE"
  | .copy => bytes "COPY"
  | .lock => bytes "LOCK"
  | .mkcol => bytes "MKCOL"
  | .move => bytes "MOVE"
  | .propfind => bytes "PROPFIND"
  | .proppatch => bytes "PROPPATCH"
  | .search => bytes "SEARCH"
  | .unlock => bytes "UNLOCK"
  | .report => bytes "REPORT"
  | .mkactivity => bytes "MKACTIVITY"
  | .checkout => bytes "CHECKOUT"
  | .merge => bytes "MERGE"
  | .msearch => bytes "M-SEARCH"
  | .notify => bytes "NOTIFY"
  | .subscribe => bytes "SUBSCRIBE"
  | .unsubscribe => bytes "UNSUBSCRIBE"
  | .patch => bytes "PATCH"
  | .purge => bytes "PURGE"

/-- The first method with that first byte. -/
def Method.first (ch : UInt8) : Option Method :=
  if ch = byte 'C' then some .connect
  else if ch = byte 'D' then some .delete
  else if ch = byte 'G' then some .get
  else if ch = byte 'H' then some .head
  else if ch = byte 'L' then some .lock
  else if ch = byte 'M' then some .mkcol
  else if ch = byte 'N' then some .notify
  else if ch = byte 'O' then some .options
  else if ch = byte 'P' then some .post
  else if ch = byte 'R' then some .report
  else if ch = byte 'S' then some .subscribe
  else if ch = byte 'T' then some .trace
  else if ch = byte 'U' then some .unlock
  else none

/-- The method it turns out to be at a byte that is not the next one of `method`. -/
def Method.other (method : Method) (index : Nat) (ch : UInt8) : Option Method :=
  if method = .connect then
    if index = 1 ∧ ch = byte 'H' then some .checkout
    else if index = 2 ∧ ch = byte 'P' then some .copy
    else none
  else if method = .mkcol then
    if index = 1 ∧ ch = byte 'O' then some .move
    else if index = 1 ∧ ch = byte 'E' then some .merge
    else if index = 1 ∧ ch = byte '-' then some .msearch
    else if index = 2 ∧ ch = byte 'A' then some .mkactivity
    else none
  else if method = .subscribe then
    if index = 1 ∧ ch = byte 'E' then some .search else none
  else if index = 1 ∧ method = .post then
    if ch = byte 'R' then some .propfind
    else if ch = byte 'U' then some .put
    else if ch = byte 'A' then some .patch
    else none
  else if index = 2 then
    if method = .put then
      if ch = byte 'R' then some .purge else none
    else if method = .unlock then
      if ch = byte 'S' then some .unsubscribe else none
    else none
  else if index = 4 ∧ method = .propfind ∧ ch = byte 'P' then some .proppatch
  else none

/-! ## URLs -/

/-- `IS_ALPHA`. -/
def isAlpha (ch : UInt8) : Bool := byte 'a' ≤ lower ch && lower ch ≤ byte 'z'

/-- `IS_URL_CHAR`, the table being `normal_url_char`. -/
def isUrlChar (ch : UInt8) : Bool :=
  byte '!' ≤ ch && ch ≤ byte '~' && ch ≠ byte '#' && ch ≠ byte '?'

/-- `IS_USERINFO_CHAR`. -/
def isUserinfoChar (ch : UInt8) : Bool :=
  isAlpha ch || isNum ch || ch ∈ bytes "-_.!~*'()" || ch ∈ bytes "%;:&=+$,"

/-- `enum state`, the states of a URL. -/
inductive UrlState
  | reqSpacesBeforeUrl
  | reqSchema
  | reqSchemaSlash
  | reqSchemaSlashSlash
  | reqServerStart
  | reqServer
  | reqServerWithAt
  | reqPath
  | reqQueryStringStart
  | reqQueryString
  | reqFragmentStart
  | reqFragment
  deriving DecidableEq

/-- `parse_url_char`, `none` being `s_dead`. -/
def parseUrlChar (s : UrlState) (ch : UInt8) : Option UrlState :=
  let server :=
    if ch = byte '/' then some .reqPath
    else if ch = byte '?' then some .reqQueryStringStart
    else if ch = byte '@' then some .reqServerWithAt
    else if isUserinfoChar ch ∨ ch = byte '[' ∨ ch = byte ']' then some .reqServer
    else none
  if ch = SP ∨ ch = CR ∨ ch = LF then none
  else if ch = HT ∨ ch = 12 then none
  else
    match s with
    | .reqSpacesBeforeUrl =>
      if ch = byte '/' ∨ ch = byte '*' then some .reqPath
      else if isAlpha ch then some .reqSchema
      else none
    | .reqSchema =>
      if isAlpha ch then some .reqSchema
      else if ch = byte ':' then some .reqSchemaSlash
      else none
    | .reqSchemaSlash => if ch = byte '/' then some .reqSchemaSlashSlash else none
    | .reqSchemaSlashSlash => if ch = byte '/' then some .reqServerStart else none
    | .reqServerWithAt => if ch = byte '@' then none else server
    | .reqServerStart | .reqServer => server
    | .reqPath =>
      if isUrlChar ch then some .reqPath
      else if ch = byte '?' then some .reqQueryStringStart
      else if ch = byte '#' then some .reqFragmentStart
      else none
    | .reqQueryStringStart | .reqQueryString =>
      if isUrlChar ch then some .reqQueryString
      else if ch = byte '?' then some .reqQueryString
      else if ch = byte '#' then some .reqFragmentStart
      else none
    | .reqFragmentStart =>
      if isUrlChar ch then some .reqFragment
      else if ch = byte '?' then some .reqFragment
      else if ch = byte '#' then some .reqFragmentStart
      else none
    | .reqFragment =>
      if isUrlChar ch then some .reqFragment
      else if ch = byte '?' ∨ ch = byte '#' then some .reqFragment
      else none

/-! ## The parser -/

/-- `enum state`, the states of the request line. -/
inductive LineState
  | startReq
  | reqMethod
  | url (s : UrlState)
  | reqHttpStart
  | reqHttpH
  | reqHttpHT
  | reqHttpHTT
  | reqHttpHTTP
  | reqFirstHttpMajor
  | reqHttpMajor
  | reqFirstHttpMinor
  | reqHttpMinor
  | reqLineAlmostDone
  deriving DecidableEq

end HttpParser

open HttpParser in
/-- A parser for requests. -/
structure RequestParser where
  /-- The state, if it is in the request line; else it is that of the parser. -/
  line : Option LineState
  method : Method
  parser : HttpParser
  deriving DecidableEq

namespace HttpParser

/-- `http_should_keep_alive` of a request, which needs no end of the stream. -/
def requestShouldKeepAlive (parser : HttpParser) : Bool :=
  if 0 < parser.httpMajor ∧ 0 < parser.httpMinor then !parser.flags.connectionClose
  else parser.flags.connectionKeepAlive

/-- The variables of an execution of a parser for requests. -/
structure RequestExec where
  line : Option LineState
  method : Method
  exec : Exec

namespace RequestExec

/-- `parser->state = state`, in the request line. -/
def goto (r : RequestExec) (state : LineState) : RequestExec := { r with line := some state }

/-- `SET_ERRNO`. -/
def fail (r : RequestExec) : RequestExec × Next := ({ r with exec := r.exec.fail.1 }, .error)

/-- The request line ends. -/
def headers (r : RequestExec) : RequestExec :=
  { r with line := none, exec := r.exec.goto .headerFieldStart }

/-- What is done as for a response. -/
def lift (r : RequestExec) (f : Exec → Exec × Next) : RequestExec × Next :=
  let (exec, next) := f r.exec
  ({ r with exec }, next)

/-- The message is complete. -/
def complete (r : RequestExec) : RequestExec :=
  if r.exec.parser.requestShouldKeepAlive then
    { r with line := some .startReq, exec := r.exec.notify .messageComplete }
  else { r with line := none, exec := (r.exec.goto .dead).notify .messageComplete }

/-! ### The request line -/

/-- `s_start_req`. -/
def startReq (r : RequestExec) (ch : UInt8) : RequestExec × Next :=
  if ch = CR ∨ ch = LF then (r, .advance 0)
  else
    let r := { r with exec := { r.exec with parser := { r.exec.parser with
      flags := .zero, contentLength := ULLONG_MAX } } }
    if !isAlpha ch then r.fail
    else
      let r := { r with
        method := .delete
        exec := { r.exec with parser := { r.exec.parser with index := 1 } } }
      match Method.first ch with
      | none => r.fail
      | some method =>
        ({ r.goto .reqMethod with method, exec := r.exec.notify .messageBegin }, .advance 0)

/-- `s_req_method`. -/
def reqMethod (r : RequestExec) (ch : UInt8) : RequestExec × Next :=
  let index := r.exec.parser.index
  let next := { r with exec := { r.exec with parser := { r.exec.parser with index := index + 1 } } }
  let c := r.method.text.getD index 0
  if ch = 0 then r.fail
  else if ch = SP ∧ c = 0 then (next.goto (.url .reqSpacesBeforeUrl), .advance 0)
  else if ch = c then (next, .advance 0)
  else
    match r.method.other index ch with
    | none => r.fail
    | some method => ({ next with method }, .advance 0)

/-- A byte of the URL. -/
def urlChar (r : RequestExec) (s : UrlState) (ch : UInt8) : RequestExec × Next :=
  match parseUrlChar s ch with
  | none => r.fail
  | some s => (r.goto (.url s), .advance 0)

/-- `s_req_spaces_before_url` and the states of the URL. -/
def url (r : RequestExec) (s : UrlState) (ch : UInt8) (rest : Bytes) : RequestExec × Next :=
  match s with
  | .reqSpacesBeforeUrl =>
    if ch = SP then (r, .advance 0)
    else
      let r := { r with exec := r.exec.mark .url (ch :: rest) }
      r.urlChar (if r.method = .connect then .reqServerStart else s) ch
  | .reqSchema | .reqSchemaSlash | .reqSchemaSlashSlash | .reqServerStart =>
    if ch = SP ∨ ch = CR ∨ ch = LF then r.fail else r.urlChar s ch
  | _ =>
    if ch = SP then
      ({ r.goto .reqHttpStart with exec := r.exec.callbackData .url (ch :: rest) }, .advance 0)
    else if ch = CR ∨ ch = LF then
      let r := { r with exec := { r.exec with parser := { r.exec.parser with
        httpMajor := 0, httpMinor := 9 } } }
      let r := if ch = CR then r.goto .reqLineAlmostDone else r.headers
      ({ r with exec := r.exec.callbackData .url (ch :: rest) }, .advance 0)
    else r.urlChar s ch

/-- `s_req_http_start`. -/
def reqHttpStart (r : RequestExec) (ch : UInt8) : RequestExec × Next :=
  if ch = byte 'H' then (r.goto .reqHttpH, .advance 0)
  else if ch = SP then (r, .advance 0)
  else r.fail

/-- `STRICT_CHECK` of a byte of a constant. -/
def expect (r : RequestExec) (c : UInt8) (state : LineState) (ch : UInt8) : RequestExec × Next :=
  if ch ≠ c then r.fail else (r.goto state, .advance 0)

/-- `s_req_first_http_major`. -/
def reqFirstHttpMajor (r : RequestExec) (ch : UInt8) : RequestExec × Next :=
  if ch < byte '1' ∨ byte '9' < ch then r.fail
  else
    let exec := { r.exec with parser := { r.exec.parser with httpMajor := ch.toNat - 48 } }
    ({ r.goto .reqHttpMajor with exec }, .advance 0)

/-- `s_req_http_major`. -/
def reqHttpMajor (r : RequestExec) (ch : UInt8) : RequestExec × Next :=
  if ch = byte '.' then (r.goto .reqFirstHttpMinor, .advance 0)
  else if !isNum ch then r.fail
  else
    let httpMajor := r.exec.parser.httpMajor * 10 + (ch.toNat - 48)
    let r := { r with exec := { r.exec with parser := { r.exec.parser with httpMajor } } }
    if 999 < httpMajor then r.fail else (r, .advance 0)

/-- `s_req_first_http_minor`. -/
def reqFirstHttpMinor (r : RequestExec) (ch : UInt8) : RequestExec × Next :=
  if !isNum ch then r.fail
  else
    let exec := { r.exec with parser := { r.exec.parser with httpMinor := ch.toNat - 48 } }
    ({ r.goto .reqHttpMinor with exec }, .advance 0)

/-- `s_req_http_minor`. -/
def reqHttpMinor (r : RequestExec) (ch : UInt8) : RequestExec × Next :=
  if ch = CR then (r.goto .reqLineAlmostDone, .advance 0)
  else if ch = LF then (r.headers, .advance 0)
  else if !isNum ch then r.fail
  else
    let httpMinor := r.exec.parser.httpMinor * 10 + (ch.toNat - 48)
    let r := { r with exec := { r.exec with parser := { r.exec.parser with httpMinor } } }
    if 999 < httpMinor then r.fail else (r, .advance 0)

/-- `s_req_line_almost_done`. -/
def reqLineAlmostDone (r : RequestExec) (ch : UInt8) : RequestExec × Next :=
  if ch ≠ LF then r.fail else (r.headers, .advance 0)

/-- The byte `ch` in a state of the request line. -/
def dispatchLine (r : RequestExec) (state : LineState) (ch : UInt8) (rest : Bytes) :
    RequestExec × Next :=
  match state with
  | .startReq => r.startReq ch
  | .reqMethod => r.reqMethod ch
  | .url s => r.url s ch rest
  | .reqHttpStart => r.reqHttpStart ch
  | .reqHttpH => r.expect (byte 'T') .reqHttpHT ch
  | .reqHttpHT => r.expect (byte 'T') .reqHttpHTT ch
  | .reqHttpHTT => r.expect (byte 'P') .reqHttpHTTP ch
  | .reqHttpHTTP => r.expect (byte '/') .reqFirstHttpMajor ch
  | .reqFirstHttpMajor => r.reqFirstHttpMajor ch
  | .reqHttpMajor => r.reqHttpMajor ch
  | .reqFirstHttpMinor => r.reqFirstHttpMinor ch
  | .reqHttpMinor => r.reqHttpMinor ch
  | .reqLineAlmostDone => r.reqLineAlmostDone ch

/-! ### The headers and the body -/

/-- `s_headers_done`. -/
def headersDone (r : RequestExec) (ch : UInt8) : RequestExec × Next :=
  if ch ≠ LF then r.fail
  else
    let e := { r.exec with parser := { r.exec.parser with nread := 0 } }
    let r := { r with exec := e }
    if e.parser.upgrade then (r.complete, .ret)
    else if e.parser.flags.skipbody then (r.complete, .advance 0)
    else if e.parser.flags.chunked then ({ r with exec := e.goto .chunkSizeStart }, .advance 0)
    else if e.parser.contentLength = 0 then (r.complete, .advance 0)
    else if e.parser.contentLength ≠ ULLONG_MAX then
      ({ r with exec := e.goto .bodyIdentity }, .advance 0)
    -- A request without a content length has no body.
    else (r.complete, .advance 0)

/-- `s_headers_almost_done`, of a callback that returns 0. -/
def headersAlmostDone (r : RequestExec) (ch : UInt8) (rest : Bytes) : RequestExec × Next :=
  if ch ≠ LF then r.fail
  else if r.exec.parser.flags.trailing then (r.complete, .advance 0)
  else
    let upgrade := r.exec.parser.flags.upgrade || decide (r.method = .connect)
    let e := { r.exec with parser := { r.exec.parser with state := .headersDone, upgrade } }
    let e := e.notify (.headersComplete (ch :: rest) e.parser.statusCode
      e.parser.requestShouldKeepAlive)
    { r with exec := e }.headersDone ch

/-- `s_header_field_start`. -/
def headerFieldStart (r : RequestExec) (ch : UInt8) (rest : Bytes) : RequestExec × Next :=
  if ch = LF then { r with exec := r.exec.goto .headersAlmostDone }.headersAlmostDone ch rest
  else r.lift fun e => e.headerFieldStart 0 ch rest

/-- `s_header_value_lws`. -/
def headerValueLws (r : RequestExec) (ch : UInt8) (rest : Bytes) : RequestExec × Next :=
  if ch = SP ∨ ch = HT then r.lift fun e => (e.goto .headerValueStart).headerValueStart ch rest
  else { r with exec := r.exec.finishHeader.goto .headerFieldStart }.headerFieldStart ch rest

/-- `s_header_value_discard_lws`. -/
def headerValueDiscardLws (r : RequestExec) (ch : UInt8) (rest : Bytes) : RequestExec × Next :=
  if ch = SP ∨ ch = HT then ({ r with exec := r.exec.goto .headerValueDiscardWs }, .advance 0)
  else
    -- The value is empty.
    let e := (r.exec.mark .headerValue (ch :: rest)).goto .headerFieldStart
    { r with exec := e.callbackData .headerValue (ch :: rest) }.headerFieldStart ch rest

/-- `s_body_identity`. -/
def bodyIdentity (r : RequestExec) (ch : UInt8) (rest : Bytes) : RequestExec × Next :=
  let (e, toRead) := r.exec.readBody (ch :: rest)
  if e.parser.contentLength = 0 then
    let e := (e.goto .messageDone).callbackData .body ((ch :: rest).drop toRead)
    ({ r with exec := e }.complete, .advance (toRead - 1))
  else ({ r with exec := e }, .advance (toRead - 1))

/-- The byte `ch` past the request line. -/
def dispatchRest (r : RequestExec) (ch : UInt8) (rest : Bytes) : RequestExec × Next :=
  match r.exec.parser.state with
  | .headerFieldStart => r.headerFieldStart ch rest
  | .headerValueLws => r.headerValueLws ch rest
  | .headerValueDiscardLws => r.headerValueDiscardLws ch rest
  | .headersAlmostDone => r.headersAlmostDone ch rest
  | .headersDone => r.headersDone ch
  | .bodyIdentity => r.bodyIdentity ch rest
  | .messageDone => (r.complete, .advance 0)
  | _ => r.lift fun e => e.dispatch 0 ch rest

/-! ### The loop -/

/-- The byte `ch` in the present state. -/
def dispatch (r : RequestExec) (ch : UInt8) (rest : Bytes) : RequestExec × Next :=
  match r.line with
  | some state => r.dispatchLine state ch rest
  | none => r.dispatchRest ch rest

/-- `PARSING_HEADER`. -/
def parsingHeader (r : RequestExec) : Bool := r.line.isSome || r.exec.parser.state.parsingHeader

/-- A round of the loop. The size of the headers is limited. -/
def step (r : RequestExec) (ch : UInt8) (rest : Bytes) : RequestExec × Next :=
  if r.parsingHeader then
    let nread := r.exec.parser.nread + 1
    let r := { r with exec := { r.exec with parser := { r.exec.parser with nread } } }
    if HTTP_MAX_HEADER_SIZE < nread then r.fail else r.dispatch ch rest
  else r.dispatch ch rest

/-- The loop over the bytes, the first `skip` of which are passed over. What is left of them is
    returned. -/
def loop : Bytes → (skip : Nat) → RequestExec → RequestExec × Bytes
  | [], _, r => ({ r with exec := r.exec.flush }, [])
  | _ :: rest, skip + 1, r => loop rest skip r
  | ch :: rest, 0, r =>
    match r.step ch rest with
    | (r, .advance skip) =>
      let (r', left) := loop rest skip { r with exec := { r.exec with events := [] } }
      ({ r' with exec := { r'.exec with events := r.exec.events ++ r'.exec.events } }, left)
    | (r, .error) => (r, ch :: rest)
    | (r, .ret) => (r, rest)

end RequestExec

end HttpParser

namespace RequestParser

open HttpParser

/-- `http_parser_init`. -/
def init : RequestParser := ⟨some .startReq, .delete, HttpParser.init⟩

/-- The marks an execution begins with. -/
def initialMarks (p : RequestParser) (data : Bytes) : Kind → Option Bytes :=
  match p.line with
  | none => HttpParser.initialMarks p.parser.state data
  | some (.url s) => fun kind => if kind = .url ∧ s ≠ .reqSpacesBeforeUrl then some data else none
  | some _ => fun _ => none

/-- `http_parser_execute`. -/
def execute (p : RequestParser) (data : Bytes) : Execution RequestParser :=
  if p.parser.failed then ⟨[], 0, p, p.parser.upgrade⟩
  else if data = [] then
    match p.line, p.parser.state with
    | some .startReq, _ | none, .dead => ⟨[], 0, p, p.parser.upgrade⟩
    | none, .bodyIdentityEof => ⟨[.messageComplete], 0, p, p.parser.upgrade⟩
    | _, _ => ⟨[], 1, { p with parser := { p.parser with failed := true } }, p.parser.upgrade⟩
  else
    let (r, left) := RequestExec.loop data 0
      ⟨p.line, p.method, ⟨p.parser, p.initialMarks data, []⟩⟩
    ⟨r.exec.events, data.length - left.length, ⟨r.line, r.method, r.exec.parser⟩,
      r.exec.parser.upgrade⟩

end RequestParser

/-- The parser as `lua_mistress_receive` sets it up for requests. -/
def requestParser : Parser where
  State := RequestParser
  init := RequestParser.init
  execute := RequestParser.execute

end Mistress
