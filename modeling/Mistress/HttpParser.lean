import Mistress.Recv
import Mathlib.Logic.Function.Basic

/-!
# The HTTP parser

`http_parser_execute` of a parser for responses, in strict mode, byte by byte. A
state that has the byte executed again in another one calls the function of that
state.

A pointer into the buffer is what is left of the buffer from there on. A *mark* is
where the string that is being read begins in the buffer; its callback is called
where the string ends, or where the buffer does.

What the callbacks do to the Lua state is in `Recv`: here they are only listed
(`Event`), since none of them fails.
-/

namespace Mistress

open LuaStack

/-! ## The parser -/

namespace HttpParser

/-- `enum state`, the states of responses. -/
inductive State
  | dead
  | startRes
  | resH
  | resHT
  | resHTT
  | resHTTP
  | resFirstHttpMajor
  | resHttpMajor
  | resFirstHttpMinor
  | resHttpMinor
  | resFirstStatusCode
  | resStatusCode
  | resStatusStart
  | resStatus
  | resLineAlmostDone
  | headerFieldStart
  | headerField
  | headerValueDiscardWs
  | headerValueDiscardWsAlmostDone
  | headerValueDiscardLws
  | headerValueStart
  | headerValue
  | headerValueLws
  | headerAlmostDone
  | chunkSizeStart
  | chunkSize
  | chunkParameters
  | chunkSizeAlmostDone
  | headersAlmostDone
  | headersDone
  | chunkData
  | chunkDataAlmostDone
  | chunkDataDone
  | bodyIdentity
  | bodyIdentityEof
  | messageDone
  deriving DecidableEq

/-- `PARSING_HEADER`. -/
def State.parsingHeader : State → Bool
  | .chunkData | .chunkDataAlmostDone | .chunkDataDone | .bodyIdentity | .bodyIdentityEof
  | .messageDone => false
  | _ => true

/-- `enum header_states`. -/
inductive HeaderState
  | general
  | C
  | CO
  | CON
  | matchingConnection
  | matchingProxyConnection
  | matchingContentLength
  | matchingTransferEncoding
  | matchingUpgrade
  | connection
  | contentLength
  | transferEncoding
  | upgrade
  | matchingTransferEncodingChunked
  | matchingConnectionKeepAlive
  | matchingConnectionClose
  | transferEncodingChunked
  | connectionKeepAlive
  | connectionClose
  deriving DecidableEq

/-- `enum flags`. -/
structure Flags where
  chunked : Bool
  connectionKeepAlive : Bool
  connectionClose : Bool
  trailing : Bool
  upgrade : Bool
  skipbody : Bool
  deriving DecidableEq

/-- `flags = 0`. -/
def Flags.zero : Flags := ⟨false, false, false, false, false, false⟩

/-- `ULLONG_MAX`: the content length that is not known. -/
def ULLONG_MAX : Nat := 0xFFFFFFFFFFFFFFFF

/-- `HTTP_MAX_HEADER_SIZE`. -/
def HTTP_MAX_HEADER_SIZE : Nat := 80 * 1024

end HttpParser

open HttpParser in
/-- A parser for responses. -/
structure HttpParser where
  flags : Flags
  state : HttpParser.State
  headerState : HeaderState
  index : Nat
  nread : Nat
  contentLength : Nat
  httpMajor : Nat
  httpMinor : Nat
  statusCode : Nat
  /-- `http_errno` is not `HPE_OK`. -/
  failed : Bool
  upgrade : Bool
  deriving DecidableEq

namespace HttpParser

/-- `http_parser_init`. -/
def init : HttpParser where
  flags := .zero
  state := .startRes
  headerState := .general
  index := 0
  nread := 0
  contentLength := 0
  httpMajor := 0
  httpMinor := 0
  statusCode := 0
  failed := false
  upgrade := false

/-- `http_message_needs_eof`. -/
def messageNeedsEof (parser : HttpParser) : Bool :=
  if parser.statusCode / 100 = 1 ∨ parser.statusCode = 204 ∨ parser.statusCode = 304 ∨
      parser.flags.skipbody then false
  else if parser.flags.chunked ∨ parser.contentLength ≠ ULLONG_MAX then false
  else true

/-- `http_should_keep_alive`. -/
def shouldKeepAlive (parser : HttpParser) : Bool :=
  if 0 < parser.httpMajor ∧ 0 < parser.httpMinor then
    if parser.flags.connectionClose then false else !parser.messageNeedsEof
  else if parser.flags.connectionKeepAlive then !parser.messageNeedsEof
  else false

/-- `NEW_MESSAGE`. -/
def newMessage (parser : HttpParser) : State :=
  if parser.shouldKeepAlive then .startRes else .dead

/-! ## Bytes -/

def CR : UInt8 := 13

def LF : UInt8 := 10

def SP : UInt8 := 32

def HT : UInt8 := 9

/-- The code of a character. -/
def byte (c : Char) : UInt8 := c.toNat.toUInt8

/-- The codes of a string. -/
def bytes (s : String) : Bytes := s.toList.map byte

/-- `IS_NUM`. -/
def isNum (ch : UInt8) : Bool := byte '0' ≤ ch && ch ≤ byte '9'

/-- `LOWER`. -/
def lower (ch : UInt8) : UInt8 := ch ||| 0x20

/-- `TOKEN`: the byte in lower case, if it may be in a token. -/
def token (ch : UInt8) : Option UInt8 :=
  if byte 'A' ≤ ch ∧ ch ≤ byte 'Z' then some (ch + 32)
  else if byte 'a' ≤ ch ∧ ch ≤ byte 'z' ∨ isNum ch ∨ ch ∈ bytes "!#$%&'*+-.^_`|~" then some ch
  else none

/-- The value of a hexadecimal digit. -/
def hexDigit (ch : UInt8) : Option Nat :=
  if isNum ch then some (ch.toNat - 48)
  else if byte 'A' ≤ ch ∧ ch ≤ byte 'F' then some (ch.toNat - 55)
  else if byte 'a' ≤ ch ∧ ch ≤ byte 'f' then some (ch.toNat - 87)
  else none

/-- `unhex`. Half of the table is initialised: the entries of the bytes that are not in ASCII
    are `0`. -/
def unhex (ch : UInt8) : Option Nat := if 128 ≤ ch then some 0 else hexDigit ch

def CONNECTION : Bytes := bytes "connection"

def PROXY_CONNECTION : Bytes := bytes "proxy-connection"

def CONTENT_LENGTH : Bytes := bytes "content-length"

def TRANSFER_ENCODING : Bytes := bytes "transfer-encoding"

def UPGRADE : Bytes := bytes "upgrade"

def CHUNKED : Bytes := bytes "chunked"

def KEEP_ALIVE : Bytes := bytes "keep-alive"

def CLOSE : Bytes := bytes "close"

/-! ## Executions -/

/-- The variables of an execution, and the callbacks called for the present byte. -/
structure Exec where
  parser : HttpParser
  marks : Kind → Option Bytes
  events : List Event

/-- How the loop over the bytes goes on. -/
inductive Next
  /-- It goes on, after passing over `skip` bytes more: `p += skip`. -/
  | advance (skip : Nat)
  /-- `goto error`. -/
  | error
  /-- It returns, the byte being parsed. -/
  | ret

namespace Exec

/-- `parser->state = state`. -/
def goto (e : Exec) (state : State) : Exec := { e with parser := { e.parser with state } }

/-- `parser->header_state = headerState`. -/
def header (e : Exec) (headerState : HeaderState) : Exec :=
  { e with parser := { e.parser with headerState } }

/-- `CALLBACK_NOTIFY`, of a callback that returns 0. -/
def notify (e : Exec) (event : Event) : Exec := { e with events := e.events ++ [event] }

/-- `MARK`. -/
def mark (e : Exec) (kind : Kind) (p : Bytes) : Exec :=
  match e.marks kind with
  | none => { e with marks := Function.update e.marks kind (some p) }
  | some _ => e

/-- `CALLBACK_DATA_`, of a string that ends at `p`. -/
def callbackData (e : Exec) (kind : Kind) (p : Bytes) : Exec :=
  match e.marks kind with
  | some ptr =>
    { e with
      events := e.events ++ [.data kind ptr (ptr.length - p.length)]
      marks := Function.update e.marks kind none }
  | none => e

/-- `SET_ERRNO`. -/
def fail (e : Exec) : Exec × Next := ({ e with parser := { e.parser with failed := true } }, .error)

/-- The message is complete. -/
def complete (e : Exec) : Exec := (e.goto e.parser.newMessage).notify .messageComplete

/-! ### The status line -/

/-- `s_dead`. -/
def dead (e : Exec) (ch : UInt8) : Exec × Next :=
  if ch = CR ∨ ch = LF then (e, .advance 0) else e.fail

/-- `s_start_res`. -/
def startRes (e : Exec) (ch : UInt8) : Exec × Next :=
  let e := { e with parser := { e.parser with flags := .zero, contentLength := ULLONG_MAX } }
  if ch = byte 'H' then ((e.goto .resH).notify .messageBegin, .advance 0)
  else if ch = CR ∨ ch = LF then (e.notify .messageBegin, .advance 0)
  else e.fail

/-- `STRICT_CHECK` of a byte of a constant. -/
def expect (e : Exec) (c : UInt8) (state : State) (ch : UInt8) : Exec × Next :=
  if ch ≠ c then e.fail else (e.goto state, .advance 0)

/-- `s_res_first_http_major`. -/
def resFirstHttpMajor (e : Exec) (ch : UInt8) : Exec × Next :=
  if isNum ch then
    ({ e with parser := { e.parser with httpMajor := ch.toNat - 48, state := .resHttpMajor } },
      .advance 0)
  else e.fail

/-- `s_res_http_major`. -/
def resHttpMajor (e : Exec) (ch : UInt8) : Exec × Next :=
  if ch = byte '.' then (e.goto .resFirstHttpMinor, .advance 0)
  else if isNum ch then
    let httpMajor := e.parser.httpMajor * 10 + (ch.toNat - 48)
    let e := { e with parser := { e.parser with httpMajor } }
    if 999 < httpMajor then e.fail else (e, .advance 0)
  else e.fail

/-- `s_res_first_http_minor`. -/
def resFirstHttpMinor (e : Exec) (ch : UInt8) : Exec × Next :=
  if isNum ch then
    ({ e with parser := { e.parser with httpMinor := ch.toNat - 48, state := .resHttpMinor } },
      .advance 0)
  else e.fail

/-- `s_res_http_minor`. -/
def resHttpMinor (e : Exec) (ch : UInt8) : Exec × Next :=
  if ch = SP then (e.goto .resFirstStatusCode, .advance 0)
  else if isNum ch then
    let httpMinor := e.parser.httpMinor * 10 + (ch.toNat - 48)
    let e := { e with parser := { e.parser with httpMinor } }
    if 999 < httpMinor then e.fail else (e, .advance 0)
  else e.fail

/-- `s_res_first_status_code`. -/
def resFirstStatusCode (e : Exec) (ch : UInt8) : Exec × Next :=
  if isNum ch then
    ({ e with parser := { e.parser with statusCode := ch.toNat - 48, state := .resStatusCode } },
      .advance 0)
  else if ch = SP then (e, .advance 0)
  else e.fail

/-- `s_res_status_code`. -/
def resStatusCode (e : Exec) (ch : UInt8) : Exec × Next :=
  if isNum ch then
    let statusCode := e.parser.statusCode * 10 + (ch.toNat - 48)
    let e := { e with parser := { e.parser with statusCode } }
    if 999 < statusCode then e.fail else (e, .advance 0)
  else if ch = SP then (e.goto .resStatusStart, .advance 0)
  else if ch = CR then (e.goto .resLineAlmostDone, .advance 0)
  else if ch = LF then (e.goto .headerFieldStart, .advance 0)
  else e.fail

/-- `s_res_status_start`. -/
def resStatusStart (e : Exec) (ch : UInt8) (rest : Bytes) : Exec × Next :=
  if ch = CR then (e.goto .resLineAlmostDone, .advance 0)
  else if ch = LF then (e.goto .headerFieldStart, .advance 0)
  else
    let e := e.mark .status (ch :: rest)
    ({ e with parser := { e.parser with state := .resStatus, index := 0 } }, .advance 0)

/-- `s_res_status`. -/
def resStatus (e : Exec) (ch : UInt8) (rest : Bytes) : Exec × Next :=
  if ch = CR then
    ((e.goto .resLineAlmostDone).callbackData .status (ch :: rest), .advance 0)
  else if ch = LF then
    ((e.goto .headerFieldStart).callbackData .status (ch :: rest), .advance 0)
  else (e, .advance 0)

/-! ### The end of the headers -/

/-- `s_headers_done`. -/
def headersDone (e : Exec) (ch : UInt8) : Exec × Next :=
  if ch ≠ LF then e.fail
  else
    let e := { e with parser := { e.parser with nread := 0 } }
    -- The rest of the connection is in a different protocol.
    if e.parser.upgrade then (e.complete, .ret)
    else if e.parser.flags.skipbody then (e.complete, .advance 0)
    else if e.parser.flags.chunked then (e.goto .chunkSizeStart, .advance 0)
    else if e.parser.contentLength = 0 then (e.complete, .advance 0)
    else if e.parser.contentLength ≠ ULLONG_MAX then (e.goto .bodyIdentity, .advance 0)
    else if !e.parser.messageNeedsEof then (e.complete, .advance 0)
    else (e.goto .bodyIdentityEof, .advance 0)

/-- `s_headers_almost_done`; `ret` is what the callback returns. -/
def headersAlmostDone (ret : Nat) (e : Exec) (ch : UInt8) (rest : Bytes) : Exec × Next :=
  if ch ≠ LF then e.fail
  else if e.parser.flags.trailing then (e.complete, .advance 0)
  else
    let e := { e with parser := { e.parser with
      state := .headersDone, upgrade := e.parser.flags.upgrade } }
    let e := e.notify (.headersComplete (ch :: rest) e.parser.statusCode e.parser.shouldKeepAlive)
    match ret with
    | 0 => e.headersDone ch
    | 1 =>
      let flags := { e.parser.flags with skipbody := true }
      { e with parser := { e.parser with flags } }.headersDone ch
    | _ => e.fail

/-! ### Headers -/

/-- The header a name may turn out to be, by its first byte. -/
def firstHeaderState (c : UInt8) : HeaderState :=
  if c = byte 'c' then .C
  else if c = byte 'p' then .matchingProxyConnection
  else if c = byte 't' then .matchingTransferEncoding
  else if c = byte 'u' then .matchingUpgrade
  else .general

/-- `s_header_field_start`. -/
def headerFieldStart (ret : Nat) (e : Exec) (ch : UInt8) (rest : Bytes) : Exec × Next :=
  if ch = CR then (e.goto .headersAlmostDone, .advance 0)
  else if ch = LF then (e.goto .headersAlmostDone).headersAlmostDone ret ch rest
  else
    match token ch with
    | none => e.fail
    | some c =>
      let e := e.mark .headerField (ch :: rest)
      ({ e with parser := { e.parser with
        index := 0, state := .headerField, headerState := firstHeaderState c } }, .advance 0)

/-- A byte of a name, or of a value, that is compared with `text`. -/
def matching (parser : HttpParser) (text : Bytes) (matched : HeaderState) (c : UInt8) : HttpParser :=
  let index := parser.index + 1
  let headerState :=
    if text.length < index ∨ c ≠ text.getD index 0 then .general
    else if index = text.length - 1 then matched
    else parser.headerState
  { parser with index, headerState }

/-- A byte of a name, `c` being it in lower case. -/
def nameByte (parser : HttpParser) (ch c : UInt8) : HttpParser :=
  match parser.headerState with
  | .C => { parser with
      index := parser.index + 1, headerState := if c = byte 'o' then .CO else .general }
  | .CO => { parser with
      index := parser.index + 1, headerState := if c = byte 'n' then .CON else .general }
  | .CON => { parser with
      index := parser.index + 1
      headerState :=
        if c = byte 'n' then .matchingConnection
        else if c = byte 't' then .matchingContentLength
        else .general }
  | .matchingConnection => matching parser CONNECTION .connection c
  | .matchingProxyConnection => matching parser PROXY_CONNECTION .connection c
  | .matchingContentLength => matching parser CONTENT_LENGTH .contentLength c
  | .matchingTransferEncoding => matching parser TRANSFER_ENCODING .transferEncoding c
  | .matchingUpgrade => matching parser UPGRADE .upgrade c
  | .connection | .contentLength | .transferEncoding | .upgrade =>
    if ch ≠ SP then { parser with headerState := .general } else parser
  | _ => parser

/-- `s_header_field`. -/
def headerField (e : Exec) (ch : UInt8) (rest : Bytes) : Exec × Next :=
  match token ch with
  | some c => ({ e with parser := nameByte e.parser ch c }, .advance 0)
  | none =>
    if ch = byte ':' then
      ((e.goto .headerValueDiscardWs).callbackData .headerField (ch :: rest), .advance 0)
    else if ch = CR then
      ((e.goto .headerAlmostDone).callbackData .headerField (ch :: rest), .advance 0)
    else if ch = LF then
      ((e.goto .headerFieldStart).callbackData .headerField (ch :: rest), .advance 0)
    else e.fail

/-- `s_header_value_start`. -/
def headerValueStart (e : Exec) (ch : UInt8) (rest : Bytes) : Exec × Next :=
  let e := e.mark .headerValue (ch :: rest)
  let e := { e with parser := { e.parser with state := .headerValue, index := 0 } }
  match e.parser.headerState with
  | .upgrade =>
    let flags := { e.parser.flags with upgrade := true }
    ({ e with parser := { e.parser with flags, headerState := .general } }, .advance 0)
  | .transferEncoding =>
    (e.header (if lower ch = byte 'c' then .matchingTransferEncodingChunked else .general),
      .advance 0)
  | .contentLength =>
    if isNum ch then
      ({ e with parser := { e.parser with contentLength := ch.toNat - 48 } }, .advance 0)
    else e.fail
  | .connection =>
    (e.header (if lower ch = byte 'k' then .matchingConnectionKeepAlive
      else if lower ch = byte 'c' then .matchingConnectionClose else .general), .advance 0)
  | _ => (e.header .general, .advance 0)

/-- `s_header_value_discard_ws`. -/
def headerValueDiscardWs (e : Exec) (ch : UInt8) (rest : Bytes) : Exec × Next :=
  if ch = SP ∨ ch = HT then (e, .advance 0)
  else if ch = CR then (e.goto .headerValueDiscardWsAlmostDone, .advance 0)
  else if ch = LF then (e.goto .headerValueDiscardLws, .advance 0)
  else e.headerValueStart ch rest

/-- `s_header_almost_done`. -/
def headerAlmostDone (e : Exec) (ch : UInt8) : Exec × Next :=
  e.expect LF .headerValueLws ch

/-- A byte of a value, but for its end. -/
def valueByte (e : Exec) (ch : UInt8) : Exec × Next :=
  match e.parser.headerState with
  | .contentLength =>
    if ch = SP then (e, .advance 0)
    else if isNum ch then
      if (ULLONG_MAX - 10) / 10 < e.parser.contentLength then e.fail
      else
        let contentLength := e.parser.contentLength * 10 + (ch.toNat - 48)
        ({ e with parser := { e.parser with contentLength } }, .advance 0)
    else e.fail
  | .matchingTransferEncodingChunked =>
    ({ e with parser := matching e.parser CHUNKED .transferEncodingChunked (lower ch) },
      .advance 0)
  | .matchingConnectionKeepAlive =>
    ({ e with parser := matching e.parser KEEP_ALIVE .connectionKeepAlive (lower ch) },
      .advance 0)
  | .matchingConnectionClose =>
    ({ e with parser := matching e.parser CLOSE .connectionClose (lower ch) }, .advance 0)
  | .transferEncodingChunked | .connectionKeepAlive | .connectionClose =>
    (if ch ≠ SP then e.header .general else e, .advance 0)
  | _ => (e.header .general, .advance 0)

/-- `s_header_value`. -/
def headerValue (e : Exec) (ch : UInt8) (rest : Bytes) : Exec × Next :=
  if ch = CR then
    ((e.goto .headerAlmostDone).callbackData .headerValue (ch :: rest), .advance 0)
  else if ch = LF then
    ((e.goto .headerAlmostDone).callbackData .headerValue (ch :: rest)).headerAlmostDone ch
  else e.valueByte ch

/-- The header is finished: what it says is flagged. -/
def finishHeader (e : Exec) : Exec :=
  match e.parser.headerState with
  | .connectionKeepAlive =>
    let flags := { e.parser.flags with connectionKeepAlive := true }
    { e with parser := { e.parser with flags } }
  | .connectionClose =>
    let flags := { e.parser.flags with connectionClose := true }
    { e with parser := { e.parser with flags } }
  | .transferEncodingChunked =>
    let flags := { e.parser.flags with chunked := true }
    { e with parser := { e.parser with flags } }
  | _ => e

/-- `s_header_value_lws`. -/
def headerValueLws (ret : Nat) (e : Exec) (ch : UInt8) (rest : Bytes) : Exec × Next :=
  if ch = SP ∨ ch = HT then (e.goto .headerValueStart).headerValueStart ch rest
  else (e.finishHeader.goto .headerFieldStart).headerFieldStart ret ch rest

/-- `s_header_value_discard_lws`. -/
def headerValueDiscardLws (ret : Nat) (e : Exec) (ch : UInt8) (rest : Bytes) : Exec × Next :=
  if ch = SP ∨ ch = HT then (e.goto .headerValueDiscardWs, .advance 0)
  else
    -- The value is empty.
    let e := (e.mark .headerValue (ch :: rest)).goto .headerFieldStart
    (e.callbackData .headerValue (ch :: rest)).headerFieldStart ret ch rest

/-! ### The body -/

/-- Reading as much of the body as there is, up to the content length; the number of
    the bytes read. -/
def readBody (e : Exec) (p : Bytes) : Exec × Nat :=
  let toRead := min e.parser.contentLength p.length
  let e := e.mark .body p
  ({ e with parser := { e.parser with contentLength := e.parser.contentLength - toRead } }, toRead)

/-- `s_body_identity`. -/
def bodyIdentity (e : Exec) (ch : UInt8) (rest : Bytes) : Exec × Next :=
  let (e, toRead) := e.readBody (ch :: rest)
  if e.parser.contentLength = 0 then
    -- The byte is executed again in the state `s_message_done`.
    (((e.goto .messageDone).callbackData .body ((ch :: rest).drop toRead)).complete,
      .advance (toRead - 1))
  else (e, .advance (toRead - 1))

/-- `s_body_identity_eof`. -/
def bodyIdentityEof (e : Exec) (ch : UInt8) (rest : Bytes) : Exec × Next :=
  (e.mark .body (ch :: rest), .advance rest.length)

/-- `s_message_done`. -/
def messageDone (e : Exec) : Exec × Next := (e.complete, .advance 0)

/-- `s_chunk_size_start`. -/
def chunkSizeStart (e : Exec) (ch : UInt8) : Exec × Next :=
  match unhex ch with
  | none => e.fail
  | some contentLength =>
    ({ e with parser := { e.parser with contentLength, state := .chunkSize } }, .advance 0)

/-- `s_chunk_size`. -/
def chunkSize (e : Exec) (ch : UInt8) : Exec × Next :=
  if ch = CR then (e.goto .chunkSizeAlmostDone, .advance 0)
  else
    match unhex ch with
    | none =>
      if ch = byte ';' ∨ ch = SP then (e.goto .chunkParameters, .advance 0) else e.fail
    | some digit =>
      if (ULLONG_MAX - 16) / 16 < e.parser.contentLength then e.fail
      else
        let contentLength := e.parser.contentLength * 16 + digit
        ({ e with parser := { e.parser with contentLength } }, .advance 0)

/-- `s_chunk_parameters`. -/
def chunkParameters (e : Exec) (ch : UInt8) : Exec × Next :=
  if ch = CR then (e.goto .chunkSizeAlmostDone, .advance 0) else (e, .advance 0)

/-- `s_chunk_size_almost_done`. -/
def chunkSizeAlmostDone (e : Exec) (ch : UInt8) : Exec × Next :=
  if ch ≠ LF then e.fail
  else if e.parser.contentLength = 0 then
    let flags := { e.parser.flags with trailing := true }
    ({ e with parser := { e.parser with nread := 0, flags, state := .headerFieldStart } },
      .advance 0)
  else ({ e with parser := { e.parser with nread := 0, state := .chunkData } }, .advance 0)

/-- `s_chunk_data`. -/
def chunkData (e : Exec) (ch : UInt8) (rest : Bytes) : Exec × Next :=
  let (e, toRead) := e.readBody (ch :: rest)
  (if e.parser.contentLength = 0 then e.goto .chunkDataAlmostDone else e, .advance (toRead - 1))

/-- `s_chunk_data_almost_done`. -/
def chunkDataAlmostDone (e : Exec) (ch : UInt8) (rest : Bytes) : Exec × Next :=
  if ch ≠ CR then e.fail
  else ((e.goto .chunkDataDone).callbackData .body (ch :: rest), .advance 0)

/-- `s_chunk_data_done`. -/
def chunkDataDone (e : Exec) (ch : UInt8) : Exec × Next :=
  if ch ≠ LF then e.fail
  else ({ e with parser := { e.parser with nread := 0, state := .chunkSizeStart } }, .advance 0)

/-! ### The loop -/

/-- The byte `ch` in the present state. -/
def dispatch (ret : Nat) (e : Exec) (ch : UInt8) (rest : Bytes) : Exec × Next :=
  match e.parser.state with
  | .dead => e.dead ch
  | .startRes => e.startRes ch
  | .resH => e.expect (byte 'T') .resHT ch
  | .resHT => e.expect (byte 'T') .resHTT ch
  | .resHTT => e.expect (byte 'P') .resHTTP ch
  | .resHTTP => e.expect (byte '/') .resFirstHttpMajor ch
  | .resFirstHttpMajor => e.resFirstHttpMajor ch
  | .resHttpMajor => e.resHttpMajor ch
  | .resFirstHttpMinor => e.resFirstHttpMinor ch
  | .resHttpMinor => e.resHttpMinor ch
  | .resFirstStatusCode => e.resFirstStatusCode ch
  | .resStatusCode => e.resStatusCode ch
  | .resStatusStart => e.resStatusStart ch rest
  | .resStatus => e.resStatus ch rest
  | .resLineAlmostDone => e.expect LF .headerFieldStart ch
  | .headerFieldStart => e.headerFieldStart ret ch rest
  | .headerField => e.headerField ch rest
  | .headerValueDiscardWs => e.headerValueDiscardWs ch rest
  | .headerValueDiscardWsAlmostDone => e.expect LF .headerValueDiscardLws ch
  | .headerValueDiscardLws => e.headerValueDiscardLws ret ch rest
  | .headerValueStart => e.headerValueStart ch rest
  | .headerValue => e.headerValue ch rest
  | .headerValueLws => e.headerValueLws ret ch rest
  | .headerAlmostDone => e.headerAlmostDone ch
  | .chunkSizeStart => e.chunkSizeStart ch
  | .chunkSize => e.chunkSize ch
  | .chunkParameters => e.chunkParameters ch
  | .chunkSizeAlmostDone => e.chunkSizeAlmostDone ch
  | .headersAlmostDone => e.headersAlmostDone ret ch rest
  | .headersDone => e.headersDone ch
  | .chunkData => e.chunkData ch rest
  | .chunkDataAlmostDone => e.chunkDataAlmostDone ch rest
  | .chunkDataDone => e.chunkDataDone ch
  | .bodyIdentity => e.bodyIdentity ch rest
  | .bodyIdentityEof => e.bodyIdentityEof ch rest
  | .messageDone => e.messageDone

/-- A round of the loop. The size of the headers is limited. -/
def step (ret : Nat) (e : Exec) (ch : UInt8) (rest : Bytes) : Exec × Next :=
  if e.parser.state.parsingHeader then
    let e := { e with parser := { e.parser with nread := e.parser.nread + 1 } }
    if HTTP_MAX_HEADER_SIZE < e.parser.nread then e.fail else e.dispatch ret ch rest
  else e.dispatch ret ch rest

/-- The callbacks of the marks that are left at the end of the buffer. -/
def flush (e : Exec) : Exec :=
  ((((e.callbackData .headerField []).callbackData .headerValue []).callbackData .url
    []).callbackData .body []).callbackData .status []

/-- The loop over the bytes, the first `skip` of which are passed over. What is left of
    them is returned. -/
def loop (ret : Nat) : Bytes → (skip : Nat) → Exec → Exec × Bytes
  | [], _, e => (e.flush, [])
  | _ :: rest, skip + 1, e => loop ret rest skip e
  | ch :: rest, 0, e =>
    match e.step ret ch rest with
    | (e, .advance skip) =>
      let (e', left) := loop ret rest skip { e with events := [] }
      ({ e' with events := e.events ++ e'.events }, left)
    | (e, .error) => (e, ch :: rest)
    | (e, .ret) => (e, rest)

end Exec

/-- The marks an execution begins with. -/
def initialMarks (state : State) (data : Bytes) : Kind → Option Bytes
  | .headerField => if state = .headerField then some data else none
  | .headerValue => if state = .headerValue then some data else none
  | .status => if state = .resStatus then some data else none
  | _ => none

/-- `http_parser_execute`; `ret` is what `on_headers_complete` returns. -/
def execute (ret : Nat) (parser : HttpParser) (data : Bytes) : Execution HttpParser :=
  if parser.failed then ⟨[], 0, parser, parser.upgrade⟩
  else if data = [] then
    match parser.state with
    | .bodyIdentityEof => ⟨[.messageComplete], 0, parser, parser.upgrade⟩
    | .dead | .startRes => ⟨[], 0, parser, parser.upgrade⟩
    | _ => ⟨[], 1, { parser with failed := true }, parser.upgrade⟩
  else
    let (e, left) := Exec.loop ret data 0 ⟨parser, initialMarks parser.state data, []⟩
    ⟨e.events, data.length - left.length, e.parser, e.parser.upgrade⟩

end HttpParser

/-- The parser as `lua_mistress_receive` sets it up for responses:
    `hp_headers_complete_cb` returns 0. -/
def httpParser : Parser where
  State := HttpParser
  init := HttpParser.init
  execute := HttpParser.execute 0

end Mistress
