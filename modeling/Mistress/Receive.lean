import Mistress.Recv
import Mistress.Utils

/-!
# `Session:receive`

The loop of `receive` over the results it is resumed with, and the whole of a
`receive` on a socket, from the reads to what it returns.
-/

namespace Mistress

open LuaStack

namespace Session

/-- The local variables of `receive`. -/
structure Receiving where
  headers : Value
  body : List Bytes
  isGzipped : Bool
  statusCode : Value
  isKeepalive : Value
  url : Value

/-- What `receive` returns: a failure or a response. -/
inductive Received
  | failed (err : Value)
  /-- The body is `true`, here `none`, unless it was to be fetched. -/
  | response (headers : Value) (body : Option Bytes) (passed statusCode isKeepalive url : Value)
  /-- `gunzip` raises an error. -/
  | raised (err : LuaError)

/-- The variables before the loop. -/
def Receiving.init : Receiving := ⟨.nil, [], false, .nil, .nil, .nil⟩

/-- `if res.headers`: what the loop takes over from the result with the headers. -/
def Receiving.takeHeaders (v : Receiving) (res : Fields) : Receiving :=
  if (res.get (.str "headers")).truthy then
    { v with
      headers := res.get (.str "headers")
      statusCode := res.get (.str "status_code")
      isKeepalive := res.get (.str "is_keepalive")
      isGzipped := v.isGzipped || (res.get (.str "is_gzipped")).truthy }
  else v

/-- `table.insert(body, res.body)`, if there is one and it is to be fetched. -/
def Receiving.takeBody (v : Receiving) (doFetchBody : Bool) (res : Fields) : Receiving :=
  match doFetchBody, res.get (.str "body") with
  | true, .bytes s => { v with body := v.body ++ [s] }
  | _, _ => v

/-- What follows the loop. -/
def Receiving.finish (v : Receiving) (doFetchBody : Bool) (gunzip : Bytes → Except LuaError Bytes)
    (passed : Value) : Received :=
  if doFetchBody then
    match if v.isGzipped then gunzip v.body.flatten else .ok v.body.flatten with
    | .ok body => .response v.headers (some body) passed v.statusCode v.isKeepalive v.url
    | .error e => .raised e
  else .response v.headers none passed v.statusCode v.isKeepalive v.url

/-- A round of the loop, on the values the session is resumed with: the loop goes
    on or `receive` returns. -/
def receiveStep (doFetchBody : Bool) (gunzip : Bytes → Except LuaError Bytes) (v : Receiving) :
    List Value → Receiving ⊕ Received
  | .table res :: _ =>
    let res : Fields := res
    if (res.get (.str "closed")).truthy then .inr (.failed (.str "conn closed"))
    else if (res.get (.str "parse_failed")).truthy then
      -- The received bytes are dumped into a file.
      .inr (.failed (.str "failed to parse http packet"))
    else
      let v := { v with url := if v.url.truthy then v.url else res.get (.str "url") }
      let v := (v.takeHeaders res).takeBody doFetchBody res
      if (res.get (.str "is_done")).truthy then
        .inr (v.finish doFetchBody gunzip (res.get (.str "passed")))
      else .inl v
  | _ :: er :: _ => .inr (.failed er)
  | _ => .inr (.failed .nil)

/-- How a `receive` ends, as far as the reads go. -/
inductive Outcome
  /-- It has not returned yet. -/
  | waiting
  | returned (r : Received)
  /-- `cb_recv` has exited the process. -/
  | exited

variable {P : Parser}

/-- The loop of `receive`, over the successive reads of the socket. -/
def receiveLoop (doFetchBody : Bool) (gunzip : Bytes → Except LuaError Bytes) :
    RecvWatcher P → Receiving → List Read → Outcome
  | _, _, [] => .waiting
  | w, v, read :: reads =>
    match cbRecv doFetchBody w read with
    | none => .exited
    | some (w, args) =>
      match receiveStep doFetchBody gunzip v args with
      | .inl v => receiveLoop doFetchBody gunzip w v reads
      | .inr r => .returned r

/-- `Session:receive` of the session `id`, over the successive reads of the socket. -/
def receive (P : Parser) (id : Nat) (doFetchBody : Bool) (gunzip : Bytes → Except LuaError Bytes)
    (reads : List Read) : Outcome :=
  receiveLoop (P := P) doFetchBody gunzip ⟨id, P.init, 0⟩ .init reads

end Session

end Mistress
