import Mistress.Headers

/-!
# Content decoding

`receive` unzips the body it has collected if `hp_header_value_cb` has seen a value that
begins with `gzip` and a carriage return, whatever the name of the header.

* `gzipEncoded`: what the headers say of the body;
* `Decodes`: `receive` unzips the body if and only if they say so;
* `decodes_iff`: so it is if and only if the bytes at the values and the headers agree
  on it, and no read comes to grief.
-/

namespace Mistress

open LuaStack

/-! ## The content encoding -/

/-- A letter in lower case. -/
def lowerCase (ch : UInt8) : UInt8 :=
  if HttpParser.byte 'A' ≤ ch ∧ ch ≤ HttpParser.byte 'Z' then ch + 32 else ch

/-- White space around a value. -/
def isBlank (ch : UInt8) : Bool := ch = HttpParser.SP || ch = HttpParser.HT

/-- A value without the white space around it. -/
def strip (s : Bytes) : Bytes := ((s.dropWhile isBlank).reverse.dropWhile isBlank).reverse

/-- The header says that the body is zipped. -/
def isGzipEncoding (field : Bytes × Bytes) : Bool :=
  field.1.map lowerCase = HttpParser.bytes "content-encoding" &&
    (strip field.2).map lowerCase = HttpParser.bytes "gzip"

/-- The headers say that the body is zipped. -/
def gzipEncoded (es : List Event) : Bool := (fieldValues (headEvents es)).any isGzipEncoding

/-- A value among the headers begins with `gzip` and a carriage return. -/
def seemsGzipped (es : List Event) : Bool := (headEvents es).any Event.isGzip

namespace Session

/-- What `receive` returns for a body, unzipped or not. -/
def Received.decoded (gunzip : Bytes → Except LuaError Bytes) (zipped : Bool) (body : Bytes)
    (headers passed statusCode isKeepalive url : Value) : Received :=
  match if zipped then gunzip body else .ok body with
  | .ok body => .response headers (some body) passed statusCode isKeepalive url
  | .error e => .raised e

/-- A `gunzip` that fails shows whether it is applied. -/
theorem Received.decoded_inj {e : LuaError} {zipped zipped' : Bool} {body body' : Bytes}
    {headers passed statusCode isKeepalive url headers' passed' statusCode' isKeepalive' url' : Value}
    (h : Received.decoded (fun _ => .error e) zipped body headers passed statusCode isKeepalive url =
      .decoded (fun _ => .error e) zipped' body' headers' passed' statusCode' isKeepalive' url') :
    zipped = zipped' := by
  cases zipped <;> cases zipped' <;> first | rfl | cases h

end Session

variable {P : Parser} {response : Bytes} {head tail : List Event} {ptr : Bytes} {statusCode : Nat}
  {keepAlive : Bool}

/-- However `gunzip` unzips: `receive`, fetching the body of the response, applies it to
    the body if the headers say that it is zipped, and only then. -/
def Decodes (P : Parser) (c : Cutting response) (id : Nat) : Prop :=
  ∀ gunzip, ∃ headers passed statusCode isKeepalive url,
    Session.receive P id true gunzip (c.reads.map fun r => .got r.1 r.2) =
      .returned (.decoded gunzip (gzipEncoded (P.execute P.init response).events)
        (bodies (P.execute P.init response).events).flatten
        headers passed statusCode isKeepalive url)

/-! ## What decides -/

theorem bodies_message (hhead : ∀ e ∈ head, e.IsHead) (tail : List Event) :
    bodies (.messageBegin :: head ++ .headersComplete ptr statusCode keepAlive :: tail ++
      [.messageComplete]) = bodies tail := by
  have hnone : bodies head = [] := by
    refine List.filterMap_eq_nil_iff.2 fun e he => ?_
    obtain ⟨ptr, length, rfl | rfl | rfl⟩ := (hhead e he).cases <;> rfl
  rw [bodies_append, List.cons_append, bodies_cons, bodies_append, hnone, bodies_cons]
  simp [Event.body?, bodies]

/-- The reads are intact: what `receive` returns. -/
theorem receive_decoded (hP : P.CarriesOn)
    (hresp : P.Responds response head ptr statusCode keepAlive tail) (c : Cutting response) (id : Nat)
    (hintact : c.Intact P) (gunzip : Bytes → Except LuaError Bytes) :
    ∃ headers passed statusCode isKeepalive url,
      Session.receive P id true gunzip (c.reads.map fun r => .got r.1 r.2) =
        .returned (.decoded gunzip (seemsGzipped (P.execute P.init response).events)
          (bodies (P.execute P.init response).events).flatten
          headers passed statusCode isKeepalive url) := by
  obtain ⟨passed, hreceive⟩ := (c.ends true gunzip hP hresp id).1 hintact
  refine ⟨.table (tokenFields (tokens head)), .num passed, .num statusCode, .bool keepAlive, .nil,
    hreceive.trans (congrArg _ ?_)⟩
  have hgzip : seemsGzipped (P.execute P.init response).events = head.any Event.isGzip := by
    rw [seemsGzipped, hresp.events, List.append_assoc]
    have hevents : headEvents (.messageBegin :: head ++
        (.headersComplete ptr statusCode keepAlive :: tail ++ [.messageComplete])) =
        .messageBegin :: head := headEvents_message hresp.head ptr statusCode keepAlive _
    rw [hevents]
    rfl
  rw [hgzip, hresp.events, bodies_message hresp.head]
  simp only [Session.Receiving.finish, afterHead, Session.Receiving.init, fetched, if_true,
    List.nil_append, List.flatten_singleton, Bool.false_or]
  rfl

/-- The body is unzipped as it should be if and only if a value begins with `gzip` and a
    carriage return just when the headers say that the body is zipped, and the reads are intact. -/
theorem decodes_iff (hP : P.CarriesOn)
    (hresp : P.Responds response head ptr statusCode keepAlive tail) (c : Cutting response) (id : Nat) :
    Decodes P c id ↔
      seemsGzipped (P.execute P.init response).events =
        gzipEncoded (P.execute P.init response).events ∧ c.Intact P := by
  constructor
  · intro h
    have hintact : c.Intact P := by
      by_contra hcut
      obtain ⟨headers, passed, code, alive, url, hret⟩ := h .ok
      rw [(c.ends true .ok hP hresp id).2 hcut] at hret
      cases hret
    refine ⟨?_, hintact⟩
    obtain ⟨headers, passed, code, alive, url, hret⟩ := h fun _ => .error .concatNil
    obtain ⟨headers', passed', code', alive', url', hret'⟩ :=
      receive_decoded hP hresp c id hintact fun _ => .error .concatNil
    exact (Session.Received.decoded_inj (Session.Outcome.returned.inj (hret.symm.trans hret'))).symm
  · rintro ⟨heq, hintact⟩ gunzip
    rw [← heq]
    exact receive_decoded hP hresp c id hintact gunzip

/-- A response whose body is not zipped, with a header that has the value `gzip`. -/
def otherGzip : Bytes :=
  HttpParser.bytes "HTTP/1.1 200 OK\r\nA: gzip\r\nContent-Length: 1\r\n\r\nx"

/-- The response in one read. -/
def otherGzipWhole : Cutting otherGzip := ⟨[(otherGzip, 0)], by simp [joined], by decide, by decide⟩

/-- `gunzip` is applied to the body, which is not zipped. -/
theorem otherGzip_not_decodes :
    (httpParser.execute httpParser.init otherGzip).Accepts otherGzip ∧
      ¬Decodes httpParser otherGzipWhole 1 := by
  refine ⟨⟨by decide +kernel, by decide +kernel⟩, fun h => ?_⟩
  obtain ⟨headers, passed, code, alive, url, hret⟩ := h fun _ => .error .concatNil
  have hencoded : gzipEncoded (httpParser.execute httpParser.init otherGzip).events = false := by
    decide +kernel
  have hraised : (match Session.receive httpParser 1 true (fun _ => .error .concatNil)
      (otherGzipWhole.reads.map fun r => .got r.1 r.2) with
    | .returned (.raised _) => true
    | _ => false) = true := by decide +kernel
  rw [hret, hencoded] at hraised
  cases hraised

end Mistress
