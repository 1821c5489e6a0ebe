import Mistress.SplitInvariance
import Mistress.ParseError

/-!
# Messages

A request or a response with a body of known length, as `http_parser` reports it,
and `Session:receive` on the successive reads of one.

* `Parser.Reads`: what the parser does with a message that is read in parts, as
  long as its headers come in one of them;
* `Reading.step`: `receive` goes on until the last byte has been read, and then
  returns the message;
* `Message.reads`: `http_parser` does so with a response whose headers it parses.
-/

open LuaStack

namespace Mistress

/-! ## Messages -/

/-- A message. -/
structure Message where
  /-- The first line and the headers. -/
  head : Bytes
  body : Bytes
  /-- The URL, if it is a request. -/
  url : Option Bytes
  statusCode : Nat
  keepAlive : Bool

/-- The bytes of a message. -/
def Message.text (m : Message) : Bytes := m.head ++ m.body

/-- The URL as a field of a result. -/
def Message.urlValue (m : Message) : Value :=
  match m.url with
  | some u => .bytes u
  | none => .nil

/-- The events of a read of the body. -/
def bodyEvents (b : Bytes) : List Event := if b = [] then [] else [.data .body b b.length]

/-- The event of the URL, what is left of the buffer after it being `rest`. -/
def urlEvents (url : Option Bytes) (rest : Bytes) : List Event :=
  match url with
  | some u => [.data .url (u ++ rest) u.length]
  | none => []

/-- What is known of a parser on a message: it finds the end by the length of the
    body. After `k` bytes of the body it is in the state `after k`. -/
structure Parser.Reads (P : Parser) (m : Message) (after : Nat → P.State) : Prop where
  /-- A read of the headers, and of the beginning of the body. -/
  first : ∀ k ≤ m.body.length, ∃ (rest : Bytes) (fields : List Event) (ptr : Bytes),
    P.execute P.init (m.head ++ m.body.take k) =
      ⟨.messageBegin :: (urlEvents m.url rest ++ fields ++
        .headersComplete ptr m.statusCode m.keepAlive :: (bodyEvents (m.body.take k) ++
          ending (k = m.body.length))), m.head.length + k, after k, false⟩ ∧
    (∀ e ∈ fields, e.IsHead) ∧ fields.any Event.isGzip = false
  /-- A read of the body. -/
  next : ∀ k n, 0 < n → k + n ≤ m.body.length →
    P.execute (after k) ((m.body.drop k).take n) =
      ⟨bodyEvents ((m.body.drop k).take n) ++ ending (k + n = m.body.length), n, after (k + n),
        false⟩

/-! ## The result of a read -/

/-- The result of a read, after the headers if it has any. -/
structure ReadFields (res : Fields) (url : Value) (body : Bytes) (done : Bool) : Prop where
  closed : res.get (.str "closed") = .nil
  parseFailed : res.get (.str "parse_failed") = .nil
  url : res.get (.str "url") = url
  body : res.get (.str "body") = if body = [] then .nil else .bytes body
  done : res.get (.str "is_done") = if done then .bool true else .nil

variable {P : Parser} {m : Message} {after : Nat → P.State} {res : Fields} {url : Value}

/-- The callbacks of the body, and the end of the message. -/
theorem foldlM_body (id n : Nat) (hres : ReadFields res url [] false) (b : Bytes) (done : Bool) :
    ∃ res' : Fields, (bodyEvents b ++ ending done).foldlM (Recv.callback true) (inBody n res id) =
        some ⟨[.table res', .num id, .str "cb_recv", .fn "plan_resume"], n, done⟩ ∧
      ReadFields res' url b done ∧
      ∀ k ∈ ["headers", "status_code", "is_keepalive", "is_gzipped"],
        res'.get (.str k) = res.get (.str k) := by
  have hnil : res.get (.str "body") = .nil := hres.body
  let res₁ := if b = [] then res else res.set (.str "body") (.bytes b)
  let res₂ := if done then res₁.set (.str "is_done") (.bool true) else res₁
  have hget (k : String) : res₂.get (.str k) =
      if done ∧ k = "is_done" then .bool true
      else if b ≠ [] ∧ k = "body" then .bytes b else res.get (.str k) := by
    cases done <;> by_cases hb : b = [] <;> simp [res₂, res₁, hb, Fields.get_set]
  refine ⟨res₂, ?_, ⟨?_, ?_, ?_, ?_, ?_⟩, fun k hk => ?_⟩
  · by_cases hb : b = [] <;> cases done <;>
      simp [bodyEvents, ending, res₂, res₁, hb, hnil, Recv.callback, Recv.body,
        Recv.messageComplete, rawget, rawset, modifyTable]
  · simp [hget, hres.closed]
  · simp [hget, hres.parseFailed]
  · simp [hget, hres.url]
  · by_cases hb : b = [] <;> simp [hget, hb, hres.body]
  · cases done <;> simp [hget, hres.done]
  · rw [hget, if_neg, if_neg]
    · rintro ⟨-, rfl⟩
      exact absurd hk (by decide)
    · rintro ⟨-, rfl⟩
      exact absurd hk (by decide)

/-- What the callbacks leave of the first line and the headers. -/
structure HeadFields (m : Message) (res : Fields) : Prop
    extends ReadFields res m.urlValue [] false where
  headers : (res.get (.str "headers")).truthy = true
  statusCode : res.get (.str "status_code") = .num m.statusCode
  isGzipped : res.get (.str "is_gzipped") = .nil

/-- The callbacks up to the end of the headers. -/
theorem foldlM_message (m : Message) (id : Nat) (passed : Int) {fields : List Event}
    (hfields : ∀ e ∈ fields, e.IsHead) (hg : fields.any Event.isGzip = false) (rest ptr : Bytes)
    (es : List Event) :
    ∃ (n : Nat) (res : Fields), HeadFields m res ∧
      (.messageBegin :: (urlEvents m.url rest ++ fields ++
        .headersComplete ptr m.statusCode m.keepAlive :: es)).foldlM (Recv.callback true)
          (inBody 0 [(.str "passed", .num passed)] id) =
        es.foldlM (Recv.callback true) (inBody n res id) := by
  let res₀ : Fields := (.str "passed", .num passed) ::
    match m.url with
    | some u => [(.str "url", .bytes u)]
    | none => []
  obtain ⟨res₁, hfold, hget₁⟩ := foldlM_head true [.num id, .str "cb_recv", .fn "plan_resume"]
    hfields [] res₀
  let res := ((res₁.set (.str "headers") (.table (tokenFields (tokens fields)))).set
    (.str "is_keepalive") (.bool m.keepAlive)).set (.str "status_code") (.num m.statusCode)
  have hres (k : String) : res.get (.str k) =
      if k = "status_code" then .num m.statusCode
      else if k = "is_keepalive" then .bool m.keepAlive
      else if k = "headers" then .table (tokenFields (tokens fields))
      else if k = "passed" then .num passed
      else if k = "url" then m.urlValue else .nil := by
    simp only [res, Fields.get_set, hget₁, hg]
    unfold Message.urlValue
    cases hu : m.url <;> simp [res₀, hu, Fields.get, eq_comm]
  refine ⟨(tokens fields).length, res, ⟨⟨?_, ?_, ?_, ?_, ?_⟩, ?_, ?_, ?_⟩, ?_⟩
  · rw [hres]; rfl
  · rw [hres]; rfl
  · rw [hres]; rfl
  · rw [hres]; rfl
  · rw [hres]; rfl
  · rw [hres]; rfl
  · rw [hres]; rfl
  · rw [hres]; rfl
  · -- The URL is set as a field of the result, below the table of the headers.
    have hurl : (.messageBegin :: urlEvents m.url rest).foldlM (Recv.callback true)
        (inBody 0 [(.str "passed", .num passed)] id) = some (inHeaders [] res₀
          [.num id, .str "cb_recv", .fn "plan_resume"]) := by
      cases hu : m.url <;>
        simp [urlEvents, res₀, hu, Recv.callback, Recv.messageBegin, Recv.url, rawset, modifyTable,
          Fields.set, tokenFields]
    rw [List.append_assoc, ← List.cons_append, List.foldlM_append, hurl, Option.bind_eq_bind,
      Option.bind_some, List.foldlM_append, hfold, Option.bind_eq_bind, Option.bind_some,
      List.foldlM_cons]
    rfl

/-! ## Reading a message -/

open Session

variable {n : Nat} {w : RecvWatcher P} {v : Receiving}

/-- The watcher and the variables of a `receive` that has read `n` bytes of a message. -/
inductive Reading (m : Message) (after : Nat → P.State) : Nat → RecvWatcher P → Receiving → Prop
  | start (id : Nat) : Reading m after 0 (.new P id) .init
  | body {k : Nat} {w : RecvWatcher P} {v : Receiving} : k < m.body.length → w.parser = after k →
      v.headers.truthy = true → v.statusCode = .num m.statusCode → v.url = m.urlValue →
      v.isGzipped = false → v.body.flatten = m.body.take k →
      Reading m after (m.head.length + k) w v

/-- What `receive` returns is the message. -/
def Message.Is (m : Message) : Received → Prop
  | .response headers body _ statusCode _ url =>
    headers.truthy = true ∧ body = some m.body ∧ statusCode = .num m.statusCode ∧ url = m.urlValue
  | _ => False

/-- How a `receive` goes on that has read `n` bytes of a message. -/
def Goes (m : Message) (after : Nat → P.State) (n : Nat) (w : RecvWatcher P) :
    Receiving ⊕ Received → Prop
  | .inl v => n < m.text.length ∧ Reading m after n w v
  | .inr r => n = m.text.length ∧ m.Is r

/-- The headers of the message are in the result, or were in an earlier one. -/
def HeadersKnown (m : Message) (res : Fields) (v : Receiving) : Prop :=
  ((res.get (.str "headers")).truthy = true ∧ res.get (.str "status_code") = .num m.statusCode ∧
      res.get (.str "is_gzipped") = .nil) ∨
    (res.get (.str "headers") = .nil ∧ v.headers.truthy = true ∧ v.statusCode = .num m.statusCode)

/-- `receive` knows the headers after it has taken over what there is in the result. -/
theorem HeadersKnown.takeHeaders (h : HeadersKnown m res v) (hg : v.isGzipped = false) :
    (v.takeHeaders res).headers.truthy = true ∧
      (v.takeHeaders res).statusCode = .num m.statusCode ∧
      (v.takeHeaders res).isGzipped = false ∧ (v.takeHeaders res).url = v.url ∧
      (v.takeHeaders res).body = v.body := by
  have hnil : Value.nil.truthy = false := rfl
  rcases h with ⟨hh, hs, hz⟩ | ⟨hh, hv, hs⟩
  · simp [Receiving.takeHeaders, hh, hs, hz, hg, hnil]
  · simp [Receiving.takeHeaders, hh, hv, hs, hg, hnil]

/-- A round of the loop, on the result of a read. -/
theorem goes_of_fields (gunzip : Bytes → Except LuaError Bytes) {k : Nat} {b : Bytes} {u : Value}
    (hk : k ≤ m.body.length) (hw : w.parser = after k)
    (hres : ReadFields res u b (k = m.body.length)) (hknown : HeadersKnown m res v)
    (hurl : (if v.url.truthy then v.url else u) = m.urlValue) (hg : v.isGzipped = false)
    (hbody : v.body.flatten ++ b = m.body.take k) :
    Goes m after (m.head.length + k) w (receiveStep true gunzip v [.table res]) := by
  have hnil : Value.nil.truthy = false := rfl
  have hknown' : HeadersKnown m res { v with url := if v.url.truthy then v.url else u } := hknown
  obtain ⟨hheaders, hstatus, hgzip, hurl₁, hbody₁⟩ := hknown'.takeHeaders hg
  have hstep : receiveStep true gunzip v [.table res] =
      let v₁ := ({ v with url := if v.url.truthy then v.url else u } : Receiving).takeHeaders res
      if k = m.body.length then
        .inr ((v₁.takeBody true res).finish true gunzip (res.get (.str "passed")))
      else .inl (v₁.takeBody true res) := by
    simp only [receiveStep, hres.closed, hres.parseFailed, hres.url, hres.done, hnil]
    by_cases h : k = m.body.length <;> simp [h, Value.truthy]
  generalize ({ v with url := if v.url.truthy then v.url else u } : Receiving).takeHeaders res = v₁
    at *
  obtain ⟨parts, hparts, htake⟩ : ∃ parts : List Bytes, parts.flatten = m.body.take k ∧
      v₁.takeBody true res = { v₁ with body := parts } := by
    rw [← hbody]
    by_cases hb : b = []
    · exact ⟨v₁.body, by simp [hb, hbody₁], by simp [Receiving.takeBody, hres.body, hb]⟩
    · exact ⟨v₁.body ++ [b], by simp [hbody₁], by simp [Receiving.takeBody, hres.body, hb]⟩
  simp only [hstep, htake]
  split
  · rename_i h
    subst h
    rw [List.take_length] at hparts
    refine ⟨by simp [Message.text], ?_⟩
    simp [Receiving.finish, hgzip, Message.Is, hparts, hheaders, hstatus, hurl₁, hurl]
  · rename_i h
    have hlt : k < m.body.length := by omega
    have htext : m.head.length + k < m.text.length := by simp [Message.text, hlt]
    exact ⟨htext, .body hlt hw hheaders hstatus (hurl₁.trans hurl) hgzip hparts⟩

/-- A read of the first line, the headers, and the beginning of the body. -/
theorem reading_first (gunzip : Bytes → Except LuaError Bytes) (hP : P.Reads m after) (id : Nat)
    (passed : Int) {k : Nat} (hk : k ≤ m.body.length) :
    ∃ (w : RecvWatcher P) (args : List Value),
      cbRecv true (.new P id) (.got (m.head ++ m.body.take k) passed) = some (w, args) ∧
      Goes m after (m.head.length + k) w (receiveStep true gunzip .init args) := by
  obtain ⟨rest, fields, ptr, hexec, hfields, hg⟩ := hP.first k hk
  have hacc : (P.execute P.init (m.head ++ m.body.take k)).Accepts (m.head ++ m.body.take k) := by
    rw [hexec]
    exact ⟨by simp [hk], rfl⟩
  obtain ⟨n, res, hres, hhead⟩ := foldlM_message m id passed hfields hg rest ptr
    (bodyEvents (m.body.take k) ++ ending (k = m.body.length))
  obtain ⟨res', hbody, hres', hsame⟩ := foldlM_body id n hres.toReadFields (m.body.take k)
    (k = m.body.length)
  refine ⟨⟨id, after k, n⟩, [.table res'], ?_,
    goes_of_fields gunzip hk rfl hres' (.inl ⟨?_, ?_, ?_⟩) rfl rfl (by simp [Receiving.init])⟩
  · rw [cbRecv_got (w := .new P id) hacc]
    simp only [RecvWatcher.new]
    rw [hexec, hhead, hbody]
    rfl
  · rw [hsame _ (by decide)]
    exact hres.headers
  · rw [hsame _ (by decide)]
    exact hres.statusCode
  · rw [hsame _ (by decide)]
    exact hres.isGzipped

/-- A read of the body. -/
theorem reading_next (gunzip : Bytes → Except LuaError Bytes) (hP : P.Reads m after) (passed : Int)
    {k l : Nat} (hl : 0 < l) (hkl : k + l ≤ m.body.length) (hw : w.parser = after k)
    (hheaders : v.headers.truthy = true) (hstatus : v.statusCode = .num m.statusCode)
    (hurl : v.url = m.urlValue) (hg : v.isGzipped = false)
    (hbody : v.body.flatten = m.body.take k) :
    ∃ (w' : RecvWatcher P) (args : List Value),
      cbRecv true w (.got ((m.body.drop k).take l) passed) = some (w', args) ∧
      Goes m after (m.head.length + (k + l)) w' (receiveStep true gunzip v args) := by
  have hexec := hP.next k l hl hkl
  have hacc : (P.execute (after k) ((m.body.drop k).take l)).Accepts ((m.body.drop k).take l) := by
    rw [hexec]
    exact ⟨by simp; omega, rfl⟩
  have hres : ReadFields [(.str "passed", .num passed)] .nil [] false := ⟨rfl, rfl, rfl, rfl, rfl⟩
  obtain ⟨res', hfold, hres', hsame⟩ := foldlM_body w.coroutineId w.headersTableIndex hres
    ((m.body.drop k).take l) (k + l = m.body.length)
  have hurl' : (if v.url.truthy then v.url else .nil) = m.urlValue := by
    rw [hurl, Message.urlValue]
    split <;> rfl
  refine ⟨⟨w.coroutineId, after (k + l), w.headersTableIndex⟩, [.table res'], ?_,
    goes_of_fields gunzip hkl rfl hres' (.inr ⟨?_, hheaders, hstatus⟩) hurl' hg ?_⟩
  · rw [cbRecv_got (hw ▸ hacc), hw, hexec]
    simp only
    rw [hfold]
    rfl
  · rw [hsame _ (by decide)]
    rfl
  · rw [hbody, List.take_add]

/-- `receive` reads on: after the last byte it returns the message. -/
theorem Reading.step (gunzip : Bytes → Except LuaError Bytes) (hP : P.Reads m after)
    (hr : Reading m after n w v) {b : Bytes} (hb : b <+: m.text.drop n) (hne : b ≠ [])
    (hhead : n = 0 → m.head.length ≤ b.length) (passed : Int) :
    ∃ (w' : RecvWatcher P) (args : List Value), cbRecv true w (.got b passed) = some (w', args) ∧
      Goes m after (n + b.length) w' (receiveStep true gunzip v args) := by
  have hpos := List.length_pos_iff.2 hne
  have hle := hb.length_le
  rw [List.length_drop, Message.text, List.length_append] at hle
  cases hr with
  | start id =>
    have hlen := hhead rfl
    have heq : b = m.head ++ m.body.take (b.length - m.head.length) := by
      conv_lhs => rw [List.prefix_iff_eq_take.1 hb]
      rw [List.drop_zero, Message.text, List.take_append, List.take_of_length_le hlen]
    have hgo := reading_first gunzip hP id passed (k := b.length - m.head.length) (by omega)
    rwa [← heq, Nat.add_sub_cancel' hlen, ← Nat.zero_add b.length] at hgo
  | @body k w v hk hw hheaders hstatus hurl hg hbody =>
    have heq : b = (m.body.drop k).take b.length := by
      conv_lhs => rw [List.prefix_iff_eq_take.1 hb]
      rw [Message.text, List.drop_append, List.drop_of_length_le (by omega), List.nil_append,
        Nat.add_sub_cancel_left]
    have hgo := reading_next gunzip hP passed hpos (by omega) hw hheaders hstatus hurl hg hbody
    rwa [← heq, ← Nat.add_assoc] at hgo

/-! ## `http_parser` -/

namespace HttpParser

theorem loop_skip (ret : Nat) (p : Bytes) (e : Exec) : e.loop ret p p.length = (e.flush, []) := by
  induction p with
  | nil => rfl
  | cons c p ih => exact ih

/-- A read of a body whose length is known. -/
theorem execute_body {parser : HttpParser} (hs : parser.state = .bodyIdentity)
    (hf : parser.failed = false) {b : Bytes} (hb : b ≠ []) (hle : b.length ≤ parser.contentLength) :
    execute 0 parser b =
      ⟨bodyEvents b ++ ending (b.length = parser.contentLength), b.length,
        { parser with
          contentLength := parser.contentLength - b.length
          state := if b.length = parser.contentLength then
            ({ parser with contentLength := 0 } : HttpParser).newMessage else .bodyIdentity },
        parser.upgrade⟩ := by
  obtain ⟨ch, rest, rfl⟩ := List.exists_cons_of_ne_nil hb
  replace hle : rest.length + 1 ≤ parser.contentLength := hle
  have hmin : min parser.contentLength (rest.length + 1) = rest.length + 1 := Nat.min_eq_right hle
  have hmarks : initialMarks parser.state (ch :: rest) = fun _ => none := by
    funext kind
    cases kind <;> simp [initialMarks, hs]
  simp only [execute, hf, Bool.false_eq_true, if_false, reduceCtorEq, hmarks]
  by_cases h : rest.length + 1 = parser.contentLength
  · -- The last byte is executed again, and completes the message.
    simp [Exec.loop, Exec.step, hs, hf, State.parsingHeader, Exec.dispatch, Exec.bodyIdentity,
      Exec.readBody, ← h, Exec.mark, loop_skip, Exec.complete, Exec.goto, Exec.callbackData,
      Exec.flush, Exec.notify, bodyEvents, ending]
    rfl
  · have hsub : parser.contentLength - (rest.length + 1) ≠ 0 := by omega
    simp [Exec.loop, Exec.step, hs, hf, State.parsingHeader, Exec.dispatch, Exec.bodyIdentity,
      Exec.readBody, hmin, h, hsub, Exec.mark, loop_skip, Exec.callbackData, Exec.flush, bodyEvents,
      ending]

end HttpParser

namespace Message

/-- The parser after the headers of a response. -/
def afterHead (m : Message) : HttpParser := (HttpParser.execute 0 HttpParser.init m.head).next

/-- The parser after `k` bytes of the body of a response. -/
def afterBody (m : Message) (k : Nat) : HttpParser :=
  { m.afterHead with
    contentLength := m.body.length - k
    state := if k = m.body.length then
      ({ m.afterHead with contentLength := 0 } : HttpParser).newMessage else .bodyIdentity }

/-- The status line and the headers of a response, read with `k` bytes of the body. -/
def fields (m : Message) (k : Nat) : List Event :=
  ((HttpParser.execute 0 HttpParser.init m.head).events.tail.takeWhile (!·.isHeadersComplete)).map
    (Event.extend (m.body.take k))

instance (e : Event) : Decidable e.IsHead := by
  unfold Event.IsHead
  split <;> infer_instance

/-- `http_parser` finds the headers of a response, read with `k` bytes of the body, and the
    length of the body. -/
def Parsed (m : Message) (k : Nat) : Prop :=
  let e := HttpParser.execute 0 HttpParser.init (m.head ++ m.body.take k)
  (e.events = .messageBegin :: (m.fields k ++
      .headersComplete (10 :: m.body.take k) m.statusCode m.keepAlive ::
        (bodyEvents (m.body.take k) ++ ending (k = m.body.length))) ∧
    e.nparsed = m.head.length + k ∧ e.next = m.afterBody k ∧ e.upgrade = false) ∧
  (∀ e ∈ m.fields k, e.IsHead) ∧ (m.fields k).any Event.isGzip = false

instance (m : Message) (k : Nat) : Decidable (m.Parsed k) := by
  unfold Parsed
  infer_instance

/-- `http_parser` reads a response whose headers it parses. -/
theorem reads {m : Message} (hurl : m.url = none)
    (hhead : m.afterHead.failed = false ∧ m.afterHead.upgrade = false)
    (h : ∀ k ≤ m.body.length, m.Parsed k) : httpParser.Reads m m.afterBody where
  first k hk := by
    obtain ⟨⟨hevents, hn, hnext, hup⟩, hfields, hg⟩ := h k hk
    refine ⟨[], m.fields k, 10 :: m.body.take k, ?_, hfields, hg⟩
    rw [hurl, urlEvents, List.nil_append, ← hevents, ← hn, ← hnext, ← hup]
    rfl
  next k l hl hkl := by
    have hk : k ≠ m.body.length := by omega
    have hlen : ((m.body.drop k).take l).length = l := by
      rw [List.length_take, List.length_drop]
      omega
    have hb : (m.body.drop k).take l ≠ [] := List.ne_nil_of_length_pos (hlen.symm ▸ hl)
    have hlast : l = m.body.length - k ↔ k + l = m.body.length := by omega
    have hs : (m.afterBody k).state = .bodyIdentity := by simp [afterBody, hk]
    have hf : (m.afterBody k).failed = false := hhead.1
    have hc : (m.afterBody k).contentLength = m.body.length - k := rfl
    have hexec := HttpParser.execute_body hs hf hb (by omega)
    simp only [hlen, hc, hlast] at hexec
    refine hexec.trans ?_
    simp only [afterBody, Nat.sub_sub, hhead.2]
    rfl

end Message

end Mistress
