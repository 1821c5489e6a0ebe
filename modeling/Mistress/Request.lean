import Mistress.RequestLine
import Mistress.Delivery

/-!
# Requests

What the parser for requests makes of a request whose body is as long as its headers tell:
it reports the URL, the headers and the body, and the end of the message right after the last
byte. However the reads cut the body, as long as the headers come in one of them, so it does
(`Request.reads`); this is what is left open of the parser in `Message`.
-/

open LuaStack

namespace Mistress

open HttpParser

namespace HttpParser.RequestExec

variable {p : HttpParser} {ch : UInt8} {rest : Bytes}

/-! ## The headers in longer buffers -/

theorem fieldStep_extend (e : Exec) (ch : UInt8) (rest z : Bytes) :
    fieldStep (e.extend z) ch (rest ++ z) = Exec.extendResult z (fieldStep e ch rest) := by
  unfold fieldStep
  by_cases hin : inField e.parser.state ch = true
  · have hstraddles : ¬e.Straddles (rest.length + 1) := by
      unfold Exec.Straddles
      cases hs : e.parser.state with
      | bodyIdentity | bodyIdentityEof | chunkData =>
        rw [hs] at hin
        cases hin
      | _ => simp
    have hin' : inField (e.extend z).parser.state ch = true := hin
    rw [if_pos hin, if_pos hin', Exec.step_extend hstraddles]
  · have hin' : ¬inField (e.extend z).parser.state ch = true := hin
    rw [if_neg hin, if_neg hin']
    rfl

/-- The marks in a longer buffer. -/
def extendMarks (z : Bytes) (s : HttpParser × (Kind → Option Bytes)) :
    HttpParser × (Kind → Option Bytes) := (s.1, fun k => (s.2 k).map (· ++ z))

theorem run_extend {s s' : HttpParser × (Kind → Option Bytes)} {x y : Bytes} {es : List Event}
    (h : Scan.Run (Exec.scanner fieldStep) s x y es s') (z : Bytes) :
    Scan.Run (Exec.scanner fieldStep) (extendMarks z s) x (y ++ z) (es.map (Event.extend z))
      (extendMarks z s') := by
  refine h.map (extendMarks z) (Event.extend z) z fun {s ch rest s' es n} hstep => ?_
  have hextend := fieldStep_extend ⟨s.1, s.2, []⟩ ch rest z
  unfold Exec.scanner at hstep ⊢
  change fieldStep ⟨s.1, fun k => (s.2 k).map (· ++ z), []⟩ ch (rest ++ z) = _ at hextend
  simp only [extendMarks, hextend]
  split at hstep
  · rename_i e m heq
    obtain ⟨rfl, rfl, rfl⟩ := by simpa using hstep
    rw [heq]
    rfl
  · cases hstep

theorem fieldsEvents_extend (fields : List Field) (y z : Bytes) :
    (fieldsEvents fields y).map (Event.extend z) = fieldsEvents fields (y ++ z) := by
  induction fields with
  | nil => rfl
  | cons f fields ih =>
    rw [fieldsEvents, fieldsEvents, List.map_append, ih]
    refine congrArg (· ++ _) ?_
    by_cases hvalue : f.value = [] <;> simp [Field.events, Event.extend, hvalue]

/-- The headers, whatever follows. -/
theorem run_fields_rest (fields : List Field) (hok : ∀ f ∈ fields, f.Ok)
    (hs : p.state = .headerFieldStart)
    (hn : p.nread + ((fieldsText fields).length + 1) ≤ HTTP_MAX_HEADER_SIZE) :
    ∃ (hstate : HeaderState) (index : Nat), ∀ (m : Method) (z : Bytes),
      Scan.Run scanner (⟨none, m, p⟩, noMarks) (fieldsText fields ++ [CR]) z
        (fieldsEvents fields (CR :: z))
        (⟨none, m, { p with
          state := .headersAlmostDone
          flags := (fieldsApply fields (p.flags, p.contentLength)).1
          contentLength := (fieldsApply fields (p.flags, p.contentLength)).2
          headerState := hstate, index
          nread := p.nread + ((fieldsText fields).length + 1) }⟩, noMarks) := by
  obtain ⟨hstate, index, hrun⟩ := run_fields readsHeaders_fieldStep fields hok
    (.refl _ _ (p, noMarks)) hs hn []
  refine ⟨hstate, index, fun m z => ?_⟩
  have hz := run_field (run_extend hrun z) m
  rw [List.nil_append, List.nil_append, fieldsEvents_extend] at hz
  exact hz

/-! ## The end of the headers and the body -/

/-- The parser after a message. -/
def finished (m : Method) (p : HttpParser) : RequestParser :=
  if p.requestShouldKeepAlive then ⟨some .startReq, m, p⟩ else ⟨none, m, { p with state := .dead }⟩

theorem complete_eq (m : Method) (p : HttpParser) (marks : Kind → Option Bytes) (es : List Event) :
    complete ⟨none, m, ⟨p, marks, es⟩⟩ = ⟨(finished m p).line, (finished m p).method,
      ⟨(finished m p).parser, marks, es ++ [.messageComplete]⟩⟩ := by
  unfold complete finished
  split <;> rfl

/-- The parser after the headers of a request with no chunks. -/
def afterHeaders (m : Method) (p : HttpParser) : RequestParser :=
  if p.contentLength = 0 ∨ p.contentLength = ULLONG_MAX then
    finished m { p with state := .headersDone, upgrade := false, nread := 0 }
  else ⟨none, m, { p with state := .bodyIdentity, upgrade := false, nread := 0 }⟩

/-- The line feed that ends the headers of a request with no chunks. -/
theorem scanner_headersEnd {m : Method} (hm : m ≠ .connect) (hs : p.state = .headersAlmostDone)
    (hn : p.nread + 1 ≤ HTTP_MAX_HEADER_SIZE) (htrailing : p.flags.trailing = false)
    (hup : p.flags.upgrade = false) (hskip : p.flags.skipbody = false)
    (hchunked : p.flags.chunked = false) (y : Bytes) :
    scanner (⟨none, m, p⟩, noMarks) LF y = some ((afterHeaders m p, noMarks),
      .headersComplete (LF :: y) p.statusCode p.requestShouldKeepAlive ::
        ending (p.contentLength = 0 ∨ p.contentLength = ULLONG_MAX), 0) := by
  have hmax : ¬HTTP_MAX_HEADER_SIZE < p.nread + 1 := Nat.not_lt.2 hn
  have hkeep : ({ p with state := .headersDone, upgrade := false, nread := p.nread + 1 } :
      HttpParser).requestShouldKeepAlive = p.requestShouldKeepAlive := rfl
  have hstep : step ⟨none, m, ⟨p, noMarks, []⟩⟩ LF y =
      (⟨(afterHeaders m p).line, (afterHeaders m p).method, ⟨(afterHeaders m p).parser, noMarks,
        .headersComplete (LF :: y) p.statusCode p.requestShouldKeepAlive ::
          ending (p.contentLength = 0 ∨ p.contentLength = ULLONG_MAX)⟩⟩, .advance 0) := by
    simp only [step, parsingHeader, Option.isSome_none, Bool.false_or, if_neg hmax, dispatch,
      dispatchRest, hs, headersAlmostDone, ne_eq, not_true_eq_false, if_false, htrailing,
      Bool.false_eq_true, hup, hm, decide_false, Exec.notify, hkeep, headersDone, hskip, hchunked,
      complete_eq]
    unfold afterHeaders
    by_cases hnone : p.contentLength = 0 ∨ p.contentLength = ULLONG_MAX
    · rw [if_pos hnone, decide_eq_true hnone]
      by_cases hzero : p.contentLength = 0
      · rw [if_pos hzero]
        rfl
      · rw [if_neg hzero, if_neg (not_not.2 (hnone.resolve_left hzero))]
        rfl
    · obtain ⟨hzero, hlength⟩ := not_or.1 hnone
      rw [if_neg hnone, decide_eq_false hnone, if_neg hzero, if_pos hlength]
      rfl
  simp only [scanner, hstep]

/-- The parser after `n` bytes of a body. -/
def afterBody (m : Method) (p : HttpParser) (n : Nat) : RequestParser :=
  if n = p.contentLength then finished m { p with state := .messageDone, contentLength := 0 }
  else ⟨none, m, { p with contentLength := p.contentLength - n }⟩

theorem read_length (b : Bytes) (s : RequestParser × (Kind → Option Bytes)) :
    read b b.length s = read [] 0 s := by
  have h := reader.drop (x := b) (y := []) le_rfl s
  rwa [List.append_nil, List.drop_length] at h

theorem read_nil_noMarks (p : RequestParser) : read [] 0 (p, noMarks) = ([], p, noMarks, []) := rfl

theorem read_nil_only (p : RequestParser) (k : Kind) (ptr : Bytes) :
    read [] 0 (p, only k ptr) = ([.data k ptr ptr.length], p, noMarks, []) := by
  simp only [read, loop, Exec.flush_only]
  rfl

/-- A read of a body, perhaps to its end. -/
theorem read_body (m : Method) (hs : p.state = .bodyIdentity) {b : Bytes} (hb : b ≠ [])
    (hle : b.length ≤ p.contentLength) :
    read b 0 (⟨none, m, p⟩, noMarks) =
      (bodyEvents b ++ ending (b.length = p.contentLength), afterBody m p b.length, noMarks,
        []) := by
  obtain ⟨ch, rest, rfl⟩ := List.exists_cons_of_ne_nil hb
  rw [List.length_cons] at hle ⊢
  have hread := Exec.readBody_noMarks p (ch :: rest)
  rw [List.length_cons, Nat.min_eq_right hle] at hread
  have hbody : bodyEvents (ch :: rest) = [.data .body (ch :: rest) (rest.length + 1)] := by
    simp [bodyEvents]
  by_cases h : rest.length + 1 = p.contentLength
  · have hstep : scanner (⟨none, m, p⟩, noMarks) ch rest =
        some ((afterBody m p (rest.length + 1), noMarks),
          [.data .body (ch :: rest) (rest.length + 1), .messageComplete], rest.length) := by
      rw [← h, Nat.sub_self] at hread
      have hdrop : (ch :: rest).drop (rest.length + 1) = [] := List.drop_length
      simp only [scanner, step, parsingHeader, hs, Option.isSome_none, State.parsingHeader,
        dispatch, dispatchRest, bodyIdentity, hread, Bool.or_self, Bool.false_eq_true, if_false,
        if_true, Exec.goto, hdrop, Exec.callbackData_only, complete_eq, afterBody, if_pos h,
        Nat.add_sub_cancel]
      rfl
    rw [reader.advance hstep, read_length, read_nil_noMarks, hbody, decide_eq_true h]
    rfl
  · have hleft : p.contentLength - (rest.length + 1) ≠ 0 := by omega
    have hstep : scanner (⟨none, m, p⟩, noMarks) ch rest =
        some ((afterBody m p (rest.length + 1), only .body (ch :: rest)), [], rest.length) := by
      simp only [scanner, step, parsingHeader, hs, Option.isSome_none, State.parsingHeader,
        dispatch, dispatchRest, bodyIdentity, hread, Bool.or_self, Bool.false_eq_true, if_false,
        if_neg hleft, afterBody, if_neg h, Nat.add_sub_cancel]
    rw [reader.advance hstep, read_length, read_nil_only, hbody, decide_eq_false h]
    rfl

end HttpParser.RequestExec

/-! ## Requests -/

/-- A request, with the length of its body among the headers if it has one. -/
structure Request where
  method : Method
  url : Bytes
  major : Fin 10
  minor : Fin 10
  fields : List Field
  body : Bytes

namespace Request

/-- The end of the request line. -/
def version (r : Request) : Bytes :=
  [byte 'H', byte 'T', byte 'T', byte 'P', byte '/', digit r.major, byte '.', digit r.minor, CR, LF]

/-- The request line. -/
def line (r : Request) : Bytes := r.method.text ++ [SP] ++ (r.url ++ [SP] ++ r.version)

/-- The request line and the headers. -/
def head (r : Request) : Bytes := r.line ++ (fieldsText r.fields ++ [CR, LF])

/-- The parser at the end of the headers, but for what it knows of the last of them. -/
def parsed (r : Request) : HttpParser :=
  let said := fieldsApply r.fields (.zero, ULLONG_MAX)
  { HttpParser.init with
    state := .headersAlmostDone
    flags := said.1
    contentLength := said.2
    httpMajor := r.major
    httpMinor := r.minor
    nread := r.line.length + ((fieldsText r.fields).length + 1) }

/-- The request is what the parser is for. -/
structure Ok (r : Request) : Prop where
  method : r.method ≠ .connect
  url : isUrl r.url = true
  major : r.major ≠ 0
  fields : ∀ f ∈ r.fields, f.Ok
  upgrade : r.parsed.flags.upgrade = false
  chunked : r.parsed.flags.chunked = false
  head_le : r.head.length ≤ HTTP_MAX_HEADER_SIZE
  length : r.parsed.contentLength = r.body.length ∨
    r.body = [] ∧ r.parsed.contentLength = ULLONG_MAX
  body_lt : r.body.length < ULLONG_MAX

/-- What the receiver is to read. -/
def message (r : Request) : Message where
  head := r.head
  body := r.body
  url := some r.url
  statusCode := 0
  keepAlive := r.parsed.requestShouldKeepAlive

open RequestExec

variable {r : Request}

theorem head_eq (r : Request) (z : Bytes) :
    r.head ++ z = r.line ++ (fieldsText r.fields ++ [CR]) ++ LF :: z := by
  simp [head]

/-- The request line and the headers, up to the last line feed. -/
theorem run_head (hr : r.Ok) : ∃ (hstate : HeaderState) (index : Nat), ∀ z,
    Scan.Run scanner (RequestParser.init, noMarks) (r.line ++ (fieldsText r.fields ++ [CR])) z
      (.messageBegin :: (urlEvents (some r.url)
        (SP :: (r.version ++ (fieldsText r.fields ++ [CR] ++ z))) ++
          fieldsEvents r.fields (CR :: z)))
      (⟨none, r.method, { r.parsed with headerState := hstate, index }⟩, noMarks) := by
  have hlen := hr.head_le
  have hline : r.line.length = r.method.text.length + 1 + (r.url.length + 1 + 10) := by
    simp [line, version]
    omega
  simp only [head, List.length_append, List.length_cons, List.length_nil] at hlen
  let p₁ : HttpParser := { HttpParser.init with
    contentLength := ULLONG_MAX
    index := r.method.text.length + 1
    nread := 0 + (r.method.text.length + 1) }
  let p₂ : HttpParser := { p₁ with nread := p₁.nread + (r.url.length + 1) }
  let p₃ : HttpParser := { p₂ with
    state := .headerFieldStart, httpMajor := r.major, httpMinor := r.minor, nread := p₂.nread + 10 }
  have hnread : p₃.nread = r.line.length := by
    simp only [p₃, p₂, p₁]
    omega
  obtain ⟨hstate, index, hfields⟩ := run_fields_rest (p := p₃) r.fields hr.fields rfl
    (by rw [hnread]; omega)
  refine ⟨hstate, index, fun z => ?_⟩
  have hmethod := run_method (p := HttpParser.init) r.method .delete
    (r.url ++ [SP] ++ r.version ++ (fieldsText r.fields ++ [CR] ++ z))
    (by simp only [HttpParser.init]; omega)
  have hurl := run_url (p := p₁) hr.url hr.method (r.version ++ (fieldsText r.fields ++ [CR] ++ z))
    (by simp only [p₁]; omega)
  have hversion := run_version (p := p₂) (m := r.method) hr.major r.minor
    (fieldsText r.fields ++ [CR] ++ z) (by simp only [p₂, p₁]; omega)
  have hrun := (hmethod.trans (hurl.trans hversion)).trans (hfields r.method z)
  rw [hnread] at hrun
  exact hrun

/-- The parser after the request line, the headers and `k` bytes of the body. -/
def after (r : Request) (k : Nat) : RequestParser :=
  (RequestParser.execute RequestParser.init (r.head ++ r.body.take k)).next

/-- What an execution of a parser that is not in a string is: a run over the bytes. -/
theorem execute_of_ne_nil {p : RequestParser} {b : Bytes} (hf : p.parser.failed = false)
    (hb : b ≠ []) (hmarks : p.initialMarks b = noMarks) : RequestParser.execute p b =
      let x := read b 0 (p, noMarks)
      ⟨x.1, b.length - x.2.2.2.length, x.2.1, x.2.1.parser.upgrade⟩ := by
  unfold RequestParser.execute
  rw [if_neg (by simp [hf]), if_neg hb, hmarks]
  rfl

/-- A read of the headers, and of the beginning of the body. -/
theorem read_head (hr : r.Ok) : ∃ q : HttpParser, q.upgrade = false ∧ q.failed = false ∧
    (r.body ≠ [] → q.state = .bodyIdentity ∧ q.contentLength = r.body.length) ∧
    ∀ k ≤ r.body.length, read (r.head ++ r.body.take k) 0 (RequestParser.init, noMarks) =
      (.messageBegin :: (urlEvents (some r.url)
          (SP :: (r.version ++ (fieldsText r.fields ++ [CR] ++ LF :: r.body.take k))) ++
            fieldsEvents r.fields (CR :: LF :: r.body.take k) ++
            .headersComplete (LF :: r.body.take k) 0 r.parsed.requestShouldKeepAlive ::
              (bodyEvents (r.body.take k) ++ ending (k = r.body.length))),
        if r.body = [] then finished r.method q else afterBody r.method q k, noMarks, []) := by
  obtain ⟨hstate, index, hrun⟩ := run_head hr
  have hlen := hr.head_le
  simp only [head, List.length_append, List.length_cons, List.length_nil] at hlen
  have hflags := Exec.flags_fieldsApply r.fields (.zero, ULLONG_MAX)
  let q₀ : HttpParser := { r.parsed with headerState := hstate, index }
  have hend (z : Bytes) := (hrun (LF :: z)).concat (scanner_headersEnd (p := q₀) hr.method rfl
    (by simp only [q₀, parsed]; omega) hflags.1 hr.upgrade hflags.2 hr.chunked z)
  have hread (z : Bytes) := reader.run (hend z)
  have htext (z : Bytes) : r.head ++ z = r.line ++ (fieldsText r.fields ++ [CR]) ++ [LF] ++ z := by
    rw [head_eq]
    simp
  have hlength : q₀.contentLength = r.body.length ∨ r.body = [] ∧ q₀.contentLength = ULLONG_MAX :=
    hr.length
  have hstatus : q₀.statusCode = 0 := rfl
  have hkeep : q₀.requestShouldKeepAlive = r.parsed.requestShouldKeepAlive := rfl
  by_cases hbody : r.body = []
  · have hnone : q₀.contentLength = 0 ∨ q₀.contentLength = ULLONG_MAX := by
      rcases hlength with h | ⟨-, h⟩
      · exact .inl (by rw [h, hbody, List.length_nil])
      · exact .inr h
    refine ⟨{ q₀ with state := .headersDone, upgrade := false, nread := 0 }, rfl, rfl,
      fun h => absurd hbody h, fun k hk => ?_⟩
    obtain rfl : k = 0 := by simpa [hbody] using hk
    rw [htext, hread, afterHeaders, if_pos hnone, if_pos hbody, List.take_zero, read_nil_noMarks,
      decide_eq_true hnone, hbody, hstatus, hkeep]
    simp [bodyEvents]
  · have hpos := List.length_pos_iff.2 hbody
    have hcl : q₀.contentLength = r.body.length := hlength.resolve_right fun h => hbody h.1
    have hsome : ¬(q₀.contentLength = 0 ∨ q₀.contentLength = ULLONG_MAX) := by
      have := hr.body_lt
      omega
    let q : HttpParser := { q₀ with state := .bodyIdentity, upgrade := false, nread := 0 }
    refine ⟨q, rfl, rfl, fun _ => ⟨rfl, hcl⟩, fun k hk => ?_⟩
    have hbegin : read (r.body.take k) 0 (⟨none, r.method, q⟩, noMarks) =
        (bodyEvents (r.body.take k) ++ ending (k = r.body.length), afterBody r.method q k, noMarks,
          []) := by
      obtain rfl | hk₀ := Nat.eq_zero_or_pos k
      · have hafter : afterBody r.method q 0 = ⟨none, r.method, q⟩ :=
          if_neg (by simp only [q, hcl]; omega)
        have hzero : ¬0 = r.body.length := by omega
        rw [hafter, List.take_zero, read_nil_noMarks, decide_eq_false hzero]
        rfl
      · have htake : (r.body.take k).length = k := List.length_take_of_le hk
        have hb : r.body.take k ≠ [] := List.ne_nil_of_length_pos (by omega)
        have hcl' : q.contentLength = r.body.length := hcl
        rw [read_body r.method rfl hb (by rw [htake, hcl']; exact hk), htake, hcl']
    rw [htext, hread, afterHeaders, if_neg hsome, if_neg hbody, decide_eq_false hsome, hbegin,
      hstatus, hkeep]
    simp [ending]

theorem finished_flags (m : Method) (p : HttpParser) :
    (finished m p).parser.upgrade = p.upgrade ∧ (finished m p).parser.failed = p.failed := by
  unfold finished
  split <;> exact ⟨rfl, rfl⟩

theorem afterBody_flags (m : Method) (p : HttpParser) (n : Nat) :
    (afterBody m p n).parser.upgrade = p.upgrade ∧ (afterBody m p n).parser.failed = p.failed := by
  unfold afterBody
  split
  · exact finished_flags m _
  · exact ⟨rfl, rfl⟩

/-- The parser reads a request, in any number of parts but for the headers. -/
theorem reads (hr : r.Ok) (hgzip : (r.fields.any fun f => f.value = bytes "gzip") = false) :
    requestParser.Reads r.message r.after := by
  obtain ⟨q, hup, hfailed, hbody, hread⟩ := read_head hr
  have hne (z : Bytes) : r.head ++ z ≠ [] := by
    rw [head_eq]
    simp
  let next (k : Nat) : RequestParser :=
    if r.body = [] then finished r.method q else afterBody r.method q k
  have hupgrade (k : Nat) : (next k).parser.upgrade = false := by
    simp only [next]
    split
    · exact (finished_flags r.method q).1.trans hup
    · exact (afterBody_flags r.method q k).1.trans hup
  have hexecute {k : Nat} (hk : k ≤ r.body.length) :
      RequestParser.execute RequestParser.init (r.head ++ r.body.take k) =
        ⟨.messageBegin :: (urlEvents (some r.url)
            (SP :: (r.version ++ (fieldsText r.fields ++ [CR] ++ LF :: r.body.take k))) ++
              fieldsEvents r.fields (CR :: LF :: r.body.take k) ++
              .headersComplete (LF :: r.body.take k) 0 r.parsed.requestShouldKeepAlive ::
                (bodyEvents (r.body.take k) ++ ending (k = r.body.length))),
          r.head.length + k, next k, false⟩ := by
    rw [execute_of_ne_nil rfl (hne _) rfl, hread k hk]
    have hlength : (r.head ++ r.body.take k).length - ([] : Bytes).length = r.head.length + k := by
      rw [List.length_append, List.length_take_of_le hk, List.length_nil, Nat.sub_zero]
    simp only [hlength]
    exact congrArg _ (hupgrade k)
  have hafter {k : Nat} (hk : k ≤ r.body.length) : r.after k = next k := by
    rw [after, hexecute hk]
  refine ⟨fun k hk => ?_, fun k n hn hkn => ?_⟩
  · refine ⟨SP :: (r.version ++ (fieldsText r.fields ++ [CR] ++ LF :: r.body.take k)),
      fieldsEvents r.fields (CR :: LF :: r.body.take k), LF :: r.body.take k, ?_,
      Response.isHead_fieldsEvents r.fields _, ?_⟩
    · rw [hafter hk]
      exact hexecute hk
    · exact (any_isGzip_fieldsEvents r.fields _).trans hgzip
  · change k + n ≤ r.body.length at hkn
    change RequestParser.execute (r.after k) ((r.body.drop k).take n) =
      ⟨bodyEvents ((r.body.drop k).take n) ++ ending (k + n = r.body.length), n, r.after (k + n),
        false⟩
    have hb₀ : r.body ≠ [] := List.ne_nil_of_length_pos (by omega)
    obtain ⟨hs, hcl⟩ := hbody hb₀
    have hb : ((r.body.drop k).take n).length = n := by
      rw [List.length_take, List.length_drop]
      omega
    have hnext {k : Nat} (hk : k < r.body.length) :
        next k = ⟨none, r.method, { q with contentLength := r.body.length - k }⟩ := by
      simp only [next, if_neg hb₀, afterBody, hcl, if_neg (Nat.ne_of_lt hk)]
    have hk : k < r.body.length := by omega
    have hread := read_body (p := { q with contentLength := r.body.length - k }) r.method hs
      (b := (r.body.drop k).take n) (List.ne_nil_of_length_pos (by omega))
      (by rw [hb]; exact Nat.le_sub_of_add_le' hkn)
    rw [hb] at hread
    have hends : n = r.body.length - k ↔ k + n = r.body.length := by omega
    have hcompose : afterBody r.method { q with contentLength := r.body.length - k } n =
        next (k + n) := by
      by_cases h : k + n = r.body.length
      · simp only [next, if_neg hb₀, afterBody, if_pos (hends.2 h), hcl, if_pos h]
      · rw [hnext (by omega)]
        simp only [afterBody, if_neg (mt hends.1 h), Nat.sub_sub]
    rw [hafter (by omega), hafter hkn, hnext hk]
    have hmarks : RequestParser.initialMarks ⟨none, r.method,
        { q with contentLength := r.body.length - k }⟩ ((r.body.drop k).take n) = noMarks :=
      initialMarks_none (s := q.state) (by rw [hs]; rfl) _
    rw [execute_of_ne_nil hfailed (List.ne_nil_of_length_pos (by omega)) hmarks, hread]
    simp only [hcompose, hupgrade, hb, hends, List.length_nil, Nat.sub_zero]

end Request

/-! ## `receive` -/

section Receive

variable {P : Parser} {m : Message} {after : Nat → P.State}

/-- `receive` reads on to the end of a message. -/
theorem Reading.receiveLoop (gunzip : Bytes → Except LuaError Bytes) (hP : P.Reads m after)
    {reads : List (Bytes × Int)} (hne : ∀ r ∈ reads, r.1 ≠ []) {n : Nat} {w : RecvWatcher P}
    {v : Session.Receiving} (hr : Reading m after n w v) (hn : n < m.text.length)
    (hjoined : joined reads = m.text.drop n)
    (hhead : n = 0 → ∀ r ∈ reads.head?, m.head.length ≤ r.1.length) :
    ∃ o, Session.receiveLoop true gunzip w v (reads.map fun r => .got r.1 r.2) = .returned o ∧
      m.Is o := by
  induction reads generalizing n w v with
  | nil =>
    have hdrop : m.text.drop n = [] := hjoined.symm
    exact absurd hn (Nat.not_lt.2 (List.drop_eq_nil_iff.1 hdrop))
  | cons r reads ih =>
    obtain ⟨hr₁, hne⟩ := List.forall_mem_cons.1 hne
    have hsplit : r.1 ++ joined reads = m.text.drop n := hjoined
    obtain ⟨w', args, hrecv, hgoes⟩ := hr.step gunzip hP ⟨joined reads, hsplit⟩ hr₁
      (fun h => hhead h r (by simp)) r.2
    rw [List.map_cons, Session.receiveLoop, hrecv]
    dsimp only
    generalize Session.receiveStep true gunzip v args = next at hgoes
    cases next with
    | inl v' =>
      obtain ⟨hlt, hreading⟩ := hgoes
      refine ih hne hreading hlt ?_ fun h => ?_
      · rw [← List.drop_drop, ← hsplit, List.drop_left]
      · have := List.length_pos_iff.2 hr₁
        omega
    | inr o => exact ⟨o, rfl, hgoes.2⟩

end Receive

theorem Request.text_pos (r : Request) : 0 < r.message.text.length := by
  have hhead := r.head_eq r.message.body
  change 0 < (r.head ++ r.message.body).length
  rw [hhead, List.length_append, List.length_cons]
  omega

/-- The handler of the worker gets a request however the reads cut it, as long as the first holds
    the request line and the headers. -/
theorem Request.received {r : Request} (hr : r.Ok)
    (hgzip : (r.fields.any fun f => f.value = bytes "gzip") = false) (c : Cutting r.message.text)
    (hfirst : ∀ read ∈ c.reads.head?, r.head.length ≤ read.1.length) (id : Nat)
    (gunzip : Bytes → Except LuaError Bytes) :
    ∃ o, Session.receive requestParser id true gunzip (c.reads.map fun r => .got r.1 r.2) =
      .returned o ∧ r.message.Is o := by
  exact Reading.receiveLoop gunzip (r.reads hr hgzip) c.ne_nil (.start id) r.text_pos c.joined
    fun _ => hfirst

namespace Request

/-- A request with a body. -/
def withBody : Request where
  method := .post
  url := bytes "/start/7/8"
  major := Response.one
  minor := Response.one
  fields := [.spaced (bytes "Content-Length") (bytes "6") (by decide)]
  body := bytes "return"

theorem withBody_ok : withBody.Ok where
  method := by decide
  url := by decide +kernel
  major := by decide
  fields := by
    rintro f hf
    obtain rfl := List.mem_singleton.1 hf
    exact fun _ => ⟨List.all_iff_forall_prop.1 (by decide), by decide⟩
  upgrade := by decide
  chunked := by decide
  head_le := by decide
  length := by decide
  body_lt := by decide

/-- The request in three reads, the first of them with the beginning of the body. -/
def inReads : Cutting withBody.message.text :=
  ⟨[(withBody.head ++ bytes "r", 3), (bytes "et", 5), (bytes "urn", 8)], by decide, by decide,
    by decide⟩

theorem received_inReads : ∃ o, Session.receive requestParser 1 true .ok
    (inReads.reads.map fun r => .got r.1 r.2) = .returned o ∧ withBody.message.Is o :=
  received withBody_ok (by decide) inReads (by decide) 1 .ok

end Request

end Mistress
