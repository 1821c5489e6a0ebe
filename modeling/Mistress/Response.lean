import Mistress.Chunks

/-!
# Responses

The responses `http_parser` is for, and what it makes of them (`execute_eq`): it
reports the reason, the headers, the data and the trailer, and the end of the response if
its headers tell where it is (`Framing`).

So it `Implements` what is known of it (`Response.read_as_framed`), however the end of a
response is found.
-/

open LuaStack

namespace Mistress

open HttpParser

/-- The body of a response as it is sent. -/
inductive Content
  | plain (body : Bytes)
  | chunked (chunks : List Chunk) (last : ChunkLine 0) (trailer : List Field)

namespace Content

def text : Content → Bytes
  | plain body => body
  | chunked chunks last trailer =>
    chunksText chunks ++ (last.text ++ (fieldsText trailer ++ [CR, LF]))

/-- The data. -/
def body : Content → Bytes
  | plain body => body
  | chunked chunks _ _ => chunks.flatMap Chunk.data

def trailer : Content → List Field
  | plain _ => []
  | chunked _ _ trailer => trailer

/-- The events of the body and the trailer. -/
def events : Content → List Event
  | plain body => bodyEvents body
  | chunked chunks last trailer =>
    chunksEvents chunks (last.text ++ (fieldsText trailer ++ [CR, LF])) ++
      fieldsEvents trailer [CR, LF]

/-- The body ends where it should. -/
def Fits : Content → Framing → Prop
  | plain body, .length n => body.length = n
  | plain body, .noBody _ => body = []
  | plain _, .close => True
  | chunked _ _ trailer, .chunked =>
    (∀ f ∈ trailer, f.Ok) ∧ (fieldsText trailer).length + 2 ≤ HTTP_MAX_HEADER_SIZE
  | _, _ => False

end Content

/-- How the parser would find the end of a response, at the end of its headers. -/
def HttpParser.framing (p : HttpParser) : Framing :=
  if p.flags.chunked then .chunked
  else if p.contentLength ≠ ULLONG_MAX then .length p.contentLength
  else if p.messageNeedsEof then .close
  else .noBody .nothing

/-- What the headers say of a body: chunks go before a length. -/
def announced (fields : List Field) : Announced :=
  if fields.any (·.kind = .transferEncoding) then .chunked
  else match fields.find? (·.kind = .contentLength) with
    | some f => .length (decimal f.value)
    | none => .nothing

/-- A response. -/
structure Response where
  line : StatusLine
  fields : List Field
  content : Content

namespace Response

/-- The status line and the headers. -/
def head (r : Response) : Bytes := r.line.text ++ (fieldsText r.fields ++ [CR, LF])

def text (r : Response) : Bytes := r.head ++ r.content.text

/-- The parser at the end of the headers, but for what it knows of the last of them. -/
def parsed (r : Response) : HttpParser :=
  let said := fieldsApply r.fields (r.line.parsed.flags, r.line.parsed.contentLength)
  { r.line.parsed with
    state := .headersAlmostDone
    flags := said.1
    contentLength := said.2
    nread := r.line.text.length + ((fieldsText r.fields).length + 1) }

/-- The status says that there is no body. -/
def Bodiless (r : Response) : Prop :=
  r.line.statusCode / 100 = 1 ∨ r.line.statusCode = 204 ∨ r.line.statusCode = 304

instance (r : Response) : Decidable r.Bodiless := inferInstanceAs (Decidable (_ ∨ _ ∨ _))

/-- How the end of the response is found, by its status and its headers. -/
def framing (r : Response) : Framing :=
  if r.Bodiless then .noBody (announced r.fields)
  else match announced r.fields with
    | .chunked => .chunked
    | .length n => .length n
    | .nothing => .close

/-- What comes after the headers, from the line feed on. -/
def after (r : Response) : Bytes := LF :: r.content.text

/-- The events of the status line and the headers, `y` being what follows from the last line
    feed on. -/
def headEvents (r : Response) (y : Bytes) : List Event :=
  r.line.events (fieldsText r.fields ++ [CR] ++ y) ++ fieldsEvents r.fields (CR :: y)

/-- The response is well formed: a content length is a number, all of them are the same, the
    only transfer encoding is `chunked`, and the body is as the status and the headers say. An
    upgrade is not asked for, and the head is no longer than the parser takes. -/
structure Ok (r : Response) : Prop where
  fields : ∀ f ∈ r.fields, f.Ok
  lengths : ∀ f ∈ r.fields, ∀ f' ∈ r.fields, f.kind = .contentLength → f'.kind = .contentLength →
    f.value ≠ [] ∧ decimal f.value = decimal f'.value
  codings : ∀ f ∈ r.fields, f.kind = .transferEncoding → tells CHUNKED f.value = true
  upgrade : ∀ f ∈ r.fields, f.kind ≠ .upgrade
  head_le : r.head.length ≤ HTTP_MAX_HEADER_SIZE
  content : r.content.Fits r.framing

end Response

namespace HttpParser.Exec

variable {ret : Nat} {p : HttpParser}

/-- The loop as a reader of a buffer. -/
def read (ret : Nat) (p : Bytes) (n : Nat) (s : HttpParser × (Kind → Option Bytes)) :
    List Event × HttpParser × (Kind → Option Bytes) × Bytes :=
  let r := loop ret p n ⟨s.1, s.2, []⟩
  (r.1.events, r.1.parser, r.1.marks, r.2)

theorem reader (ret : Nat) : Scan.Reader (scanner (step ret)) (read ret) where
  skip _ _ _ _ := rfl
  advance {s ch rest s' es n} h := by
    unfold scanner at h
    split at h
    · rename_i e m heq
      obtain ⟨rfl, rfl, rfl⟩ := by simpa using h
      simp only [read, loop, heq]
    · cases h

/-- The loop over what a scanner reads. -/
theorem loop_run {s s' : HttpParser × (Kind → Option Bytes)} {x y : Bytes} {es : List Event}
    (h : Scan.Run (scanner (step ret)) s x y es s') :
    loop ret (x ++ y) 0 ⟨s.1, s.2, []⟩ =
      let r := loop ret y 0 ⟨s'.1, s'.2, []⟩
      ({ r.1 with events := es ++ r.1.events }, r.2) := by
  have hread := (reader ret).run h
  simp only [read, Prod.mk.injEq] at hread
  obtain ⟨hevents, hparser, hmarks, hleft⟩ := hread
  refine Prod.ext ?_ hleft
  simp only [← hevents, ← hparser, ← hmarks]

/-! ### What headers do not say -/

theorem flags_fieldApply (f : Field) (s : Flags × Nat) :
    (f.apply s).1.trailing = s.1.trailing ∧ (f.apply s).1.skipbody = s.1.skipbody := by
  unfold Field.apply FieldKind.apply
  split
  · exact ⟨rfl, rfl⟩
  · split <;> exact ⟨rfl, rfl⟩

theorem flags_fieldsApply (fields : List Field) (s : Flags × Nat) :
    (fieldsApply fields s).1.trailing = s.1.trailing ∧
      (fieldsApply fields s).1.skipbody = s.1.skipbody := by
  induction fields generalizing s with
  | nil => exact ⟨rfl, rfl⟩
  | cons f fields ih =>
    obtain ⟨htrailing, hskipbody⟩ := ih (f.apply s)
    obtain ⟨ht, hs⟩ := flags_fieldApply f s
    exact ⟨htrailing.trans ht, hskipbody.trans hs⟩

/-! ### What headers say -/

theorem contentLength_fieldsApply {fields : List Field} {n : Nat}
    (h : ∀ f ∈ fields, f.kind = .contentLength → f.value ≠ [] ∧ decimal f.value = n)
    (s : Flags × Nat) : (fieldsApply fields s).2 =
      if fields.any (·.kind = .contentLength) then n else s.2 := by
  induction fields generalizing s with
  | nil => rfl
  | cons f fields ih =>
    obtain ⟨hf, hfields⟩ := List.forall_mem_cons.1 h
    have hrest := ih hfields (f.apply s)
    have hcons : fieldsApply (f :: fields) s = fieldsApply fields (f.apply s) := rfl
    rw [hcons, hrest]
    by_cases hkind : f.kind = .contentLength
    · obtain ⟨hne, hn⟩ := hf hkind
      simp [Field.apply, FieldKind.apply, hkind, hne, hn]
    · have hsame : (f.apply s).2 = s.2 := by
        unfold Field.apply FieldKind.apply
        split
        · rfl
        · split <;> first | rfl | exact absurd ‹_› hkind
      simp [hkind, hsame]

theorem chunked_fieldsApply {fields : List Field}
    (h : ∀ f ∈ fields, f.kind = .transferEncoding → tells CHUNKED f.value = true)
    (s : Flags × Nat) : (fieldsApply fields s).1.chunked =
      (s.1.chunked || fields.any (·.kind = .transferEncoding)) := by
  induction fields generalizing s with
  | nil => simp [fieldsApply]
  | cons f fields ih =>
    obtain ⟨hf, hfields⟩ := List.forall_mem_cons.1 h
    have hrest := ih hfields (f.apply s)
    have hcons : fieldsApply (f :: fields) s = fieldsApply fields (f.apply s) := rfl
    rw [hcons, hrest]
    by_cases hkind : f.kind = .transferEncoding
    · have htells := hf hkind
      have hne : f.value ≠ [] := by
        rintro hnil
        rw [hnil] at htells
        exact absurd htells (by decide)
      simp [Field.apply, FieldKind.apply, hkind, hne, htells]
    · have hsame : (f.apply s).1.chunked = s.1.chunked := by
        unfold Field.apply FieldKind.apply
        split
        · rfl
        · split <;> first | rfl | exact absurd ‹_› hkind
      simp [hkind, hsame]

theorem upgrade_fieldsApply {fields : List Field} (h : ∀ f ∈ fields, f.kind ≠ .upgrade)
    (s : Flags × Nat) : (fieldsApply fields s).1.upgrade = s.1.upgrade := by
  induction fields generalizing s with
  | nil => rfl
  | cons f fields ih =>
    obtain ⟨hf, hfields⟩ := List.forall_mem_cons.1 h
    refine (ih hfields (f.apply s)).trans ?_
    unfold Field.apply FieldKind.apply
    split
    · rfl
    · split <;> first | rfl | exact absurd ‹_› hf

/-! ### The end of the headers -/

/-- The message ends with the headers. -/
def bodiless (p : HttpParser) : Bool :=
  !p.flags.chunked && (p.contentLength = 0 || p.contentLength = ULLONG_MAX && !p.messageNeedsEof)

/-- The state after the headers. -/
def bodyState (p : HttpParser) : State :=
  if bodiless p then p.newMessage
  else if p.flags.chunked then .chunkSizeStart
  else if p.contentLength ≠ ULLONG_MAX then .bodyIdentity
  else .bodyIdentityEof

/-- The end of the headers, without an upgrade. -/
theorem headersDone_eq (hup : p.upgrade = false) (hskip : p.flags.skipbody = false)
    (marks : Kind → Option Bytes) (es : List Event) :
    (Exec.mk p marks es).headersDone LF =
      (⟨{ p with state := bodyState p, nread := 0 }, marks, es ++ ending (bodiless p)⟩, .advance 0) := by
  have hnone : es ++ ending false = es := List.append_nil es
  have hcomplete : (Exec.mk { p with nread := 0 } marks es).complete =
      ⟨{ p with state := p.newMessage, nread := 0 }, marks, es ++ ending true⟩ := rfl
  have hneeds : ({ p with nread := 0 } : HttpParser).messageNeedsEof = p.messageNeedsEof := rfl
  unfold headersDone bodyState
  rw [if_neg (by simp)]
  simp only [if_neg (Bool.eq_false_iff.1 hup), if_neg (Bool.eq_false_iff.1 hskip), hcomplete, hneeds,
    goto]
  by_cases hchunked : p.flags.chunked = true
  · have hbodiless : bodiless p = false := by simp [bodiless, hchunked]
    simp only [if_pos hchunked, hbodiless, hnone, Bool.false_eq_true, if_false]
  · simp only [if_neg hchunked]
    by_cases hzero : p.contentLength = 0
    · have hbodiless : bodiless p = true := by simp [bodiless, hchunked, hzero]
      simp only [if_pos hzero, hbodiless, if_true]
    · simp only [if_neg hzero]
      by_cases hlength : p.contentLength = ULLONG_MAX
      · simp only [if_neg (not_not.2 hlength)]
        cases heof : p.messageNeedsEof with
        | true =>
          have hbodiless : bodiless p = false := by simp [bodiless, hzero, heof]
          simp only [hbodiless, hnone, Bool.not_true, Bool.false_eq_true, if_false]
        | false =>
          have hbodiless : bodiless p = true := by simp [bodiless, hchunked, hlength, heof]
          simp only [hbodiless, Bool.not_false, if_true]
      · have hbodiless : bodiless p = false := by simp [bodiless, hzero, hlength]
        simp only [if_pos hlength, hbodiless, hnone, Bool.false_eq_true, if_false]

/-- The line feed that ends the headers: the body follows, or there is none. -/
theorem loop_headersEnd (hs : p.state = .headersAlmostDone)
    (hn : p.nread + 1 ≤ HTTP_MAX_HEADER_SIZE) (htrailing : p.flags.trailing = false)
    (hup : p.flags.upgrade = false) (hskip : p.flags.skipbody = false) (y : Bytes) :
    loop 0 (LF :: y) 0 ⟨p, noMarks, []⟩ =
      let r := loop 0 y 0 ⟨{ p with state := bodyState p, upgrade := false, nread := 0 }, noMarks, []⟩
      ({ r.1 with
        events := .headersComplete (LF :: y) p.statusCode p.shouldKeepAlive ::
          (ending (bodiless p) ++ r.1.events) }, r.2) := by
  have hmax : ¬HTTP_MAX_HEADER_SIZE < p.nread + 1 := Nat.not_lt.2 hn
  have hstep : (Exec.mk p noMarks []).step 0 LF y =
      (⟨{ p with state := bodyState p, upgrade := false, nread := 0 }, noMarks,
        .headersComplete (LF :: y) p.statusCode p.shouldKeepAlive :: ending (bodiless p)⟩,
          .advance 0) := by
    simp only [step, dispatch, hs, State.parsingHeader, if_true, hmax, if_false, headersAlmostDone,
      ne_eq, not_true_eq_false, htrailing, Bool.false_eq_true, hup, notify]
    exact headersDone_eq (p := { p with
      state := .headersDone, upgrade := false, nread := p.nread + 1 }) rfl hskip noMarks _
  rw [loop_advance hstep (Nat.zero_le _)]
  rfl

/-- The line feed that ends the trailer. -/
theorem scanner_trailerEnd (hs : p.state = .headersAlmostDone) (htrailing : p.flags.trailing = true)
    (hn : p.nread + 1 ≤ HTTP_MAX_HEADER_SIZE) (y : Bytes) :
    scanner (step ret) (p, noMarks) LF y =
      some (({ p with state := p.newMessage, nread := p.nread + 1 }, noMarks), [.messageComplete],
        0) := by
  refine scanner_header (by rw [hs]; rfl) hn ?_
  simp only [dispatch, hs, headersAlmostDone, ne_eq, not_true_eq_false, if_false, htrailing, if_true]
  rfl

/-- The chunks and the trailer. -/
theorem loop_chunked (chunks : List Chunk) (last : ChunkLine 0) (trailer : List Field)
    (hok : ∀ f ∈ trailer, f.Ok) (hlen : (fieldsText trailer).length + 2 ≤ HTTP_MAX_HEADER_SIZE)
    (hs : p.state = .chunkSizeStart) (hn : p.nread = 0) :
    ∃ q, loop 0 (Content.chunked chunks last trailer).text 0 ⟨p, noMarks, []⟩ =
        (⟨q, noMarks, (Content.chunked chunks last trailer).events ++ [.messageComplete]⟩, []) ∧
      q.upgrade = p.upgrade ∧ q.failed = p.failed := by
  obtain ⟨n, hchunks⟩ := run_chunks 0 chunks hs hn
    (last.text ++ (fieldsText trailer ++ [CR] ++ [LF]) ++ [])
  have hlast := run_lastChunk 0 last (p := { p with contentLength := n }) hs hn
    (fieldsText trailer ++ [CR] ++ [LF] ++ [])
  obtain ⟨hstate, index, htrailer⟩ := run_fields (readsHeaders_step 0) trailer hok
    (.refl _ _ ({ p with
      state := .headerFieldStart
      flags := { p.flags with trailing := true }
      contentLength := 0
      nread := 0 }, noMarks)) rfl (by simp only; omega) [LF]
  have htrailing : (fieldsApply trailer ({ p.flags with trailing := true }, 0)).1.trailing = true :=
    (flags_fieldsApply trailer _).1
  have hend := htrailer.concat (scanner_trailerEnd rfl htrailing (by simp only; omega) [])
  have htext : (Content.chunked chunks last trailer).text =
      chunksText chunks ++ (last.text ++ (fieldsText trailer ++ [CR] ++ [LF])) := by
    simp [Content.text]
  have hevents : (Content.chunked chunks last trailer).events ++ [.messageComplete] =
      chunksEvents chunks (last.text ++ (fieldsText trailer ++ [CR] ++ [LF]) ++ []) ++
        ([] ++ ([] ++ fieldsEvents trailer (CR :: [LF]) ++ [.messageComplete])) := by
    simp [Content.events]
  obtain ⟨q, hrun, hup, hfailed⟩ : ∃ q, Scan.Run (scanner (step 0)) (p, noMarks)
      (Content.chunked chunks last trailer).text []
      ((Content.chunked chunks last trailer).events ++ [.messageComplete]) (q, noMarks) ∧
        q.upgrade = p.upgrade ∧ q.failed = p.failed := by
    rw [htext, hevents]
    exact ⟨_, hchunks.trans (hlast.trans hend), rfl, rfl⟩
  have hloop := loop_run hrun
  rw [List.append_nil, loop_nil_noMarks] at hloop
  exact ⟨q, by simpa using hloop, hup, hfailed⟩

/-- What decides how the end is found. -/
theorem framing_cases (p : HttpParser) :
    (p.framing = .chunked ∧ p.flags.chunked = true) ∨
      (p.framing = .length p.contentLength ∧ p.flags.chunked = false ∧
        p.contentLength ≠ ULLONG_MAX) ∨
      (p.framing = .close ∧ p.flags.chunked = false ∧ p.contentLength = ULLONG_MAX ∧
        p.messageNeedsEof = true) ∨
      (p.framing = .noBody .nothing ∧ p.flags.chunked = false ∧ p.contentLength = ULLONG_MAX ∧
        p.messageNeedsEof = false) := by
  unfold HttpParser.framing
  cases hchunked : p.flags.chunked with
  | true => exact .inl ⟨rfl, rfl⟩
  | false =>
    by_cases hlength : p.contentLength = ULLONG_MAX
    · cases heof : p.messageNeedsEof with
      | true => simp [hlength]
      | false => simp [hlength]
    · simp [hlength]

/-- The end of the headers, and the body. -/
theorem loop_content {c : Content} (hs : p.state = .headersAlmostDone)
    (hn : p.nread + 1 ≤ HTTP_MAX_HEADER_SIZE) (htrailing : p.flags.trailing = false)
    (hup : p.flags.upgrade = false) (hskip : p.flags.skipbody = false)
    (hfits : c.Fits p.framing) :
    ∃ q, loop 0 (LF :: c.text) 0 ⟨p, noMarks, []⟩ =
        (⟨q, noMarks, .headersComplete (LF :: c.text) p.statusCode p.shouldKeepAlive ::
          (c.events ++ ending p.framing.selfEnding)⟩, []) ∧
      q.upgrade = false ∧ q.failed = p.failed ∧
      (p.framing = .close → q.state = .bodyIdentityEof) := by
  rw [loop_headersEnd hs hn htrailing hup hskip]
  rcases framing_cases p with ⟨hframing, hchunked⟩ | ⟨hframing, hchunked, hlength⟩ |
    ⟨hframing, hchunked, hlength, heof⟩ | ⟨hframing, hchunked, hlength, heof⟩
  · rw [hframing] at hfits
    obtain ⟨chunks, last, trailer, rfl⟩ : ∃ chunks last trailer, c = .chunked chunks last trailer := by
      cases c with
      | plain body => exact hfits.elim
      | chunked chunks last trailer => exact ⟨_, _, _, rfl⟩
    have hbodiless : bodiless p = false := by simp [bodiless, hchunked]
    have hstate : bodyState p = .chunkSizeStart := by simp [bodyState, hbodiless, hchunked]
    obtain ⟨q, hloop, hupgrade, hfailed⟩ := loop_chunked chunks last trailer hfits.1 hfits.2
      (p := { p with state := bodyState p, upgrade := false, nread := 0 }) hstate rfl
    refine ⟨q, ?_, hupgrade, hfailed, fun h => by simp [hframing] at h⟩
    rw [hloop, hbodiless, hframing]
    rfl
  all_goals
    obtain ⟨body, rfl⟩ : ∃ body, c = .plain body := by
      cases c with
      | plain body => exact ⟨_, rfl⟩
      | chunked chunks last trailer =>
        rw [hframing] at hfits
        exact hfits.elim
    rw [hframing] at hfits
  · obtain rfl | hbody := eq_or_ne body []
    · have hzero : p.contentLength = 0 := hfits.symm
      have hbodiless : bodiless p = true := by simp [bodiless, hchunked, hzero]
      refine ⟨{ p with state := bodyState p, upgrade := false, nread := 0 }, ?_, rfl, rfl,
        fun h => by simp [hframing] at h⟩
      rw [hbodiless, hframing]
      rfl
    · have hpos : 0 < p.contentLength := hfits ▸ List.length_pos_iff.2 hbody
      have hbodiless : bodiless p = false := by simp [bodiless, hlength, hpos.ne']
      have hstate : bodyState p = .bodyIdentity := by simp [bodyState, hbodiless, hchunked, hlength]
      have hloop := loop_bodyIdentity 0
        { p with state := bodyState p, upgrade := false, nread := 0 } hbody hstate hpos hfits.ge
      rw [List.drop_of_length_le hfits.le, loop_nil_noMarks] at hloop
      let q := { p with state := bodyState p, upgrade := false, nread := 0, contentLength := 0 }
      refine ⟨{ q with state := q.newMessage }, ?_, rfl, rfl, fun h => by simp [hframing] at h⟩
      rw [Content.text, hloop, hbodiless, hframing, Content.events, bodyEvents, if_neg hbody, hfits]
      rfl
  · have hbodiless : bodiless p = false := by simp [bodiless, hchunked, hlength, heof, ULLONG_MAX]
    have hstate : bodyState p = .bodyIdentityEof := by simp [bodyState, hbodiless, hchunked, hlength]
    refine ⟨{ p with state := bodyState p, upgrade := false, nread := 0 }, ?_, rfl, rfl,
      fun _ => hstate⟩
    rw [hbodiless, hframing, Content.text, Content.events]
    obtain rfl | hbody := eq_or_ne body []
    · rfl
    · rw [loop_bodyIdentityEof 0 _ hbody hstate, bodyEvents, if_neg hbody]
      rfl
  · obtain rfl : body = [] := hfits
    have hbodiless : bodiless p = true := by simp [bodiless, hchunked, hlength, heof]
    refine ⟨{ p with state := bodyState p, upgrade := false, nread := 0 }, ?_, rfl, rfl,
      fun h => by simp [hframing] at h⟩
    rw [hbodiless, hframing]
    rfl

/-- The end of the headers of a response without a body. -/
theorem loop_noBody (hs : p.state = .headersAlmostDone) (hn : p.nread + 1 ≤ HTTP_MAX_HEADER_SIZE)
    (htrailing : p.flags.trailing = false) (hup : p.flags.upgrade = false)
    (hskip : p.flags.skipbody = false) :
    ∃ q, loop 0 [LF] 0 ⟨p, noMarks, []⟩ =
        (⟨q, noMarks, .headersComplete [LF] p.statusCode p.shouldKeepAlive ::
          ending (bodiless p)⟩, []) ∧
      q.upgrade = false ∧ q.failed = p.failed := by
  refine ⟨{ p with state := bodyState p, upgrade := false, nread := 0 }, ?_, rfl, rfl⟩
  rw [loop_headersEnd hs hn htrailing hup hskip, loop_nil_noMarks]
  simp only [List.append_nil]

end HttpParser.Exec

namespace Response

open HttpParser.Exec

variable {r : Response}

theorem text_eq (r : Response) :
    r.text = r.line.text ++ (fieldsText r.fields ++ [CR]) ++ r.after := by
  simp [text, head, after]

/-- The status line and the headers, up to the last line feed. -/
theorem run_head (hr : r.Ok) (y : Bytes) : ∃ (hstate : HeaderState) (index : Nat),
    Scan.Run (scanner (step 0)) (HttpParser.init, noMarks)
      (r.line.text ++ (fieldsText r.fields ++ [CR])) y (.messageBegin :: r.headEvents y)
      ({ r.parsed with headerState := hstate, index }, noMarks) := by
  have hlen := hr.head_le
  simp only [head, List.length_append, List.length_cons, List.length_nil] at hlen
  have hline := run_statusLine 0 r.line (by omega) (fieldsText r.fields ++ [CR] ++ y)
  obtain ⟨hstate, index, hfields⟩ := run_fields (readsHeaders_step 0) r.fields hr.fields
    (.refl _ _ (r.line.parsed, noMarks)) rfl
    (by simp only [StatusLine.parsed]; omega) y
  exact ⟨hstate, index, hline.trans hfields⟩

theorem lt_ULLONG_MAX_of_isLength {value : Bytes} (h : HttpParser.IsLength value) :
    decimal value ≠ ULLONG_MAX := by
  intro heq
  have hle := h.le
  rw [heq] at hle
  exact absurd hle (by decide)

/-- The parser knows what the headers say of a body. -/
theorem announced_cases (hr : r.Ok) :
    (announced r.fields = .chunked ∧ r.parsed.flags.chunked = true) ∨
      (announced r.fields = .length r.parsed.contentLength ∧ r.parsed.flags.chunked = false ∧
        r.parsed.contentLength ≠ ULLONG_MAX) ∨
      (announced r.fields = .nothing ∧ r.parsed.flags.chunked = false ∧
        r.parsed.contentLength = ULLONG_MAX) := by
  have hchunked : r.parsed.flags.chunked = r.fields.any (·.kind = .transferEncoding) :=
    (chunked_fieldsApply hr.codings _).trans (Bool.false_or _)
  unfold announced
  cases hcodings : r.fields.any (·.kind = .transferEncoding) with
  | true => exact .inl ⟨rfl, hchunked.trans hcodings⟩
  | false =>
    rw [hcodings] at hchunked
    cases hfind : r.fields.find? (·.kind = .contentLength) with
    | none =>
      have hnone : ∀ f ∈ r.fields, f.kind ≠ .contentLength := by
        simpa using List.find?_eq_none.1 hfind
      have hany : r.fields.any (·.kind = .contentLength) = false := by simpa using hnone
      have hlength := contentLength_fieldsApply (n := 0) (fun f hf h => absurd h (hnone f hf))
        (r.line.parsed.flags, r.line.parsed.contentLength)
      rw [hany] at hlength
      exact .inr (.inr ⟨rfl, hchunked, hlength⟩)
    | some f =>
      have hmem := List.mem_of_find?_eq_some hfind
      have hkind : f.kind = .contentLength := by simpa using List.find?_some hfind
      have hany : r.fields.any (·.kind = .contentLength) = true :=
        List.any_eq_true.2 ⟨f, hmem, by simp [hkind]⟩
      have hlength := contentLength_fieldsApply (n := decimal f.value)
        (fun f' hf' h' => hr.lengths f' hf' f hmem h' hkind)
        (r.line.parsed.flags, r.line.parsed.contentLength)
      rw [hany] at hlength
      replace hlength : r.parsed.contentLength = decimal f.value := hlength
      refine .inr (.inl ⟨by rw [hlength]; rfl, hchunked, ?_⟩)
      rw [hlength]
      exact lt_ULLONG_MAX_of_isLength (hr.fields f hmem hkind)

/-- The parser finds the end as it should, where there may be a body. -/
theorem framing_of_not_bodiless (hr : r.Ok) (h : ¬r.Bodiless) : r.framing = r.parsed.framing := by
  have hskip : r.parsed.flags.skipbody = false := (flags_fieldsApply r.fields _).2
  have hstatus : ¬(r.parsed.statusCode / 100 = 1 ∨ r.parsed.statusCode = 204 ∨
      r.parsed.statusCode = 304 ∨ r.parsed.flags.skipbody = true) := by
    rintro (h' | h' | h' | h')
    · exact h (.inl h')
    · exact h (.inr (.inl h'))
    · exact h (.inr (.inr h'))
    · exact Bool.false_ne_true (hskip.symm.trans h')
  rw [framing, if_neg h]
  rcases announced_cases hr with ⟨ha, hchunked⟩ | ⟨ha, hchunked, hlength⟩ | ⟨ha, hchunked, hlength⟩
  · rw [ha, HttpParser.framing, if_pos hchunked]
  · simp [ha, HttpParser.framing, hchunked, hlength]
  · have heof : r.parsed.messageNeedsEof = true := by
      rw [messageNeedsEof, if_neg hstatus]
      simp [hchunked, hlength]
    simp [ha, HttpParser.framing, hchunked, hlength, heof]

/-- Where there is none, it looks for the one that is announced. -/
theorem bodiless_parsed (hr : r.Ok) (h : r.Bodiless) :
    bodiless r.parsed = (Framing.noBody (announced r.fields)).selfEnding := by
  have heof : r.parsed.messageNeedsEof = false := by
    rw [messageNeedsEof, if_pos]
    rcases h with h | h | h
    · exact .inl h
    · exact .inr (.inl h)
    · exact .inr (.inr (.inl h))
  rcases announced_cases hr with ⟨ha, hchunked⟩ | ⟨ha, hchunked, hlength⟩ | ⟨ha, hchunked, hlength⟩
  · simp [ha, bodiless, hchunked, Framing.selfEnding]
  · rw [ha]
    cases hn : r.parsed.contentLength with
    | zero => simp [bodiless, hchunked, hn, Framing.selfEnding]
    | succ n =>
      rw [hn] at hlength
      simp [bodiless, hchunked, hn, hlength, Framing.selfEnding]
  · simp [ha, bodiless, hchunked, hlength, heof, Framing.selfEnding]

/-- The end of the headers, and the body. -/
theorem loop_after (hr : r.Ok) (hstate : HeaderState) (index : Nat) :
    ∃ q, loop 0 r.after 0 ⟨{ r.parsed with headerState := hstate, index }, noMarks, []⟩ =
        (⟨q, noMarks, .headersComplete r.after r.line.statusCode r.parsed.shouldKeepAlive ::
          (r.content.events ++ ending r.framing.selfEnding)⟩, []) ∧
      q.upgrade = false ∧ q.failed = false ∧
      (r.framing = .close → q.state = .bodyIdentityEof) := by
  have hlen := hr.head_le
  simp only [head, List.length_append, List.length_cons, List.length_nil] at hlen
  have hn : r.parsed.nread + 1 ≤ HTTP_MAX_HEADER_SIZE := by simp only [parsed]; omega
  have hflags := flags_fieldsApply r.fields (r.line.parsed.flags, r.line.parsed.contentLength)
  have hup : r.parsed.flags.upgrade = false := upgrade_fieldsApply hr.upgrade _
  by_cases h : r.Bodiless
  · have hframing : r.framing = .noBody (announced r.fields) := if_pos h
    have hcontent : r.content = .plain [] := by
      have hfits := hr.content
      rw [hframing] at hfits
      cases hc : r.content with
      | plain body =>
        rw [hc] at hfits
        exact congrArg _ hfits
      | chunked chunks last trailer =>
        rw [hc] at hfits
        exact hfits.elim
    obtain ⟨q, hloop, hupgrade, hfailed⟩ := loop_noBody
      (p := { r.parsed with headerState := hstate, index }) rfl hn hflags.1 hup hflags.2
    refine ⟨q, ?_, hupgrade, hfailed, fun hclose => by rw [hframing] at hclose; cases hclose⟩
    have hbodiless : bodiless { r.parsed with headerState := hstate, index } =
        (Framing.noBody (announced r.fields)).selfEnding := bodiless_parsed hr h
    rw [hbodiless] at hloop
    rw [hframing, after, hcontent]
    exact hloop
  · have hframing : ({ r.parsed with headerState := hstate, index } : HttpParser).framing =
        r.framing := (framing_of_not_bodiless hr h).symm
    have hfits := hr.content
    rw [← hframing] at hfits
    obtain ⟨q, hloop, hupgrade, hfailed, hclose⟩ := loop_content (c := r.content)
      (p := { r.parsed with headerState := hstate, index }) rfl hn hflags.1 hup hflags.2 hfits
    rw [hframing] at hloop hclose
    exact ⟨q, hloop, hupgrade, hfailed, hclose⟩

/-- A response is parsed to the end. -/
theorem execute_eq (hr : r.Ok) : ∃ q, HttpParser.execute 0 HttpParser.init r.text =
      ⟨.messageBegin :: r.headEvents r.after ++
          .headersComplete r.after r.line.statusCode r.parsed.shouldKeepAlive ::
            (r.content.events ++ ending r.framing.selfEnding), r.text.length, q, false⟩ ∧
    q.failed = false ∧ (r.framing = .close → q.state = .bodyIdentityEof) := by
  obtain ⟨hstate, index, hrun⟩ := run_head hr r.after
  obtain ⟨q, hafter, hup, hfailed, hclose⟩ := loop_after hr hstate index
  have hloop := loop_run hrun
  rw [← text_eq] at hloop
  have hrestart : restart 0 HttpParser.init r.text = (⟨q, noMarks,
      .messageBegin :: r.headEvents r.after ++
        .headersComplete r.after r.line.statusCode r.parsed.shouldKeepAlive ::
          (r.content.events ++ ending r.framing.selfEnding)⟩, []) := by
    rw [restart, initialMarks_none rfl]
    refine hloop.trans ?_
    rw [hafter]
  have hne : r.text ≠ [] := by
    rw [text_eq]
    simp [after]
  refine ⟨q, ?_, hfailed, hclose⟩
  rw [execute_of_ne_nil 0 rfl hne, hrestart]
  simp only [List.length_nil, Nat.sub_zero, hup]

/-! ### The events -/

theorem isHead_fieldsEvents (fields : List Field) (y : Bytes) :
    ∀ e ∈ fieldsEvents fields y, e.IsHead := by
  induction fields with
  | nil => simp [fieldsEvents]
  | cons f fields ih =>
    refine List.forall_mem_append.2 ⟨?_, ih⟩
    simp [Field.events, Event.IsHead]

theorem isHead_headEvents (r : Response) (y : Bytes) : ∀ e ∈ r.headEvents y, e.IsHead := by
  refine List.forall_mem_append.2 ⟨?_, isHead_fieldsEvents r.fields _⟩
  unfold StatusLine.events
  split
  · simp
  · simp [Event.IsHead]

theorem isTail_fieldsEvents (fields : List Field) (y : Bytes) :
    ∀ e ∈ fieldsEvents fields y, e.IsTail := by
  induction fields with
  | nil => simp [fieldsEvents]
  | cons f fields ih =>
    refine List.forall_mem_append.2 ⟨?_, ih⟩
    simp [Field.events, Event.IsTail]

theorem isTail_chunksEvents (chunks : List Chunk) (y : Bytes) :
    ∀ e ∈ chunksEvents chunks y, e.IsTail := by
  induction chunks with
  | nil => simp [chunksEvents]
  | cons c chunks ih => exact List.forall_mem_cons.2 ⟨.inl rfl, ih⟩

theorem isTail_content (c : Content) : ∀ e ∈ c.events, e.IsTail := by
  cases c with
  | plain body => by_cases hbody : body = [] <;> simp [Content.events, bodyEvents, hbody, Event.IsTail]
  | chunked chunks last trailer =>
    exact List.forall_mem_append.2 ⟨isTail_chunksEvents chunks _, isTail_fieldsEvents trailer _⟩

/-! ### What is known of the parser -/

theorem text_ne_nil (r : Response) : r.text ≠ [] := by
  rw [text_eq]
  simp [after]

theorem accepts (hr : r.Ok) : (HttpParser.execute 0 HttpParser.init r.text).Accepts r.text := by
  obtain ⟨q, hexecute, -⟩ := execute_eq hr
  rw [hexecute]
  exact ⟨rfl, rfl⟩

/-- No part of a response upgrades the connection. -/
theorem upgrade_part (hr : r.Ok) {a : Bytes} (ha : a <+: r.text) :
    (HttpParser.execute 0 HttpParser.init a).upgrade = false := by
  obtain ⟨b, hb⟩ := ha
  have hacc := accepts hr
  rw [← hb] at hacc
  by_cases hanil : a = []
  · rw [hanil]
    rfl
  · by_cases hbnil : b = []
    · rw [hbnil, List.append_nil] at hacc
      exact hacc.2
    · exact (execute_append 0 rfl hanil hbnil hacc).1.2

/-- `http_parser` does with a response what it should. -/
theorem read_as_framed (hr : r.Ok) :
    httpParser.Implements r.framing r.text (r.headEvents r.after) r.after
    r.line.statusCode r.parsed.shouldKeepAlive r.content.events := by
  obtain ⟨q, hexecute, hfailed, hclose⟩ := execute_eq hr
  have hexec : httpParser.execute httpParser.init r.text = _ := hexecute
  refine ⟨r.text_ne_nil, fun a ha _ => ?_, fun _ => ?_, fun _ => ?_, fun hframing => ?_,
    isHead_headEvents r _, isTail_content _⟩
  · exact (upgrade_part hr ha).trans (accepts hr).2.symm
  · rw [hexec]
  · rw [hexec]
    simp
  · rw [hexec]
    change (HttpParser.execute 0 q []).events = _
    simp [HttpParser.execute, hfailed, hclose hframing]

/-- It finds the end of a response, if its headers tell where it is. -/
theorem responds (hr : r.Ok) (hself : r.framing.selfEnding = true) :
    httpParser.Responds r.text (r.headEvents r.after) r.after r.line.statusCode
      r.parsed.shouldKeepAlive r.content.events := by
  obtain ⟨q, hexecute, -⟩ := execute_eq hr
  refine ⟨r.text_ne_nil, accepts hr, ?_, isHead_headEvents r _, isTail_content _⟩
  have hexec : httpParser.execute httpParser.init r.text = _ := hexecute
  rw [hexec, hself]
  simp [ending]

/-- The digit of HTTP/1.1. -/
def one : Fin 10 := 1

/-- A response in two chunks. -/
def inChunks : Response where
  line := ⟨one, one, 2, 0, 0, bytes "OK", List.all_iff_forall_prop.1 (by decide)⟩
  fields := [.spaced (bytes "Transfer-Encoding") (bytes "chunked") (by decide)]
  content := .chunked
    [⟨bytes "hel", by decide, .extended (bytes "3") [] (by decide) (by decide) (by decide)⟩,
     ⟨bytes "lo", by decide,
      .extended (bytes "2") (bytes ";x") (by decide) (by decide) (by decide)⟩]
    (.extended (bytes "0") [] (by decide) (by decide) (by decide)) []

theorem inChunks_ok : inChunks.Ok where
  fields := by
    rintro f hf
    obtain rfl := List.mem_singleton.1 hf
    exact fun h => absurd h (by decide)
  lengths := by
    rintro f hf f' -
    obtain rfl := List.mem_singleton.1 hf
    exact fun h => absurd h (by decide)
  codings := by
    rintro f hf -
    obtain rfl := List.mem_singleton.1 hf
    decide
  upgrade := by
    rintro f hf
    obtain rfl := List.mem_singleton.1 hf
    decide
  head_le := by decide
  content := ⟨by simp, by decide⟩

theorem read_as_framed_inChunks : httpParser.Implements inChunks.framing inChunks.text
    (inChunks.headEvents inChunks.after) inChunks.after inChunks.line.statusCode
    inChunks.parsed.shouldKeepAlive inChunks.content.events := read_as_framed inChunks_ok

end Response

end Mistress
