import Mistress.Extend

/-!
# The marks

`http_parser` marks the place where a string begins, and reports the string from there
when it ends, or when the buffer does. Which string it is reading is told by its state:
where a string is read, its mark is set, and no other is (`Marked`). A byte keeps that
(`does_step`), and the events it causes are located at it (`Event.At`).

A string is read in the same way wherever it begins (`Reads`): its mark is looked at only
when it is reported. This is what allows a buffer to be cut within a string, whose rest
then has a mark of its own.

* `does_dispatch`: what a byte does while no string is read, state by state. It may begin a
  string, which is marked at it (`does_mark`).
* `reads_step`: what it does while a string is read.
* `Reads.does`: in the second case it keeps the marks as well, so that `does_step` has both.
-/

open LuaStack

namespace Mistress

/-- An event that the byte at `p` causes. -/
def Event.At (p : Bytes) : Event → Prop
  | .data _ ptr length => p <:+ ptr ∧ length ≤ ptr.length
  | .headersComplete ptr _ _ => ptr = p ∧ p.head? = some HttpParser.LF
  | _ => True

namespace HttpParser

/-- The parser goes on with the bytes. -/
def Live (parser : HttpParser) : Prop := parser.failed = false ∧ parser.upgrade = false

/-- The string that is read in a state. -/
def State.reads : State → Option Kind
  | .resStatus => some .status
  | .headerField => some .headerField
  | .headerValue => some .headerValue
  | _ => none

/-- The string that is read in a state, or that has been read but not reported. -/
def State.holds : State → Option Kind
  | .chunkDataAlmostDone => some .body
  | s => s.reads

theorem State.holds_of_reads {s : State} {k : Kind} (h : s.reads = some k) : s.holds = some k := by
  cases s with
  | chunkDataAlmostDone => exact nomatch h
  | _ => exact h

/-- The data of a chunk are reported one byte after their end, and no other string is. -/
theorem State.holds_of_reads_none {s : State} {k : Kind} (h : s.reads = none)
    (hs : s.holds = some k) : s = .chunkDataAlmostDone ∧ k = .body := by
  cases s with
  | chunkDataAlmostDone => exact ⟨rfl, (Option.some.inj hs).symm⟩
  | _ => exact nomatch h.symm.trans hs

/-- The only mark set. -/
def only (k : Kind) (ptr : Bytes) : Kind → Option Bytes :=
  fun k' => if k' = k then some ptr else none

/-- No mark is set. -/
def noMarks : Kind → Option Bytes := fun _ => none

namespace Exec

variable {ret : Nat} {e : Exec} {ch : UInt8} {rest p : Bytes}

/-! ### What a byte does -/

/-- The mark of the string that is read is set, and lies before `p`; none other is. -/
def Marked (p : Bytes) (e : Exec) : Prop :=
  (e.parser.state.reads = none ∧ e.marks = noMarks) ∨
    ∃ k ptr, e.parser.state.holds = some k ∧ e.marks = only k ptr ∧ p <:+ ptr

/-- What the byte at `ch :: rest` does. -/
structure Does (ch : UInt8) (rest : Bytes) (r : Exec × Next) : Prop where
  events : ∀ ev ∈ r.1.events, ev.At (ch :: rest)
  le : ∀ skip, r.2 = .advance skip → skip ≤ rest.length
  marked : ∀ skip, r.2 = .advance skip → r.1.Marked (rest.drop skip)
  live : ∀ skip, r.2 = .advance skip → r.1.parser.Live
  ret : r.2 = .ret → r.1.parser.upgrade = true

/-- The byte is rejected: there is nothing to be kept. -/
theorem does_fail (hev : ∀ ev ∈ e.events, ev.At (ch :: rest)) : Does ch rest e.fail where
  events := hev
  le _ h := nomatch h
  marked _ h := nomatch h
  live _ h := nomatch h
  ret h := nomatch h

/-- The parser goes on after the byte, and after `n` more, which have been taken. -/
theorem does_advance {n : Nat} (hev : ∀ ev ∈ e.events, ev.At (ch :: rest)) (hn : n ≤ rest.length)
    (hm : e.Marked (rest.drop n)) (hlive : e.parser.Live) :
    Does ch rest (e, .advance n) where
  events := hev
  le _ h := Next.advance.inj h ▸ hn
  marked _ h := Next.advance.inj h ▸ hm
  live _ _ := hlive
  ret h := nomatch h

/-- No mark is set after the byte. -/
theorem does_quiet (hev : ∀ ev ∈ e.events, ev.At (ch :: rest)) (hm : e.marks = noMarks)
    (hs : e.parser.state.reads = none) (hlive : e.parser.Live) : Does ch rest (e, .advance 0) :=
  does_advance hev (Nat.zero_le _) (.inl ⟨hs, hm⟩) hlive

/-- A callback at the byte. -/
theorem at_notify {event : Event} (hev : ∀ ev ∈ e.events, ev.At p) (h : event.At p) :
    ∀ ev ∈ (e.notify event).events, ev.At p := by
  intro ev hmem
  rcases List.mem_append.1 hmem with hmem | hmem
  · exact hev ev hmem
  · exact List.mem_singleton.1 hmem ▸ h

/-- `MARK`, where no mark is set. -/
theorem mark_noMarks (hm : e.marks = noMarks) (k : Kind) (p : Bytes) :
    e.mark k p = ⟨e.parser, only k p, e.events⟩ := by
  have hk : e.marks k = none := by rw [hm]; rfl
  simp only [mark, hk]
  congr 1
  funext k'
  rw [Function.update_apply, hm]
  rfl

theorem live_mark {k : Kind} {p : Bytes} (hlive : e.parser.Live) : (e.mark k p).parser.Live := by
  rwa [parser_mark]

/-- A string begins at the byte. -/
theorem does_mark {e' : Exec} {k : Kind} (hev : ∀ ev ∈ e.events, ev.At (ch :: rest))
    (hm : e.marks = noMarks) (hev' : e'.events = e.events)
    (hm' : e'.marks = (e.mark k (ch :: rest)).marks) (hs : e'.parser.state.reads = some k)
    (hlive' : e'.parser.Live) : Does ch rest (e', .advance 0) := by
  have hholds := State.holds_of_reads hs
  refine does_advance (hev'.symm ▸ hev) (Nat.zero_le _)
    (.inr ⟨k, ch :: rest, hholds, ?_, ?_⟩) hlive'
  · rw [hm', mark_noMarks hm]
  · exact (List.suffix_cons ch rest)

/-- The callback of the only mark. -/
theorem callbackData_only (parser : HttpParser) (es : List Event) (k : Kind) (ptr p : Bytes) :
    (Exec.mk parser (only k ptr) es).callbackData k p =
      ⟨parser, noMarks, es ++ [.data k ptr (ptr.length - p.length)]⟩ := by
  have hk : only k ptr k = some ptr := if_pos rfl
  simp only [callbackData, hk]
  congr 1
  funext k'
  by_cases h : k' = k
  · subst h
    simp [noMarks]
  · simp [only, noMarks, h]

/-- The message is complete, and another one may begin. -/
theorem does_complete {n : Nat} (hev : ∀ ev ∈ e.events, ev.At (ch :: rest)) (hm : e.marks = noMarks)
    (hlive : e.parser.Live) (hn : n ≤ rest.length) : Does ch rest (e.complete, .advance n) := by
  refine does_advance (at_notify hev trivial) hn (.inl ⟨?_, hm⟩) hlive
  change e.parser.newMessage.reads = none
  unfold newMessage
  split <;> rfl

/-- The end of the headers: the parser returns if there is an upgrade. -/
theorem does_headersDone (hev : ∀ ev ∈ e.events, ev.At (ch :: rest)) (hm : e.marks = noMarks)
    (hfailed : e.parser.failed = false) : Does ch rest (e.headersDone ch) := by
  unfold headersDone
  split
  · exact does_fail hev
  · dsimp only
    split
    · rename_i hup
      have hdone : (Event.messageComplete).At (ch :: rest) := trivial
      exact ⟨at_notify hev hdone, (fun _ h => nomatch h),
        (fun _ h => nomatch h), (fun _ h => nomatch h), fun _ => hup⟩
    · rename_i hup
      rw [Bool.not_eq_true] at hup
      have hlive : e.parser.Live := ⟨hfailed, hup⟩
      have hcomplete : Does ch rest
          (({ e with parser := { e.parser with nread := 0 } } : Exec).complete, .advance 0) := by
        refine does_complete ?_ ?_ ?_ (Nat.zero_le _)
        exacts [hev, hm, hlive]
      split
      · exact hcomplete
      · split
        · exact does_quiet hev hm rfl hlive
        · split
          · exact hcomplete
          · split
            · exact does_quiet hev hm rfl hlive
            · split
              · exact hcomplete
              · exact does_quiet hev hm rfl hlive

section unmarked

variable (hev : ∀ ev ∈ e.events, ev.At (ch :: rest)) (hm : e.marks = noMarks)
  (hlive : e.parser.Live)

include hev hm hlive

/-- A byte that is fixed by the format. -/
theorem does_expect {c : UInt8} {s : State} (hs : s.reads = none) :
    Does ch rest (e.expect c s ch) := by
  unfold expect
  split
  · exact does_fail hev
  · exact does_quiet hev hm hs hlive

/-- A message begins. -/
theorem does_startRes (hs : e.parser.state.reads = none) : Does ch rest (e.startRes ch) := by
  unfold startRes
  split
  · exact does_quiet (at_notify hev trivial) hm rfl hlive
  · split
    · exact does_quiet (at_notify hev trivial) hm hs hlive
    · exact does_fail hev

theorem does_dead (hs : e.parser.state.reads = none) : Does ch rest (e.dead ch) := by
  unfold dead
  split
  · exact does_quiet hev hm hs hlive
  · exact does_fail hev

/-- The digits of the version. -/
theorem does_resFirstHttpMajor : Does ch rest (e.resFirstHttpMajor ch) := by
  unfold resFirstHttpMajor
  split
  · exact does_quiet hev hm rfl hlive
  · exact does_fail hev

theorem does_resFirstHttpMinor : Does ch rest (e.resFirstHttpMinor ch) := by
  unfold resFirstHttpMinor
  split
  · exact does_quiet hev hm rfl hlive
  · exact does_fail hev

theorem does_resHttpMajor (hs : e.parser.state.reads = none) :
    Does ch rest (e.resHttpMajor ch) := by
  unfold resHttpMajor
  split
  · exact does_quiet hev hm rfl hlive
  · split
    · dsimp only
      split
      · exact does_fail hev
      · exact does_quiet hev hm hs hlive
    · exact does_fail hev

theorem does_resHttpMinor (hs : e.parser.state.reads = none) :
    Does ch rest (e.resHttpMinor ch) := by
  unfold resHttpMinor
  split
  · exact does_quiet hev hm rfl hlive
  · split
    · dsimp only
      split
      · exact does_fail hev
      · exact does_quiet hev hm hs hlive
    · exact does_fail hev

/-- The digits of the status, and what may stand before them. -/
theorem does_resFirstStatusCode (hs : e.parser.state.reads = none) :
    Does ch rest (e.resFirstStatusCode ch) := by
  unfold resFirstStatusCode
  split
  · exact does_quiet hev hm rfl hlive
  · split
    · exact does_quiet hev hm hs hlive
    · exact does_fail hev

theorem does_resStatusCode (hs : e.parser.state.reads = none) :
    Does ch rest (e.resStatusCode ch) := by
  unfold resStatusCode
  split
  · dsimp only
    split
    · exact does_fail hev
    · exact does_quiet hev hm hs hlive
  · split
    · exact does_quiet hev hm rfl hlive
    · split
      · exact does_quiet hev hm rfl hlive
      · split
        · exact does_quiet hev hm rfl hlive
        · exact does_fail hev

/-- The reason begins, unless it is empty. -/
theorem does_resStatusStart : Does ch rest (e.resStatusStart ch rest) := by
  unfold resStatusStart
  split
  · exact does_quiet hev hm rfl hlive
  · split
    · exact does_quiet hev hm rfl hlive
    · exact does_mark hev hm (e := e) (k := .status) (mark_events ..) rfl rfl (live_mark hlive)

/-- The line feed after the empty line: the callback of the headers, or the end of a trailer. -/
theorem does_headersAlmostDone : Does ch rest (e.headersAlmostDone ret ch rest) := by
  unfold headersAlmostDone
  split
  · exact does_fail hev
  · rename_i hlf
    have hat : (Event.headersComplete (ch :: rest) e.parser.statusCode
        ({ e.parser with state := .headersDone, upgrade := e.parser.flags.upgrade } :
          HttpParser).shouldKeepAlive).At (ch :: rest) :=
      ⟨rfl, congrArg some (not_not.1 hlf)⟩
    split
    · exact does_complete hev hm hlive (Nat.zero_le _)
    · dsimp only
      split
      · exact does_headersDone (at_notify hev hat) hm hlive.1
      · exact does_headersDone (at_notify hev hat) hm hlive.1
      · exact does_fail (at_notify hev hat)

/-- A line begins: with a name, or with the end of the headers. -/
theorem does_headerFieldStart : Does ch rest (e.headerFieldStart ret ch rest) := by
  unfold headerFieldStart
  split
  · exact does_quiet hev hm rfl hlive
  · split
    · refine does_headersAlmostDone ?_ ?_ ?_
      exacts [hev, hm, hlive]
    · split
      · exact does_fail hev
      · exact does_mark hev hm (e := e) (k := .headerField) (mark_events ..) rfl rfl
          (live_mark hlive)

/-- A value begins. -/
theorem does_headerValueStart : Does ch rest (e.headerValueStart ch rest) := by
  have hmark {parser : HttpParser} (hs : parser.state = .headerValue)
      (hlive' : parser.Live) :
      Does ch rest ({ e.mark .headerValue (ch :: rest) with parser }, .advance 0) :=
    does_mark hev hm (k := .headerValue) (mark_events ..) rfl (by rw [hs]; rfl) hlive'
  unfold headerValueStart
  simp only [parser_mark]
  split
  · exact hmark rfl hlive
  · exact hmark rfl hlive
  · split
    · exact hmark rfl hlive
    · exact does_fail (by simpa using hev)
  · exact hmark rfl hlive
  · exact hmark rfl hlive

theorem does_headerValueDiscardWs (hs : e.parser.state.reads = none) :
    Does ch rest (e.headerValueDiscardWs ch rest) := by
  unfold headerValueDiscardWs
  split
  · exact does_quiet hev hm hs hlive
  · split
    · exact does_quiet hev hm rfl hlive
    · split
      · exact does_quiet hev hm rfl hlive
      · exact does_headerValueStart hev hm hlive

/-- The byte after a line, with which the value may go on. -/
theorem does_headerValueLws : Does ch rest (e.headerValueLws ret ch rest) := by
  unfold headerValueLws
  split
  · refine does_headerValueStart ?_ ?_ ?_
    exacts [hev, hm, hlive]
  · have hfinish : e.finishHeader.events = e.events ∧ e.finishHeader.marks = e.marks ∧
        e.finishHeader.parser.Live := by
      unfold finishHeader
      split <;> exact ⟨rfl, rfl, hlive⟩
    refine does_headerFieldStart ?_ ?_ ?_
    · exact hfinish.1.symm ▸ hev
    · exact hfinish.2.1.trans hm
    · exact hfinish.2.2

theorem does_chunkSizeStart : Does ch rest (e.chunkSizeStart ch) := by
  unfold chunkSizeStart
  split
  · exact does_fail hev
  · exact does_quiet hev hm rfl hlive

/-- A byte of the size of a chunk: a digit, or the end of the size. -/
theorem does_chunkSize (hs : e.parser.state.reads = none) : Does ch rest (e.chunkSize ch) := by
  unfold chunkSize
  split
  · exact does_quiet hev hm rfl hlive
  · split
    · split
      · exact does_quiet hev hm rfl hlive
      · exact does_fail hev
    · split
      · exact does_fail hev
      · exact does_quiet hev hm hs hlive

theorem does_chunkParameters (hs : e.parser.state.reads = none) :
    Does ch rest (e.chunkParameters ch) := by
  unfold chunkParameters
  split
  · exact does_quiet hev hm rfl hlive
  · exact does_quiet hev hm hs hlive

theorem does_chunkSizeAlmostDone : Does ch rest (e.chunkSizeAlmostDone ch) := by
  unfold chunkSizeAlmostDone
  split
  · exact does_fail hev
  · split
    · exact does_quiet hev hm rfl hlive
    · exact does_quiet hev hm rfl hlive

/-- The data of the chunk before are reported. -/
theorem does_chunkDataAlmostDone : Does ch rest (e.chunkDataAlmostDone ch rest) := by
  have hbody : (e.goto .chunkDataDone).marks .body = none := congrFun hm .body
  unfold chunkDataAlmostDone
  split
  · exact does_fail hev
  · simp only [callbackData, hbody]
    exact does_quiet hev hm rfl hlive

theorem does_chunkDataDone : Does ch rest (e.chunkDataDone ch) := by
  unfold chunkDataDone
  split
  · exact does_fail hev
  · exact does_quiet hev hm rfl hlive

/-- The byte after a line without a value: the empty value is reported. -/
theorem does_headerValueDiscardLws :
    Does ch rest (e.headerValueDiscardLws ret ch rest) := by
  unfold headerValueDiscardLws
  split
  · exact does_quiet hev hm rfl hlive
  · have hvalue := callbackData_only { e.parser with state := .headerFieldStart } e.events
      .headerValue (ch :: rest) (ch :: rest)
    rw [Nat.sub_self] at hvalue
    rw [mark_noMarks hm]
    simp only [goto, hvalue]
    refine does_headerFieldStart ?_ rfl hlive
    have hat : (Event.data .headerValue (ch :: rest) 0).At (ch :: rest) :=
      ⟨List.suffix_rfl, Nat.zero_le _⟩
    exact at_notify hev hat

/-- The body is reported as far as it has been received. -/
theorem does_bodyIdentity (h : e.parser.contentLength ≤ rest.length + 1) :
    Does ch rest (e.bodyIdentity ch rest) := by
  have hread : e.readBody (ch :: rest) =
      (⟨{ e.parser with contentLength := 0 }, only .body (ch :: rest), e.events⟩,
        e.parser.contentLength) := by
    simp only [readBody, mark_noMarks hm, List.length_cons, Nat.min_eq_left h, Nat.sub_self]
  unfold bodyIdentity
  rw [hread]
  simp only [if_true, goto, callbackData_only]
  refine does_complete ?_ ?_ ?_ ?_
  · refine at_notify hev ?_
    exact ⟨List.suffix_rfl, Nat.sub_le ..⟩
  · rfl
  · exact hlive
  · omega

theorem does_chunkData (h : e.parser.contentLength ≤ rest.length + 1) :
    Does ch rest (e.chunkData ch rest) := by
  have hread : e.readBody (ch :: rest) =
      (⟨{ e.parser with contentLength := 0 }, only .body (ch :: rest), e.events⟩,
        e.parser.contentLength) := by
    simp only [readBody, mark_noMarks hm, List.length_cons, Nat.min_eq_left h, Nat.sub_self]
  unfold chunkData
  rw [hread]
  simp only [if_true, goto]
  exact does_advance hev (by omega) (.inr ⟨.body, ch :: rest, rfl, rfl,
    (List.drop_suffix ..).trans (List.suffix_cons ch rest)⟩) hlive

/-- What a byte does while no string is read. -/
theorem does_dispatch (hreads : e.parser.state.reads = none) (h : ¬e.Straddles (rest.length + 1)) :
    Does ch rest (e.dispatch ret ch rest) := by
  unfold dispatch
  cases hs : e.parser.state with
  | dead => exact does_dead hev hm hlive hreads
  | startRes => exact does_startRes hev hm hlive hreads
  | resH | resHT | resHTT | resHTTP | resLineAlmostDone | headerValueDiscardWsAlmostDone
  | headerAlmostDone => exact does_expect hev hm hlive rfl
  | resFirstHttpMajor => exact does_resFirstHttpMajor hev hm hlive
  | resHttpMajor => exact does_resHttpMajor hev hm hlive hreads
  | resFirstHttpMinor => exact does_resFirstHttpMinor hev hm hlive
  | resHttpMinor => exact does_resHttpMinor hev hm hlive hreads
  | resFirstStatusCode => exact does_resFirstStatusCode hev hm hlive hreads
  | resStatusCode => exact does_resStatusCode hev hm hlive hreads
  | resStatusStart => exact does_resStatusStart hev hm hlive
  | headerFieldStart => exact does_headerFieldStart hev hm hlive
  | headerValueDiscardWs => exact does_headerValueDiscardWs hev hm hlive hreads
  | headerValueDiscardLws => exact does_headerValueDiscardLws hev hm hlive
  | headerValueStart => exact does_headerValueStart hev hm hlive
  | headerValueLws => exact does_headerValueLws hev hm hlive
  | chunkSizeStart => exact does_chunkSizeStart hev hm hlive
  | chunkSize => exact does_chunkSize hev hm hlive hreads
  | chunkParameters => exact does_chunkParameters hev hm hlive hreads
  | chunkSizeAlmostDone => exact does_chunkSizeAlmostDone hev hm hlive
  | headersAlmostDone => exact does_headersAlmostDone hev hm hlive
  | headersDone => exact does_headersDone hev hm hlive.1
  | chunkData =>
    exact does_chunkData hev hm hlive (Nat.le_of_not_lt (by simpa [Straddles, hs] using h))
  | chunkDataAlmostDone => exact does_chunkDataAlmostDone hev hm hlive
  | chunkDataDone => exact does_chunkDataDone hev hm hlive
  | bodyIdentity =>
    exact does_bodyIdentity hev hm hlive (Nat.le_of_not_lt (by simpa [Straddles, hs] using h))
  | bodyIdentityEof => simp [Straddles, hs] at h
  | messageDone => exact does_complete hev hm hlive (Nat.zero_le _)
  | _ => simp [hs, State.reads] at hreads

end unmarked

/-- At the end of the buffer the string that is read is reported. -/
theorem flush_only (parser : HttpParser) (es : List Event) (k : Kind) (ptr : Bytes) :
    (Exec.mk parser (only k ptr) es).flush = ⟨parser, noMarks, es ++ [.data k ptr ptr.length]⟩ := by
  have hother {k' : Kind} (h : k' ≠ k) : (Exec.mk parser (only k ptr) es).callbackData k' [] =
      ⟨parser, only k ptr, es⟩ := by
    have hk' : only k ptr k' = none := if_neg h
    simp only [callbackData, hk']
  have hnone (k' : Kind) (es : List Event) : (Exec.mk parser noMarks es).callbackData k' [] =
      ⟨parser, noMarks, es⟩ := rfl
  unfold flush
  cases k <;> simp [hother, callbackData_only, hnone]

/-- What the byte `ch` does while a string is read, wherever it begins: the string goes on,
    it ends and is reported, or the byte is rejected. -/
inductive Reads (k : Kind) (parser : HttpParser) (rest : Bytes)
    (f : Bytes → List Event → Exec × Next) : Prop
  | more (parser' : HttpParser) (hs : parser'.state = parser.state)
      (hlive : parser.Live → parser'.Live)
      (h : ∀ ptr es, f ptr es = (⟨parser', only k ptr, es⟩, .advance 0))
  | ends (parser' : HttpParser) (hs : parser'.state.reads = none)
      (hlive : parser.Live → parser'.Live)
      (h : ∀ ptr es, f ptr es =
        (⟨parser', noMarks, es ++ [.data k ptr (ptr.length - (rest.length + 1))]⟩, .advance 0))
  | fails (parser' : HttpParser) (h : ∀ ptr es, f ptr es = (⟨parser', only k ptr, es⟩, .error))

section reads

variable {parser : HttpParser} {k : Kind} (ret : Nat) (ch : UInt8) (rest : Bytes)

/-- The size of the headers is checked first. -/
theorem Reads.header (hs : parser.state.parsingHeader = true)
    (h : ∀ parser' : HttpParser, parser'.state = parser.state → Reads k parser' rest
      fun ptr es => (Exec.mk parser' (only k ptr) es).dispatch ret ch rest) :
    Reads k parser rest fun ptr es => (Exec.mk parser (only k ptr) es).step ret ch rest := by
  simp only [step, hs, if_true]
  by_cases hmax : HTTP_MAX_HEADER_SIZE < parser.nread + 1
  · exact .fails { parser with nread := parser.nread + 1, failed := true } fun ptr es => if_pos hmax
  · cases h { parser with nread := parser.nread + 1 } rfl with
    | more parser' hs hlive h =>
      exact .more parser' hs hlive fun ptr es => (if_neg hmax).trans (h ptr es)
    | ends parser' hs hlive h =>
      exact .ends parser' hs hlive fun ptr es => (if_neg hmax).trans (h ptr es)
    | fails parser' h => exact .fails parser' fun ptr es => (if_neg hmax).trans (h ptr es)

/-- The reason ends with the line. -/
theorem reads_status : Reads .status parser rest
    fun ptr es => (Exec.mk parser (only .status ptr) es).resStatus ch rest := by
  by_cases hcr : ch = CR
  · refine .ends { parser with state := .resLineAlmostDone } rfl id fun ptr es => ?_
    simp only [resStatus, if_pos hcr, goto, callbackData_only, List.length_cons]
  · by_cases hlf : ch = LF
    · refine .ends { parser with state := .headerFieldStart } rfl id fun ptr es => ?_
      simp only [resStatus, if_neg hcr, if_pos hlf, goto, callbackData_only, List.length_cons]
    · exact .more parser rfl id fun ptr es => by simp only [resStatus, if_neg hcr, if_neg hlf]

theorem nameByte_live (parser : HttpParser) (ch c : UInt8) (h : parser.Live) :
    (nameByte parser ch c).Live := by
  unfold nameByte matching
  split <;> (try split) <;> exact h

/-- A name ends with the colon. -/
theorem reads_headerField : Reads .headerField parser rest
    fun ptr es => (Exec.mk parser (only .headerField ptr) es).headerField ch rest := by
  cases htok : token ch with
  | some c =>
    exact .more (nameByte parser ch c) (nameByte_spec parser ch c).1 (nameByte_live parser ch c)
      fun ptr es => by simp only [headerField, htok]
  | none =>
    by_cases hcolon : ch = byte ':'
    · refine .ends { parser with state := .headerValueDiscardWs } rfl id fun ptr es => ?_
      simp only [headerField, htok, if_pos hcolon, goto, callbackData_only, List.length_cons]
    · by_cases hcr : ch = CR
      · refine .ends { parser with state := .headerAlmostDone } rfl id fun ptr es => ?_
        simp only [headerField, htok, if_neg hcolon, if_pos hcr, goto, callbackData_only,
          List.length_cons]
      · by_cases hlf : ch = LF
        · refine .ends { parser with state := .headerFieldStart } rfl id fun ptr es => ?_
          simp only [headerField, htok, if_neg hcolon, if_neg hcr, if_pos hlf, goto,
            callbackData_only, List.length_cons]
        · exact .fails { parser with failed := true } fun ptr es => by
            simp only [headerField, htok, if_neg hcolon, if_neg hcr, if_neg hlf, fail]

/-- A byte of a value changes the parser, or is rejected. -/
theorem valueByte_spec (parser : HttpParser) (ch : UInt8) : ∃ parser' : HttpParser,
    parser'.state = parser.state ∧ (parser.Live → parser'.Live) ∧
      ((∀ marks es, (Exec.mk parser marks es).valueByte ch = (⟨parser', marks, es⟩, .advance 0)) ∨
        ∀ marks es, (Exec.mk parser marks es).valueByte ch = (Exec.mk parser marks es).fail) := by
  unfold valueByte
  dsimp only
  split
  · by_cases hsp : ch = SP
    · exact ⟨parser, rfl, id, .inl fun marks es => if_pos hsp⟩
    · by_cases hnum : isNum ch
      · by_cases hmax : (ULLONG_MAX - 10) / 10 < parser.contentLength
        · exact ⟨parser, rfl, id, .inr fun marks es => by
            simp only [if_neg hsp, if_pos hnum, if_pos hmax]⟩
        · exact ⟨{ parser with contentLength := parser.contentLength * 10 + (ch.toNat - 48) }, rfl,
            id, .inl fun marks es => by simp only [if_neg hsp, if_pos hnum, if_neg hmax]⟩
      · exact ⟨parser, rfl, id, .inr fun marks es => by simp only [if_neg hsp, if_neg hnum]⟩
  · exact ⟨matching parser CHUNKED .transferEncodingChunked (lower ch), rfl, id,
      .inl fun _ _ => rfl⟩
  · exact ⟨matching parser KEEP_ALIVE .connectionKeepAlive (lower ch), rfl, id, .inl fun _ _ => rfl⟩
  · exact ⟨matching parser CLOSE .connectionClose (lower ch), rfl, id, .inl fun _ _ => rfl⟩
  · exact ⟨if ch ≠ SP then { parser with headerState := .general } else parser, by split <;> rfl,
      by split <;> exact id, .inl fun marks es => by split <;> rfl⟩
  · exact ⟨if ch ≠ SP then { parser with headerState := .general } else parser, by split <;> rfl,
      by split <;> exact id, .inl fun marks es => by split <;> rfl⟩
  · exact ⟨if ch ≠ SP then { parser with headerState := .general } else parser, by split <;> rfl,
      by split <;> exact id, .inl fun marks es => by split <;> rfl⟩
  · exact ⟨{ parser with headerState := .general }, rfl, id, .inl fun _ _ => rfl⟩

/-- A value ends with the line. -/
theorem reads_headerValue : Reads .headerValue parser rest
    fun ptr es => (Exec.mk parser (only .headerValue ptr) es).headerValue ch rest := by
  by_cases hcr : ch = CR
  · refine .ends { parser with state := .headerAlmostDone } rfl id fun ptr es => ?_
    simp only [headerValue, if_pos hcr, goto, callbackData_only, List.length_cons]
  · by_cases hlf : ch = LF
    · refine .ends { parser with state := .headerValueLws } rfl id fun ptr es => ?_
      simp only [headerValue, if_neg hcr, if_pos hlf, goto, callbackData_only, List.length_cons,
        headerAlmostDone, expect, if_neg (not_not.2 hlf)]
    · simp only [headerValue, if_neg hcr, if_neg hlf]
      obtain ⟨parser', hs, hlive, h | h⟩ := valueByte_spec parser ch
      · exact .more parser' hs hlive fun ptr es => h _ _
      · exact .fails { parser with failed := true } fun ptr es => h _ _

/-- The data of a chunk have ended, and are reported. -/
theorem reads_chunkDataAlmostDone : Reads .body parser rest
    fun ptr es => (Exec.mk parser (only .body ptr) es).chunkDataAlmostDone ch rest := by
  by_cases hcr : ch = CR
  · refine .ends { parser with state := .chunkDataDone } rfl id fun ptr es => ?_
    simp only [chunkDataAlmostDone, if_neg (not_not.2 hcr), goto, callbackData_only,
      List.length_cons]
  · exact .fails { parser with failed := true } fun ptr es => by
      simp only [chunkDataAlmostDone, if_pos hcr, fail]

/-- What a byte does while a string is read, or still to be reported. -/
theorem reads_step (hs : parser.state.holds = some k) : Reads k parser rest
    fun ptr es => (Exec.mk parser (only k ptr) es).step ret ch rest := by
  cases hstate : parser.state with
  | resStatus =>
    obtain rfl := Option.some.inj (hstate ▸ hs)
    refine .header ret ch rest (by rw [hstate]; rfl) fun parser' hs' => ?_
    simp only [dispatch, hs', hstate]
    exact reads_status ch rest
  | headerField =>
    obtain rfl := Option.some.inj (hstate ▸ hs)
    refine .header ret ch rest (by rw [hstate]; rfl) fun parser' hs' => ?_
    simp only [dispatch, hs', hstate]
    exact reads_headerField ch rest
  | headerValue =>
    obtain rfl := Option.some.inj (hstate ▸ hs)
    refine .header ret ch rest (by rw [hstate]; rfl) fun parser' hs' => ?_
    simp only [dispatch, hs', hstate]
    exact reads_headerValue ch rest
  | chunkDataAlmostDone =>
    obtain rfl := Option.some.inj (hstate ▸ hs)
    simp only [step, dispatch, hstate, State.parsingHeader, Bool.false_eq_true, if_false]
    exact reads_chunkDataAlmostDone ch rest
  | _ => simp [hstate, State.holds, State.reads] at hs

end reads

/-- It keeps the marks. -/
theorem Reads.does {parser : HttpParser} {k : Kind} {ptr : Bytes}
    {f : Bytes → List Event → Exec × Next} (h : Reads k parser rest f)
    (hs : parser.state.holds = some k) (hlive : parser.Live) (hptr : ch :: rest <:+ ptr) :
    Does ch rest (f ptr []) := by
  have hrest : rest <:+ ptr := (List.suffix_cons ch rest).trans hptr
  cases h with
  | more parser' hs' hlive' h =>
    rw [h]
    exact does_advance (by simp) (Nat.zero_le _)
      (.inr ⟨k, ptr, by rw [hs']; exact hs, rfl, hrest⟩) (hlive' hlive)
  | ends parser' hs' hlive' h =>
    rw [h]
    refine does_quiet (fun ev hmem => ?_) rfl hs' (hlive' hlive)
    rw [List.mem_singleton.1 hmem]
    exact ⟨hptr, Nat.sub_le ..⟩
  | fails parser' h =>
    rw [h]
    exact ⟨by simp, (fun _ h => nomatch h), (fun _ h => nomatch h), (fun _ h => nomatch h),
      (fun h => nomatch h)⟩

/-- Every byte keeps the marks, and causes events at itself. -/
theorem does_step (hev : e.events = []) (hm : e.Marked (ch :: rest)) (hlive : e.parser.Live)
    (h : ¬e.Straddles (rest.length + 1)) : Does ch rest (e.step ret ch rest) := by
  obtain ⟨parser, marks, events⟩ := e
  obtain rfl : events = [] := hev
  rcases hm with ⟨hreads, rfl⟩ | ⟨k, ptr, hs, rfl, hptr⟩
  · have hat : ∀ ev ∈ (Exec.mk parser noMarks []).events, ev.At (ch :: rest) := by simp
    unfold step
    split
    · dsimp only
      split
      · exact does_fail hat
      · exact does_dispatch hat rfl hlive hreads h
    · exact does_dispatch hat rfl hlive hreads h
  · exact (reads_step ret ch rest hs).does hs hlive hptr

end Exec

end HttpParser

end Mistress
