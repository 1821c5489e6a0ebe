import Mistress.SplitInvariance
import Mistress.ParserTrace

/-!
# A buffer that goes on

A byte of a buffer comes to the same where the buffer goes on with more bytes
(`step_extend`): the marks and the events only point into a longer buffer. The
exception is a read of the body, which takes what there is (`Straddles`).

A position in a buffer is what is left of the buffer from there on, so a position in
the longer buffer is one in the shorter with the new bytes `b` appended to it. An
execution is carried over to the longer buffer by appending `b` to its marks and to the
positions of its events (`Exec.extend`). What the parser is made of does not depend on
the buffer, and stays as it is.

* Each operation on an execution commutes with `extend`. These are the `simp` lemmas
  of the first section, and the states need no others.
* Each state of the parser does (`dispatch_extend`), and so does a byte (`step_extend`).
-/

open LuaStack

namespace Mistress

namespace HttpParser

namespace Exec

variable {ret : Nat} {e : Exec} {ch : UInt8} {rest p b : Bytes}

/-- An execution in a longer buffer. -/
def extend (b : Bytes) (e : Exec) : Exec where
  parser := e.parser
  marks k := (e.marks k).map (· ++ b)
  events := e.events.map (Event.extend b)

/-- What a byte comes to, in a longer buffer. -/
def extendResult (b : Bytes) (r : Exec × Next) : Exec × Next := (r.1.extend b, r.2)

@[simp] theorem parser_extend (b : Bytes) (e : Exec) : (e.extend b).parser = e.parser := rfl

@[simp] theorem marks_extend (b : Bytes) (e : Exec) (k : Kind) :
    (e.extend b).marks k = (e.marks k).map (· ++ b) := rfl

@[simp] theorem mk_extend (b : Bytes) (e : Exec) (parser : HttpParser) :
    Exec.mk parser (e.extend b).marks (e.extend b).events =
      (Exec.mk parser e.marks e.events).extend b := rfl

@[simp] theorem goto_extend (b : Bytes) (e : Exec) (s : State) :
    (e.extend b).goto s = (e.goto s).extend b := rfl

@[simp] theorem header_extend (b : Bytes) (e : Exec) (s : HeaderState) :
    (e.extend b).header s = (e.header s).extend b := rfl

@[simp] theorem fail_extend (b : Bytes) (e : Exec) :
    (e.extend b).fail = extendResult b e.fail := rfl

/-- An event of the shorter buffer is one of the longer. -/
theorem notify_extend (b : Bytes) (e : Exec) (event : Event) :
    (e.extend b).notify (event.extend b) = (e.notify event).extend b := by
  simp [notify, extend]

@[simp] theorem messageBegin_extend (b : Bytes) (e : Exec) :
    (e.extend b).notify .messageBegin = (e.notify .messageBegin).extend b :=
  notify_extend b e .messageBegin

@[simp] theorem complete_extend (b : Bytes) (e : Exec) :
    (e.extend b).complete = e.complete.extend b :=
  notify_extend b (e.goto e.parser.newMessage) .messageComplete

/-- Setting a mark and appending to the marks can be exchanged. -/
theorem map_update (marks : Kind → Option Bytes) (k : Kind) (m : Option Bytes) :
    Function.update (fun k => (marks k).map (· ++ b)) k (m.map (· ++ b)) =
      fun k' => (Function.update marks k m k').map (· ++ b) := by
  funext k'
  by_cases h : k' = k
  · subst h
    simp
  · simp [h]

/-- `MARK` sets the mark at the same byte. -/
@[simp] theorem mark_extend (b : Bytes) (e : Exec) (k : Kind) (p : Bytes) :
    (e.extend b).mark k (p ++ b) = (e.mark k p).extend b := by
  cases hk : e.marks k with
  | none =>
    simp only [mark, marks_extend, hk, Option.map_none]
    simp only [extend, ← map_update, Option.map_some]
  | some ptr => simp only [mark, marks_extend, hk, Option.map_some]

/-- A string is reported with the same length: both ends of it move by as much. -/
@[simp] theorem callbackData_extend (b : Bytes) (e : Exec) (k : Kind) (p : Bytes) :
    (e.extend b).callbackData k (p ++ b) = (e.callbackData k p).extend b := by
  cases hk : e.marks k with
  | none => simp only [callbackData, marks_extend, hk, Option.map_none]
  | some ptr =>
    have hlen : (ptr ++ b).length - (p ++ b).length = ptr.length - p.length := by
      simp only [List.length_append]
      omega
    simp only [callbackData, marks_extend, hk, Option.map_some, hlen]
    simp only [extend, ← map_update, Option.map_none, List.map_append, List.map_cons, List.map_nil,
      Event.extend]

@[simp] theorem mark_extend_cons (b : Bytes) (e : Exec) (k : Kind) (ch : UInt8) (p : Bytes) :
    (e.extend b).mark k (ch :: (p ++ b)) = (e.mark k (ch :: p)).extend b :=
  mark_extend b e k (ch :: p)

@[simp] theorem callbackData_extend_cons (b : Bytes) (e : Exec) (k : Kind) (ch : UInt8)
    (p : Bytes) :
    (e.extend b).callbackData k (ch :: (p ++ b)) = (e.callbackData k (ch :: p)).extend b :=
  callbackData_extend b e k (ch :: p)

@[simp] theorem headersComplete_extend_cons (b : Bytes) (e : Exec) (ch : UInt8) (p : Bytes)
    (code : Nat) (alive : Bool) :
    (e.extend b).notify (.headersComplete (ch :: (p ++ b)) code alive) =
      (e.notify (.headersComplete (ch :: p) code alive)).extend b :=
  notify_extend b e (.headersComplete (ch :: p) code alive)

@[simp] theorem extendResult_mk (b : Bytes) (e : Exec) (next : Next) :
    extendResult b (e, next) = (e.extend b, next) := rfl

/-- A branch of the parser looks at no more than the byte and the parser. -/
@[simp] theorem ite_extend (b : Bytes) (c : Prop) [Decidable c] (r r' : Exec × Next) :
    extendResult b (if c then r else r') = if c then extendResult b r else extendResult b r' :=
  apply_ite _ c r r'

/-! ### The states

What a byte comes to in each of the states: the same in both buffers. -/

theorem dead_extend : (e.extend b).dead ch = extendResult b (e.dead ch) := by
  simp only [dead, ite_extend, extendResult_mk, fail_extend]

theorem expect_extend (c : UInt8) (s : State) :
    (e.extend b).expect c s ch = extendResult b (e.expect c s ch) := by
  simp only [expect, ite_extend, extendResult_mk, fail_extend, goto_extend]

theorem startRes_extend : (e.extend b).startRes ch = extendResult b (e.startRes ch) := by
  simp only [startRes, ite_extend, extendResult_mk, fail_extend, goto_extend, parser_extend,
    mk_extend, messageBegin_extend]

theorem resFirstHttpMajor_extend :
    (e.extend b).resFirstHttpMajor ch = extendResult b (e.resFirstHttpMajor ch) := by
  simp [resFirstHttpMajor]

theorem resHttpMajor_extend :
    (e.extend b).resHttpMajor ch = extendResult b (e.resHttpMajor ch) := by
  unfold resHttpMajor
  dsimp only [parser_extend]
  split_ifs <;> rfl

theorem resFirstHttpMinor_extend :
    (e.extend b).resFirstHttpMinor ch = extendResult b (e.resFirstHttpMinor ch) := by
  simp [resFirstHttpMinor]

theorem resHttpMinor_extend :
    (e.extend b).resHttpMinor ch = extendResult b (e.resHttpMinor ch) := by
  unfold resHttpMinor
  dsimp only [parser_extend]
  split_ifs <;> rfl

theorem resFirstStatusCode_extend :
    (e.extend b).resFirstStatusCode ch = extendResult b (e.resFirstStatusCode ch) := by
  simp [resFirstStatusCode]

theorem resStatusCode_extend :
    (e.extend b).resStatusCode ch = extendResult b (e.resStatusCode ch) := by
  unfold resStatusCode
  dsimp only [parser_extend]
  split_ifs <;> rfl

theorem resStatusStart_extend :
    (e.extend b).resStatusStart ch (rest ++ b) = extendResult b (e.resStatusStart ch rest) := by
  simp [resStatusStart]

theorem resStatus_extend :
    (e.extend b).resStatus ch (rest ++ b) = extendResult b (e.resStatus ch rest) := by
  simp [resStatus]

theorem headersDone_extend : (e.extend b).headersDone ch = extendResult b (e.headersDone ch) := by
  simp [headersDone]

/-- The end of the headers, whose callback is given the place of the body in the buffer. -/
theorem headersAlmostDone_extend : (e.extend b).headersAlmostDone ret ch (rest ++ b) =
    extendResult b (e.headersAlmostDone ret ch rest) := by
  unfold headersAlmostDone
  simp only [ite_extend, fail_extend, parser_extend, complete_extend, extendResult_mk, mk_extend,
    headersComplete_extend_cons]
  split_ifs
  · rfl
  · rfl
  · split
    · exact headersDone_extend
    · exact headersDone_extend
    · rfl

/-- A line begins: with a name, or with the end of the headers. -/
theorem headerFieldStart_extend : (e.extend b).headerFieldStart ret ch (rest ++ b) =
    extendResult b (e.headerFieldStart ret ch rest) := by
  unfold headerFieldStart
  simp only [ite_extend, goto_extend, headersAlmostDone_extend, extendResult_mk]
  split_ifs
  · rfl
  · rfl
  · split
    · rfl
    · simp

/-- A byte of a name. -/
theorem headerField_extend :
    (e.extend b).headerField ch (rest ++ b) = extendResult b (e.headerField ch rest) := by
  unfold headerField
  split
  · rfl
  · simp

theorem headerValueStart_extend : (e.extend b).headerValueStart ch (rest ++ b) =
    extendResult b (e.headerValueStart ch rest) := by
  unfold headerValueStart
  simp only [mark_extend_cons, parser_extend, mk_extend]
  split <;> simp

theorem headerValueDiscardWs_extend : (e.extend b).headerValueDiscardWs ch (rest ++ b) =
    extendResult b (e.headerValueDiscardWs ch rest) := by
  simp [headerValueDiscardWs, headerValueStart_extend]

/-- A byte of a value, which is compared with the texts that matter. -/
theorem valueByte_extend : (e.extend b).valueByte ch = extendResult b (e.valueByte ch) := by
  unfold valueByte
  dsimp only [parser_extend]
  split
  · simp only [ite_extend, fail_extend, mk_extend, extendResult_mk]
    rfl
  · rfl
  · rfl
  · rfl
  · split <;> rfl
  · split <;> rfl
  · split <;> rfl
  · rfl

theorem headerValue_extend :
    (e.extend b).headerValue ch (rest ++ b) = extendResult b (e.headerValue ch rest) := by
  simp [headerValue, valueByte_extend, headerAlmostDone, expect_extend]

theorem finishHeader_extend : (e.extend b).finishHeader = e.finishHeader.extend b := by
  unfold finishHeader
  simp only [parser_extend]
  split <;> rfl

/-- The byte after a line: it goes on with the line, or begins the next one. -/
theorem headerValueLws_extend : (e.extend b).headerValueLws ret ch (rest ++ b) =
    extendResult b (e.headerValueLws ret ch rest) := by
  simp [headerValueLws, headerValueStart_extend, finishHeader_extend, headerFieldStart_extend]

theorem headerValueDiscardLws_extend : (e.extend b).headerValueDiscardLws ret ch (rest ++ b) =
    extendResult b (e.headerValueDiscardLws ret ch rest) := by
  simp [headerValueDiscardLws, headerFieldStart_extend]

/-- The body is read as far as the shorter buffer goes. -/
theorem readBody_extend (h : e.parser.contentLength ≤ p.length) :
    (e.extend b).readBody (p ++ b) = ((e.readBody p).1.extend b, (e.readBody p).2) := by
  have hmin : min e.parser.contentLength (p ++ b).length = min e.parser.contentLength p.length := by
    rw [List.length_append]
    omega
  simp only [readBody, parser_extend, hmin, mark_extend, mk_extend]

/-- The body, as long as it ends within the shorter buffer. -/
theorem bodyIdentity_extend (h : e.parser.contentLength ≤ rest.length + 1) :
    (e.extend b).bodyIdentity ch (rest ++ b) = extendResult b (e.bodyIdentity ch rest) := by
  have hread := readBody_extend (b := b) (p := ch :: rest) h
  have hdrop : (ch :: (rest ++ b)).drop (e.readBody (ch :: rest)).2 =
      (ch :: rest).drop (e.readBody (ch :: rest)).2 ++ b :=
    List.drop_append_of_le_length (Nat.min_le_right ..)
  rw [List.cons_append] at hread
  unfold bodyIdentity
  rw [hread]
  dsimp only [parser_extend]
  rw [hdrop]
  simp only [goto_extend, callbackData_extend, complete_extend]
  split <;> rfl

theorem messageDone_extend : (e.extend b).messageDone = extendResult b e.messageDone := by
  simp [messageDone]

theorem chunkSizeStart_extend :
    (e.extend b).chunkSizeStart ch = extendResult b (e.chunkSizeStart ch) := by
  unfold chunkSizeStart
  split <;> rfl

/-- A byte of the size of a chunk: a digit, or the end of the size. -/
theorem chunkSize_extend : (e.extend b).chunkSize ch = extendResult b (e.chunkSize ch) := by
  unfold chunkSize
  split
  · rfl
  · split
    · simp only [ite_extend, goto_extend, fail_extend, extendResult_mk]
    · simp only [ite_extend, parser_extend, fail_extend, mk_extend, extendResult_mk]
      rfl

theorem chunkParameters_extend :
    (e.extend b).chunkParameters ch = extendResult b (e.chunkParameters ch) := by
  simp [chunkParameters]

theorem chunkSizeAlmostDone_extend :
    (e.extend b).chunkSizeAlmostDone ch = extendResult b (e.chunkSizeAlmostDone ch) := by
  simp only [chunkSizeAlmostDone, ite_extend, parser_extend, fail_extend, mk_extend,
    extendResult_mk]
  rfl

/-- The data of a chunk, as long as they end within the shorter buffer. -/
theorem chunkData_extend (h : e.parser.contentLength ≤ rest.length + 1) :
    (e.extend b).chunkData ch (rest ++ b) = extendResult b (e.chunkData ch rest) := by
  have hread := readBody_extend (b := b) (p := ch :: rest) h
  unfold chunkData
  rw [List.cons_append] at hread
  rw [hread]
  simp only [parser_extend, goto_extend, extendResult_mk, apply_ite (extend b)]
  rfl

theorem chunkDataAlmostDone_extend :
    (e.extend b).chunkDataAlmostDone ch (rest ++ b) =
      extendResult b (e.chunkDataAlmostDone ch rest) := by
  simp [chunkDataAlmostDone]

theorem chunkDataDone_extend :
    (e.extend b).chunkDataDone ch = extendResult b (e.chunkDataDone ch) := by
  simp [chunkDataDone]

/-- The body goes on after the `n` bytes that are left of the buffer. -/
def Straddles (e : Exec) (n : Nat) : Prop :=
  match e.parser.state with
  | .bodyIdentity | .chunkData => n < e.parser.contentLength
  | .bodyIdentityEof => True
  | _ => False

/-- Whatever the state, unless a read of the body takes what there is. -/
theorem dispatch_extend (h : ¬e.Straddles (rest.length + 1)) :
    (e.extend b).dispatch ret ch (rest ++ b) = extendResult b (e.dispatch ret ch rest) := by
  unfold dispatch
  simp only [parser_extend]
  cases hs : e.parser.state with
  | dead => exact dead_extend
  | startRes => exact startRes_extend
  | resH | resHT | resHTT | resHTTP | resLineAlmostDone | headerValueDiscardWsAlmostDone
  | headerAlmostDone => exact expect_extend ..
  | resFirstHttpMajor => exact resFirstHttpMajor_extend
  | resHttpMajor => exact resHttpMajor_extend
  | resFirstHttpMinor => exact resFirstHttpMinor_extend
  | resHttpMinor => exact resHttpMinor_extend
  | resFirstStatusCode => exact resFirstStatusCode_extend
  | resStatusCode => exact resStatusCode_extend
  | resStatusStart => exact resStatusStart_extend
  | resStatus => exact resStatus_extend
  | headerFieldStart => exact headerFieldStart_extend
  | headerField => exact headerField_extend
  | headerValueDiscardWs => exact headerValueDiscardWs_extend
  | headerValueDiscardLws => exact headerValueDiscardLws_extend
  | headerValueStart => exact headerValueStart_extend
  | headerValue => exact headerValue_extend
  | headerValueLws => exact headerValueLws_extend
  | chunkSizeStart => exact chunkSizeStart_extend
  | chunkSize => exact chunkSize_extend
  | chunkParameters => exact chunkParameters_extend
  | chunkSizeAlmostDone => exact chunkSizeAlmostDone_extend
  | headersAlmostDone => exact headersAlmostDone_extend
  | headersDone => exact headersDone_extend
  | chunkData => exact chunkData_extend (Nat.le_of_not_lt (by simpa [Straddles, hs] using h))
  | chunkDataAlmostDone => exact chunkDataAlmostDone_extend
  | chunkDataDone => exact chunkDataDone_extend
  | bodyIdentity => exact bodyIdentity_extend (Nat.le_of_not_lt (by simpa [Straddles, hs] using h))
  | bodyIdentityEof => simp [Straddles, hs] at h
  | messageDone => exact messageDone_extend

/-- A byte comes to the same in a longer buffer, unless it begins a read of the body that
    goes on in what the buffer is longer by. -/
theorem step_extend (h : ¬e.Straddles (rest.length + 1)) :
    (e.extend b).step ret ch (rest ++ b) = extendResult b (e.step ret ch rest) := by
  unfold step
  simp only [parser_extend, mk_extend, fail_extend, ite_extend]
  rw [dispatch_extend h, dispatch_extend (by simpa only [Straddles] using h)]
  rfl

end Exec

end HttpParser

end Mistress
