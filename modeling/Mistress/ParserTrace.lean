import Mistress.HttpParser
import Mistress.ReadResult

/-!
# The callbacks of the parser

In which order an execution of the HTTP parser calls the callbacks.

* `Mode`: what has been reported of a message. A message begins, its headers are
  reported, each by its name and then by its values, of which those but the first
  are not empty, then its body, and it is complete (`Mode.next`).
* `Exec.Stands`: the mode that goes with a state of the parser.
* `Exec.dispatch_steps`, `Exec.loop_steps`: what a byte, and the loop, report.
* `execute_events`: what the execution of a new parser reports.
-/

namespace Mistress

open LuaStack

namespace HttpParser

/-! ## Modes -/

/-- What has been reported of a message. -/
inductive Mode
  /-- Nothing. -/
  | idle
  /-- Its beginning. -/
  | line
  /-- Last, the name of a header. -/
  | named
  /-- Last, a value of a header. -/
  | valued
  /-- The end of the headers. -/
  | body
  /-- Its end. -/
  | ended
  deriving DecidableEq

/-- What may be reported next. Nothing is said of the messages that follow. -/
def Mode.next : Mode → Event → Option Mode
  | .ended, _ => some .ended
  | .idle, .messageBegin => some .line
  | .line, .data .status _ _ => some .line
  | .line, .data .headerField ptr n | .named, .data .headerField ptr n
  | .valued, .data .headerField ptr n => if ptr.take n = [] then none else some .named
  | .named, .data .headerValue _ _ => some .valued
  | .valued, .data .headerValue ptr n => if ptr.take n = [] then none else some .valued
  | .line, .headersComplete _ _ _ | .named, .headersComplete _ _ _
  | .valued, .headersComplete _ _ _ => some .body
  | .body, .data .headerField _ _ | .body, .data .headerValue _ _ | .body, .data .body _ _ =>
    some .body
  | .body, .messageComplete => some .ended
  | _, _ => none

/-- What may be reported, from a mode on. -/
def Mode.run (mode : Mode) (es : List Event) : Option Mode := es.foldlM Mode.next mode

@[simp] theorem Mode.run_nil (mode : Mode) : mode.run [] = some mode := rfl

theorem Mode.run_append (mode : Mode) (es es' : List Event) :
    mode.run (es ++ es') = (mode.run es).bind (·.run es') := by
  simp [Mode.run, List.foldlM_append]

theorem Mode.run_concat {mode mode' : Mode} {es : List Event} (h : mode.run es = some mode')
    (e : Event) : mode.run (es ++ [e]) = mode'.next e := by
  rw [Mode.run_append, h]
  simp [Mode.run]

@[simp] theorem Mode.run_ended (es : List Event) : Mode.ended.run es = some .ended := by
  induction es with
  | nil => rfl
  | cons e es ih => exact ih

/-- The headers are being reported. -/
def Mode.inHead : Mode → Prop
  | .line | .named | .valued => True
  | _ => False

/-- The event is one of the headers, or it is their end. -/
theorem Mode.next_head {e : Event} {mode mode' : Mode} (hmode : mode.inHead)
    (h : mode.next e = some mode') :
    (e.IsHead ∧ mode'.inHead) ∨ (e.isHeadersComplete ∧ mode' = .body) := by
  cases mode <;> try cases hmode
  all_goals
    cases e with
    | messageBegin => cases h
    | messageComplete => cases h
    | headersComplete => exact .inr ⟨rfl, (Option.some.inj h).symm⟩
    | data kind ptr length =>
      cases kind <;> simp only [Mode.next, reduceCtorEq] at h <;> (try split at h) <;> cases h <;>
        exact .inl ⟨by simp [Event.IsHead], trivial⟩

theorem Mode.next_status {p : Bytes} {n : Nat} {mode mode' : Mode} (hmode : mode.inHead)
    (h : mode.next (.data .status p n) = some mode') : mode = .line ∧ mode' = .line := by
  cases mode <;> try cases hmode
  · exact ⟨rfl, (Option.some.inj h).symm⟩
  · cases h
  · cases h

theorem Mode.next_headerField {p : Bytes} {n : Nat} {mode mode' : Mode} (hmode : mode.inHead)
    (h : mode.next (.data .headerField p n) = some mode') : p.take n ≠ [] ∧ mode' = .named := by
  have hnext : (if p.take n = [] then none else some Mode.named) = some mode' := by
    cases mode <;> first | exact h | cases hmode
  split at hnext
  · cases hnext
  · rename_i hne
    exact ⟨hne, (Option.some.inj hnext).symm⟩

theorem Mode.next_headerValue {p : Bytes} {n : Nat} {mode mode' : Mode} (hmode : mode.inHead)
    (h : mode.next (.data .headerValue p n) = some mode') :
    (mode = .valued → p.take n ≠ []) ∧ mode ≠ .line ∧ mode' = .valued := by
  cases mode <;> try cases hmode
  · cases h
  · exact ⟨by simp, by simp, (Option.some.inj h).symm⟩
  · have hnext : (if p.take n = [] then none else some Mode.valued) = some mode' := h
    split at hnext
    · cases hnext
    · rename_i hne
      exact ⟨fun _ => hne, by simp, (Option.some.inj hnext).symm⟩

/-- A message whose headers are being reported: they may end. -/
theorem Mode.run_head {es : List Event} {mode mode' : Mode} (hmode : mode.inHead)
    (h : mode.run es = some mode') :
    (mode'.inHead ∧ ∀ e ∈ es, e.IsHead) ∨
      ∃ head ptr statusCode keepAlive es' mode'',
        es = head ++ .headersComplete ptr statusCode keepAlive :: es' ∧ (∀ e ∈ head, e.IsHead) ∧
        mode.run head = some mode'' ∧ mode''.inHead ∧ Mode.body.run es' = some mode' := by
  induction es generalizing mode with
  | nil => exact .inl ⟨Option.some.inj h ▸ hmode, fun _ he => absurd he List.not_mem_nil⟩
  | cons e es ih =>
    obtain ⟨m, hnext, hrun⟩ := Option.bind_eq_some_iff.1 (show (mode.next e).bind (·.run es) = _ from h)
    rcases Mode.next_head hmode hnext with ⟨he, hm⟩ | ⟨he, rfl⟩
    · rcases ih hm hrun with ⟨hmode', hes⟩ | ⟨head, ptr, code, alive, es', m', rfl, hhead, hr, hm', hb⟩
      · exact .inl ⟨hmode', List.forall_mem_cons.2 ⟨he, hes⟩⟩
      · refine .inr ⟨e :: head, ptr, code, alive, es', m', rfl, List.forall_mem_cons.2 ⟨he, hhead⟩,
          ?_, hm', hb⟩
        exact Option.bind_eq_some_iff.2 ⟨m, hnext, hr⟩
    · cases e with
      | headersComplete ptr code alive =>
        exact .inr ⟨[], ptr, code, alive, es, mode, rfl, fun _ he => absurd he List.not_mem_nil, rfl,
          hmode, hrun⟩
      | _ => cases he

/-- A message whose body is being reported: it may end. -/
theorem Mode.run_body {es : List Event} {mode' : Mode} (h : Mode.body.run es = some mode') :
    ∃ tail es', es = tail ++ es' ∧ (∀ e ∈ tail, e.IsTail) ∧
      (es' = [] ∨ ∃ more, es' = .messageComplete :: more) := by
  induction es with
  | nil => exact ⟨[], [], rfl, fun _ he => absurd he List.not_mem_nil, .inl rfl⟩
  | cons e es ih =>
    obtain ⟨m, hnext, hrun⟩ := Option.bind_eq_some_iff.1
      (show (Mode.body.next e).bind (·.run es) = _ from h)
    cases e with
    | messageBegin => cases hnext
    | headersComplete => cases hnext
    | messageComplete => exact ⟨[], _, rfl, fun _ he => absurd he List.not_mem_nil, .inr ⟨es, rfl⟩⟩
    | data kind ptr length =>
      have hkind : Event.IsTail (.data kind ptr length) ∧ m = .body := by
        cases kind <;> simp_all [Mode.next, Event.IsTail]
      obtain ⟨htail, rfl⟩ := hkind
      obtain ⟨tail, es', rfl, hes, hend⟩ := ih hrun
      exact ⟨.data kind ptr length :: tail, es', rfl, List.forall_mem_cons.2 ⟨htail, hes⟩, hend⟩

/-- What has been reported of a message: nothing, a part of its headers, or its headers
    and a part of what follows. -/
theorem Mode.run_idle {es : List Event} {mode : Mode} (h : Mode.idle.run es = some mode) :
    es = [] ∨ (∃ head, es = .messageBegin :: head ∧ ∀ e ∈ head, e.IsHead) ∨
      ∃ head ptr statusCode keepAlive tail es' mode',
        es = .messageBegin :: head ++ .headersComplete ptr statusCode keepAlive :: (tail ++ es') ∧
        (∀ e ∈ head, e.IsHead) ∧ Mode.line.run head = some mode' ∧ mode'.inHead ∧
        (∀ e ∈ tail, e.IsTail) ∧ (es' = [] ∨ ∃ more, es' = .messageComplete :: more) := by
  cases es with
  | nil => exact .inl rfl
  | cons e es =>
    right
    obtain ⟨m, hnext, hrun⟩ := Option.bind_eq_some_iff.1
      (show (Mode.idle.next e).bind (·.run es) = _ from h)
    cases e with
    | messageBegin =>
      obtain rfl : Mode.line = m := Option.some.inj hnext
      have hline : Mode.line.inHead := trivial
      rcases Mode.run_head hline hrun with
        ⟨-, hes⟩ | ⟨head, ptr, code, alive, es', m', rfl, hhead, hr, hm', hb⟩
      · exact .inl ⟨es, rfl, hes⟩
      · obtain ⟨tail, es'', rfl, htail, hend⟩ := Mode.run_body hb
        exact .inr ⟨head, ptr, code, alive, tail, es'', m', rfl, hhead, hr, hm', htail, hend⟩
    | _ => cases hnext

/-- The string whose mark may be set in a state. -/
def State.marked : State → Option Kind
  | .resStatus => some .status
  | .headerField => some .headerField
  | .headerValue => some .headerValue
  | .chunkData | .chunkDataAlmostDone | .bodyIdentity | .bodyIdentityEof => some .body
  | _ => none

/-- The mode goes with a state. After the body, the headers are those of a trailer. -/
def Place (mode : Mode) (trailing : Bool) : State → Prop
  | .resH | .resHT | .resHTT | .resHTTP | .resFirstHttpMajor | .resHttpMajor | .resFirstHttpMinor
  | .resHttpMinor | .resFirstStatusCode | .resStatusCode | .resStatusStart | .resStatus
  | .resLineAlmostDone => trailing = false ∧ mode = .line
  | .headerFieldStart | .headerField | .headersAlmostDone =>
    if trailing then mode = .body else mode = .line ∨ mode = .named ∨ mode = .valued
  | .headerValueDiscardWs | .headerValueDiscardWsAlmostDone | .headerValueDiscardLws =>
    if trailing then mode = .body else mode = .named
  | .headerValueStart | .headerValue | .headerAlmostDone | .headerValueLws =>
    if trailing then mode = .body else mode = .named ∨ mode = .valued
  | .chunkSizeStart | .chunkSize | .chunkParameters | .chunkSizeAlmostDone | .chunkData
  | .chunkDataAlmostDone | .chunkDataDone | .bodyIdentity | .bodyIdentityEof => mode = .body
  | .dead | .startRes | .headersDone | .messageDone => False

/-- A value may begin after the name. -/
theorem Place.value {mode : Mode} {trailing : Bool} (h : Place mode trailing .headerValueDiscardWs) :
    Place mode trailing .headerValue := by
  cases trailing
  · exact .inl h
  · exact h

/-- A header may begin after a value. -/
theorem Place.start {mode : Mode} {trailing : Bool} (h : Place mode trailing .headerValue) :
    Place mode trailing .headerFieldStart := by
  cases trailing
  · exact .inr h
  · exact h

namespace Exec

variable {ret : Nat} {e e' : Exec} {ch : UInt8} {rest p : Bytes} {m₀ mode mode' : Mode}

/-- The mode goes with an execution that has come to `p`. A string that has a mark
    set is not empty, unless it is one of the body or of the trailer. -/
structure Stands (mode : Mode) (p : Bytes) (e : Exec) : Prop where
  place : Place mode e.parser.flags.trailing e.parser.state
  marks : ∀ k : Kind, ∀ ptr : Bytes, e.marks k = some ptr →
    e.parser.state.marked = some k ∧ (mode = .body ∨ p.length < ptr.length)
  field : e.parser.state = .headerField → mode ≠ .body → e.marks .headerField ≠ none
  value : e.parser.state = .headerValue → mode ≠ .body → e.marks .headerValue ≠ none

/-- What a byte reports, from the mode `m₀` on, and how the loop goes on. -/
def Steps (m₀ : Mode) (rest : Bytes) (r : Exec × Next) : Prop :=
  ∃ mode, m₀.run r.1.events = some mode ∧
    ∀ skip, r.2 = .advance skip → mode = .ended ∨ Stands mode (rest.drop skip) r.1

theorem steps_fail (hrun : m₀.run e.events = some mode) : Steps m₀ rest e.fail :=
  ⟨mode, hrun, fun _ h => nomatch h⟩

theorem steps_advance (hrun : m₀.run e'.events = some mode) (h : Stands mode rest e') :
    Steps m₀ rest (e', .advance 0) :=
  ⟨mode, hrun, fun _ hs => .inr (Next.advance.inj hs ▸ h)⟩

/-- No string is being read. -/
def Unmarked (e : Exec) : Prop := ∀ k, e.marks k = none

theorem Stands.unmarked (h : Stands mode p e) (hs : e.parser.state.marked = none) : e.Unmarked := by
  intro k
  by_contra hne
  obtain ⟨ptr, hptr⟩ := Option.ne_none_iff_exists'.1 hne
  cases hs.symm.trans (h.marks k ptr hptr).1

theorem Unmarked.stands (h : e.Unmarked) (hplace : Place mode e.parser.flags.trailing e.parser.state)
    (hs : e.parser.state ≠ .headerField ∧ e.parser.state ≠ .headerValue) : Stands mode p e where
  place := hplace
  marks k _ hptr := nomatch (h k).symm.trans hptr
  field hf := absurd hf hs.1
  value hv := absurd hv hs.2

/-- Nothing is reported, and no string is being read afterwards. -/
theorem steps_quiet (hrun : m₀.run e.events = some mode) (hm : e.Unmarked)
    (hevents : e'.events = e.events) (hmarks : e'.marks = e.marks)
    (hplace : Place mode e'.parser.flags.trailing e'.parser.state)
    (hs : e'.parser.state ≠ .headerField ∧ e'.parser.state ≠ .headerValue) :
    Steps m₀ rest (e', .advance 0) :=
  steps_advance (hevents ▸ hrun)
    (Unmarked.stands (fun k => by rw [hmarks]; exact hm k) hplace hs)

/-- The state, the marks and the place stay as they are. -/
theorem Stands.stay (h : Stands mode (ch :: rest) e) (hmarks : e'.marks = e.marks)
    (hstate : e'.parser.state = e.parser.state)
    (hflags : e'.parser.flags.trailing = e.parser.flags.trailing) : Stands mode rest e' where
  place := by rw [hstate, hflags]; exact h.place
  marks k ptr hptr := by
    rw [hmarks] at hptr
    obtain ⟨hk, hlen⟩ := h.marks k ptr hptr
    exact ⟨hstate ▸ hk, hlen.imp_right fun hlt => (Nat.lt_succ_self _).trans hlt⟩
  field hf := by rw [hmarks]; exact h.field (hstate ▸ hf)
  value hv := by rw [hmarks]; exact h.value (hstate ▸ hv)

/-! ### Marks -/

@[simp] theorem mark_events (k : Kind) (p : Bytes) : (e.mark k p).events = e.events := by
  unfold mark
  split <;> rfl

@[simp] theorem parser_mark (k : Kind) (p : Bytes) : (e.mark k p).parser = e.parser := by
  unfold mark
  split <;> rfl

@[simp] theorem parser_callbackData (k : Kind) (p : Bytes) :
    (e.callbackData k p).parser = e.parser := by
  unfold callbackData
  split <;> rfl

theorem Unmarked.mark (h : e.Unmarked) (k k' : Kind) (p : Bytes) :
    (e.mark k p).marks k' = if k' = k then some p else none := by
  simp only [Exec.mark, h k]
  by_cases hk : k' = k
  · rw [if_pos hk, hk, Function.update_self]
  · rw [if_neg hk, Function.update_of_ne hk, h k']

/-- A string begins to be read. -/
theorem Unmarked.stands_mark (h : e.Unmarked) {k : Kind}
    (hmarks : e'.marks = (e.mark k (ch :: rest)).marks) (hs : e'.parser.state.marked = some k)
    (hplace : Place mode e'.parser.flags.trailing e'.parser.state) : Stands mode rest e' := by
  have hk : e'.marks k ≠ none := by
    rw [hmarks, h.mark, if_pos rfl]
    exact Option.some_ne_none _
  refine ⟨hplace, fun k' ptr hptr => ?_, fun hf _ => ?_, fun hv _ => ?_⟩
  · rw [hmarks, h.mark] at hptr
    split at hptr
    · rename_i heq
      obtain rfl := Option.some.inj hptr
      exact ⟨heq ▸ hs, .inr (Nat.lt_succ_self _)⟩
    · cases hptr
  · rw [hf] at hs
    exact Option.some.inj hs ▸ hk
  · rw [hv] at hs
    exact Option.some.inj hs ▸ hk

/-- The callback of the only mark that may be set. -/
theorem unmarked_callbackData {k : Kind} (h : ∀ k', k' ≠ k → e.marks k' = none) (p : Bytes) :
    (e.callbackData k p).Unmarked := by
  intro k'
  unfold callbackData
  split
  · change Function.update e.marks k none k' = none
    by_cases hk : k' = k
    · rw [hk, Function.update_self]
    · rw [Function.update_of_ne hk, h k' hk]
  · rename_i hnone
    by_cases hk : k' = k
    · rw [hk, hnone]
    · exact h k' hk

theorem callbackData_events {k : Kind} {ptr : Bytes} (h : e.marks k = some ptr) (p : Bytes) :
    (e.callbackData k p).events = e.events ++ [.data k ptr (ptr.length - p.length)] := by
  simp only [callbackData, h]

theorem Stands.others (h : Stands mode p e) {k : Kind} (hs : e.parser.state.marked = some k) :
    ∀ k', k' ≠ k → e.marks k' = none := by
  intro k' hk
  by_contra hne
  obtain ⟨ptr, hptr⟩ := Option.ne_none_iff_exists'.1 hne
  exact hk (Option.some.inj ((h.marks k' ptr hptr).1.symm.trans hs))

theorem take_ne_nil {ptr p : Bytes} (h : p.length < ptr.length) :
    ptr.take (ptr.length - p.length) ≠ [] := by
  intro hnil
  have hlen := congrArg List.length hnil
  rw [List.length_take, List.length_nil] at hlen
  omega

/-! ### The status line -/

/-- A byte of a constant of the status line, or of a line's end. -/
theorem expect_steps {c : UInt8} {s : State} (hrun : m₀.run e.events = some mode) (hm : e.Unmarked)
    (hplace : Place mode e.parser.flags.trailing s) (hs : s ≠ .headerField ∧ s ≠ .headerValue) :
    Steps m₀ rest (e.expect c s ch) := by
  unfold expect
  split
  · exact steps_fail hrun
  · exact steps_quiet hrun hm rfl rfl hplace hs

section line

variable (hrun : m₀.run e.events = some .line) (hm : e.Unmarked)
  (ht : e.parser.flags.trailing = false)

include hrun hm ht

theorem resFirstHttpMajor_steps : Steps m₀ rest (e.resFirstHttpMajor ch) := by
  unfold resFirstHttpMajor
  split
  · exact steps_quiet hrun hm rfl rfl ⟨ht, rfl⟩ (by simp)
  · exact steps_fail hrun

theorem resHttpMajor_steps (hs : e.parser.state = .resHttpMajor) :
    Steps m₀ rest (e.resHttpMajor ch) := by
  unfold resHttpMajor
  split
  · exact steps_quiet hrun hm rfl rfl ⟨ht, rfl⟩ (by simp [goto])
  · split
    · dsimp only
      split
      · exact steps_fail hrun
      · exact steps_quiet hrun hm rfl rfl (by rw [hs]; exact ⟨ht, rfl⟩) (by simp [hs])
    · exact steps_fail hrun

theorem resFirstHttpMinor_steps : Steps m₀ rest (e.resFirstHttpMinor ch) := by
  unfold resFirstHttpMinor
  split
  · exact steps_quiet hrun hm rfl rfl ⟨ht, rfl⟩ (by simp)
  · exact steps_fail hrun

theorem resHttpMinor_steps (hs : e.parser.state = .resHttpMinor) :
    Steps m₀ rest (e.resHttpMinor ch) := by
  unfold resHttpMinor
  split
  · exact steps_quiet hrun hm rfl rfl ⟨ht, rfl⟩ (by simp [goto])
  · split
    · dsimp only
      split
      · exact steps_fail hrun
      · exact steps_quiet hrun hm rfl rfl (by rw [hs]; exact ⟨ht, rfl⟩) (by simp [hs])
    · exact steps_fail hrun

theorem resFirstStatusCode_steps (hs : e.parser.state = .resFirstStatusCode) :
    Steps m₀ rest (e.resFirstStatusCode ch) := by
  unfold resFirstStatusCode
  split
  · exact steps_quiet hrun hm rfl rfl ⟨ht, rfl⟩ (by simp)
  · split
    · exact steps_quiet hrun hm rfl rfl (by rw [hs]; exact ⟨ht, rfl⟩) (by simp [hs])
    · exact steps_fail hrun

theorem resStatusCode_steps (hs : e.parser.state = .resStatusCode) :
    Steps m₀ rest (e.resStatusCode ch) := by
  have hplace : Place .line e.parser.flags.trailing .headerFieldStart := by simp [Place, ht]
  unfold resStatusCode
  split
  · dsimp only
    split
    · exact steps_fail hrun
    · exact steps_quiet hrun hm rfl rfl (by rw [hs]; exact ⟨ht, rfl⟩) (by simp [hs])
  · split
    · exact steps_quiet hrun hm rfl rfl ⟨ht, rfl⟩ (by simp [goto])
    · split
      · exact steps_quiet hrun hm rfl rfl ⟨ht, rfl⟩ (by simp [goto])
      · split
        · exact steps_quiet hrun hm rfl rfl hplace (by simp [goto])
        · exact steps_fail hrun

theorem resStatusStart_steps : Steps m₀ rest (e.resStatusStart ch rest) := by
  have hplace : Place .line e.parser.flags.trailing .headerFieldStart := by simp [Place, ht]
  unfold resStatusStart
  split
  · exact steps_quiet hrun hm rfl rfl ⟨ht, rfl⟩ (by simp [goto])
  · split
    · exact steps_quiet hrun hm rfl rfl hplace (by simp [goto])
    · exact steps_advance (by simpa using hrun) (hm.stands_mark rfl rfl (by simp [Place, ht]))

end line

theorem resStatus_steps (hrun : m₀.run e.events = some mode) (h : Stands mode (ch :: rest) e)
    (hs : e.parser.state = .resStatus) : Steps m₀ rest (e.resStatus ch rest) := by
  obtain ⟨ht, rfl⟩ : e.parser.flags.trailing = false ∧ mode = .line := by simpa [Place, hs] using h.place
  have hother := h.others (k := .status) (by rw [hs]; rfl)
  have hcall : ∀ s, m₀.run ((e.goto s).callbackData .status (ch :: rest)).events = some .line := by
    intro s
    unfold callbackData
    split
    · exact (Mode.run_concat hrun _).trans rfl
    · exact hrun
  unfold resStatus
  split
  · refine steps_advance (hcall _) (Unmarked.stands
      (unmarked_callbackData (e := e.goto .resLineAlmostDone) hother _) ?_ ?_)
    · rw [parser_callbackData]
      exact ⟨ht, rfl⟩
    · simp [goto]
  · split
    · refine steps_advance (hcall _) (Unmarked.stands
        (unmarked_callbackData (e := e.goto .headerFieldStart) hother _) ?_ ?_)
      · rw [parser_callbackData]
        simp [goto, Place, ht]
      · simp [goto]
    · exact steps_advance hrun (h.stay rfl rfl rfl)

/-! ### The end of the headers -/

/-- The message is complete. -/
theorem complete_steps (hrun : m₀.run e.events = some .body) (next : Next) :
    Steps m₀ rest (e.complete, next) :=
  ⟨.ended, (Mode.run_concat hrun _).trans rfl, fun _ _ => .inl rfl⟩

theorem headersDone_steps (hrun : m₀.run e.events = some .body) (hm : e.Unmarked) :
    Steps m₀ rest (e.headersDone ch) := by
  unfold headersDone
  split
  · exact steps_fail hrun
  · dsimp only
    have hquiet : ∀ s, Place .body e.parser.flags.trailing s →
        s ≠ .headerField ∧ s ≠ .headerValue →
        Steps m₀ rest (goto { e with parser := { e.parser with nread := 0 } } s, .advance 0) :=
      fun s hplace hs => steps_quiet hrun hm rfl rfl hplace hs
    have hcomplete : ∀ next,
        Steps m₀ rest (complete { e with parser := { e.parser with nread := 0 } }, next) :=
      complete_steps (e := { e with parser := { e.parser with nread := 0 } }) hrun
    split
    · exact hcomplete _
    · split
      · exact hcomplete _
      · split
        · exact hquiet _ rfl (by simp)
        · split
          · exact hcomplete _
          · split
            · exact hquiet _ rfl (by simp)
            · split
              · exact hcomplete _
              · exact hquiet _ rfl (by simp)

theorem headersAlmostDone_steps (hrun : m₀.run e.events = some mode) (hm : e.Unmarked)
    (hplace : Place mode e.parser.flags.trailing .headersAlmostDone) :
    Steps m₀ rest (e.headersAlmostDone ret ch rest) := by
  unfold headersAlmostDone
  split
  · exact steps_fail hrun
  · split
    · rename_i ht
      obtain rfl : mode = .body := by simpa [Place, ht] using hplace
      exact complete_steps hrun _
    · rename_i ht
      have hmode : mode = .line ∨ mode = .named ∨ mode = .valued := by
        simpa [Place, Bool.eq_false_iff.2 ht] using hplace
      have hrun' : ∀ ptr code alive,
          m₀.run (e.events ++ [.headersComplete ptr code alive]) = some .body := fun ptr code alive => by
        rw [Mode.run_concat hrun]
        rcases hmode with rfl | rfl | rfl <;> rfl
      dsimp only
      split
      · exact headersDone_steps (hrun' _ _ _) hm
      · exact headersDone_steps (hrun' _ _ _) hm
      · exact steps_fail (hrun' _ _ _)

/-! ### Headers -/

/-- A header, or the end of the headers, begins. -/
theorem headerFieldStart_steps (hrun : m₀.run e.events = some mode) (hm : e.Unmarked)
    (hplace : Place mode e.parser.flags.trailing .headerFieldStart) :
    Steps m₀ rest (e.headerFieldStart ret ch rest) := by
  unfold headerFieldStart
  split
  · exact steps_quiet hrun hm rfl rfl hplace (by simp [goto])
  · split
    · exact headersAlmostDone_steps (e := e.goto .headersAlmostDone) hrun hm hplace
    · split
      · exact steps_fail hrun
      · exact steps_advance (by simpa using hrun)
          (hm.stands_mark rfl rfl (by rw [parser_mark]; exact hplace))

theorem nameByte_spec (parser : HttpParser) (ch c : UInt8) :
    (nameByte parser ch c).state = parser.state ∧ (nameByte parser ch c).flags = parser.flags := by
  unfold nameByte matching
  split <;> (try split) <;> exact ⟨rfl, rfl⟩

/-- A name is reported. -/
theorem next_name (hplace : Place mode e.parser.flags.trailing .headerField) {ptr : Bytes} {n : Nat}
    (hptr : mode = .body ∨ ptr.take n ≠ []) : ∃ mode',
      mode.next (.data .headerField ptr n) = some mode' ∧
        Place mode' e.parser.flags.trailing .headerValueDiscardWs := by
  cases ht : e.parser.flags.trailing with
  | true =>
    obtain rfl : mode = .body := by simpa [Place, ht] using hplace
    exact ⟨.body, rfl, rfl⟩
  | false =>
    have hmode : mode = .line ∨ mode = .named ∨ mode = .valued := by simpa [Place, ht] using hplace
    have hne : ptr.take n ≠ [] := hptr.resolve_left (by rintro rfl; simp at hmode)
    refine ⟨.named, ?_, rfl⟩
    rcases hmode with rfl | rfl | rfl <;> exact if_neg hne

/-- A value is reported. -/
theorem next_value (hplace : Place mode e.parser.flags.trailing .headerValue) {p : Bytes} {n : Nat}
    (hptr : mode = .body ∨ mode = .named ∨ p.take n ≠ []) : ∃ mode',
      mode.next (.data .headerValue p n) = some mode' ∧
        Place mode' e.parser.flags.trailing .headerValue := by
  cases ht : e.parser.flags.trailing with
  | true =>
    obtain rfl : mode = .body := by simpa [Place, ht] using hplace
    exact ⟨.body, rfl, rfl⟩
  | false =>
    have hmode : mode = .named ∨ mode = .valued := by simpa [Place, ht] using hplace
    rcases hmode with rfl | rfl
    · exact ⟨.valued, rfl, .inr rfl⟩
    · have hne : p.take n ≠ [] := (hptr.resolve_left (by simp)).resolve_left (by simp)
      exact ⟨.valued, if_neg hne, .inr rfl⟩

theorem headerField_steps (hrun : m₀.run e.events = some mode) (h : Stands mode (ch :: rest) e)
    (hs : e.parser.state = .headerField) : Steps m₀ rest (e.headerField ch rest) := by
  have hplace : Place mode e.parser.flags.trailing .headerField := hs ▸ h.place
  have hother := h.others (k := .headerField) (by rw [hs]; rfl)
  -- The name ends.
  have hcall : ∀ s, (∀ mode', Place mode' e.parser.flags.trailing .headerValueDiscardWs →
        Place mode' e.parser.flags.trailing s) → s ≠ .headerField ∧ s ≠ .headerValue →
      Steps m₀ rest ((e.goto s).callbackData .headerField (ch :: rest), .advance 0) := by
    intro s hto hne
    have hstands : ∀ mode', Place mode' e.parser.flags.trailing s →
        Stands mode' rest ((e.goto s).callbackData .headerField (ch :: rest)) := fun mode' hplace' =>
      Unmarked.stands (unmarked_callbackData (e := e.goto s) hother _)
        (by rw [parser_callbackData]; exact hplace') (by rw [parser_callbackData]; exact hne)
    cases hmark : e.marks .headerField with
    | none =>
      have hbody : mode = .body := by
        by_contra hne'
        exact h.field hs hne' hmark
      have ht : e.parser.flags.trailing = true := by
        by_contra ht
        simp [Place, Bool.eq_false_iff.2 ht, hbody] at hplace
      refine steps_advance ?_ (hstands mode (hto mode (by rw [ht]; exact hbody)))
      simpa only [callbackData, goto, hmark] using hrun
    | some ptr =>
      obtain ⟨mode', hnext, hmode'⟩ := next_name hplace ((h.marks _ _ hmark).2.imp_right take_ne_nil)
      refine steps_advance ?_ (hstands mode' (hto mode' hmode'))
      rw [callbackData_events (e := e.goto s) hmark]
      exact (Mode.run_concat hrun _).trans hnext
  unfold headerField
  split
  · rename_i c _
    obtain ⟨hstate, hflags⟩ := nameByte_spec e.parser ch c
    exact steps_advance hrun (h.stay rfl hstate (congrArg Flags.trailing hflags))
  · split
    · exact hcall _ (fun _ h => h) (by simp)
    · split
      · exact hcall _ (fun _ h => h.value) (by simp)
      · split
        · exact hcall _ (fun _ h => h.value.start) (by simp)
        · exact steps_fail hrun

/-- A value begins. -/
theorem headerValueStart_steps (hrun : m₀.run e.events = some mode) (hm : e.Unmarked)
    (hplace : Place mode e.parser.flags.trailing .headerValueStart) :
    Steps m₀ rest (e.headerValueStart ch rest) := by
  have hadvance : ∀ e' : Exec, e'.events = e.events →
      e'.marks = (e.mark .headerValue (ch :: rest)).marks → e'.parser.state = .headerValue →
      e'.parser.flags.trailing = e.parser.flags.trailing → Steps m₀ rest (e', .advance 0) := by
    intro e' hevents hmarks hstate hflags
    refine steps_advance (hevents ▸ hrun) (hm.stands_mark hmarks (by rw [hstate]; rfl) ?_)
    rw [hstate, hflags]
    exact hplace
  have hevents := mark_events (e := e) .headerValue (ch :: rest)
  have hflags : (e.mark .headerValue (ch :: rest)).parser.flags.trailing = e.parser.flags.trailing := by
    rw [parser_mark]
  unfold headerValueStart
  dsimp only
  split
  · exact hadvance _ hevents rfl rfl hflags
  · exact hadvance _ hevents rfl rfl hflags
  · split
    · exact hadvance _ hevents rfl rfl hflags
    · exact steps_fail (by rw [hevents]; exact hrun)
  · exact hadvance _ hevents rfl rfl hflags
  · exact hadvance _ hevents rfl rfl hflags

theorem headerValueDiscardWs_steps (hrun : m₀.run e.events = some mode) (hm : e.Unmarked)
    (hs : e.parser.state = .headerValueDiscardWs)
    (hplace : Place mode e.parser.flags.trailing .headerValueDiscardWs) :
    Steps m₀ rest (e.headerValueDiscardWs ch rest) := by
  unfold headerValueDiscardWs
  split
  · exact steps_quiet hrun hm rfl rfl (hs ▸ hplace) (by simp [hs])
  · split
    · exact steps_quiet hrun hm rfl rfl hplace (by simp [goto])
    · split
      · exact steps_quiet hrun hm rfl rfl hplace (by simp [goto])
      · exact headerValueStart_steps hrun hm hplace.value

/-- The first line of a value is empty. -/
theorem headerValueDiscardLws_steps (hrun : m₀.run e.events = some mode) (hm : e.Unmarked)
    (hplace : Place mode e.parser.flags.trailing .headerValueDiscardLws) :
    Steps m₀ rest (e.headerValueDiscardLws ret ch rest) := by
  unfold headerValueDiscardLws
  split
  · exact steps_quiet hrun hm rfl rfl hplace (by simp [goto])
  · dsimp only
    have hmarks : ((e.mark .headerValue (ch :: rest)).goto .headerFieldStart).marks .headerValue =
        some (ch :: rest) := (hm.mark _ _ _).trans (if_pos rfl)
    have hother : ∀ k, k ≠ .headerValue →
        ((e.mark .headerValue (ch :: rest)).goto .headerFieldStart).marks k = none :=
      fun k hk => (hm.mark _ _ _).trans (if_neg hk)
    have hmode : mode = .body ∨ mode = .named := by
      cases ht : e.parser.flags.trailing with
      | true => exact .inl (by simpa [Place, ht] using hplace)
      | false => exact .inr (by simpa [Place, ht] using hplace)
    obtain ⟨mode', hnext, hmode'⟩ := next_value hplace.value (p := ch :: rest) (n := 0)
      (hmode.imp_right .inl)
    have hrun' : m₀.run (((e.mark .headerValue (ch :: rest)).goto .headerFieldStart).callbackData
        .headerValue (ch :: rest)).events = some mode' := by
      rw [callbackData_events hmarks, Nat.sub_self]
      have hrun₀ : m₀.run ((e.mark .headerValue (ch :: rest)).goto .headerFieldStart).events =
        some mode := (mark_events _ _).symm ▸ hrun
      exact (Mode.run_concat hrun₀ _).trans hnext
    refine headerFieldStart_steps hrun' (unmarked_callbackData hother _) ?_
    · rw [parser_callbackData]
      change Place mode' (e.mark .headerValue (ch :: rest)).parser.flags.trailing .headerFieldStart
      rw [parser_mark]
      exact Place.start hmode'

theorem valueByte_steps (hrun : m₀.run e.events = some mode) (h : Stands mode (ch :: rest) e) :
    Steps m₀ rest (e.valueByte ch) := by
  have hstay : ∀ e' : Exec, e'.events = e.events → e'.marks = e.marks →
      e'.parser.state = e.parser.state → e'.parser.flags.trailing = e.parser.flags.trailing →
      Steps m₀ rest (e', .advance 0) := fun e' hevents hmarks hstate hflags =>
    steps_advance (hevents ▸ hrun) (h.stay hmarks hstate hflags)
  unfold valueByte
  split
  · split
    · exact hstay _ rfl rfl rfl rfl
    · split
      · split
        · exact steps_fail hrun
        · exact hstay _ rfl rfl rfl rfl
      · exact steps_fail hrun
  · exact hstay _ rfl rfl rfl rfl
  · exact hstay _ rfl rfl rfl rfl
  · exact hstay _ rfl rfl rfl rfl
  · split <;> exact hstay _ rfl rfl rfl rfl
  · split <;> exact hstay _ rfl rfl rfl rfl
  · split <;> exact hstay _ rfl rfl rfl rfl
  · exact hstay _ rfl rfl rfl rfl

theorem headerValue_steps (hrun : m₀.run e.events = some mode) (h : Stands mode (ch :: rest) e)
    (hs : e.parser.state = .headerValue) : Steps m₀ rest (e.headerValue ch rest) := by
  have hplace : Place mode e.parser.flags.trailing .headerValue := hs ▸ h.place
  have hother : ∀ k, k ≠ .headerValue → (e.goto .headerAlmostDone).marks k = none :=
    h.others (by rw [hs]; rfl)
  have hm := unmarked_callbackData hother (ch :: rest)
  -- The line ends.
  obtain ⟨mode', hrun', hmode'⟩ : ∃ mode',
      m₀.run ((e.goto .headerAlmostDone).callbackData .headerValue (ch :: rest)).events = some mode' ∧
      Place mode' e.parser.flags.trailing .headerAlmostDone := by
    cases hmark : e.marks .headerValue with
    | none =>
      refine ⟨mode, ?_, hplace⟩
      simpa only [callbackData, goto, hmark] using hrun
    | some ptr =>
      obtain ⟨mode', hnext, hmode'⟩ := next_value hplace
        ((h.marks _ _ hmark).2.imp_right fun hlt => .inr (take_ne_nil hlt))
      refine ⟨mode', ?_, ?_⟩
      · rw [callbackData_events (e := e.goto .headerAlmostDone) hmark]
        exact (Mode.run_concat hrun _).trans hnext
      · exact hmode'
  have hplace' : ∀ s, Place mode' e.parser.flags.trailing s → Place mode'
      (((e.goto .headerAlmostDone).callbackData .headerValue (ch :: rest)).parser.flags.trailing) s := by
    intro s h
    rw [parser_callbackData]
    exact h
  unfold headerValue
  split
  · exact steps_advance hrun' (hm.stands
      (by rw [parser_callbackData]; exact hmode') (by simp [goto]))
  · split
    · exact expect_steps hrun' hm (hplace' _ hmode') (by simp)
    · exact valueByte_steps hrun h

theorem finishHeader_spec (e : Exec) :
    e.finishHeader.events = e.events ∧ e.finishHeader.marks = e.marks ∧
      e.finishHeader.parser.flags.trailing = e.parser.flags.trailing := by
  unfold finishHeader
  split <;> exact ⟨rfl, rfl, rfl⟩

theorem headerValueLws_steps (hrun : m₀.run e.events = some mode) (hm : e.Unmarked)
    (hplace : Place mode e.parser.flags.trailing .headerValueLws) :
    Steps m₀ rest (e.headerValueLws ret ch rest) := by
  unfold headerValueLws
  split
  · exact headerValueStart_steps (e := e.goto .headerValueStart) hrun hm hplace
  · obtain ⟨hevents, hmarks, hflags⟩ := finishHeader_spec e
    have hrun' : m₀.run (e.finishHeader.goto .headerFieldStart).events = some mode := hevents ▸ hrun
    refine headerFieldStart_steps hrun' ?_ ?_
    · exact fun k => (congrFun hmarks k).trans (hm k)
    · change Place mode e.finishHeader.parser.flags.trailing .headerFieldStart
      rw [hflags]
      exact Place.start hplace

/-! ### The body -/

/-- The body is being read. -/
theorem stands_body (hother : ∀ k, k ≠ .body → e.marks k = none)
    (hs : e.parser.state.marked = some .body)
    (hplace : Place .body e.parser.flags.trailing e.parser.state) : Stands .body p e where
  place := hplace
  marks k ptr hptr := by
    refine ⟨hs.trans (congrArg some ?_), .inl rfl⟩
    by_contra hk
    cases (hother k (Ne.symm hk)).symm.trans hptr
  field _ h := absurd rfl h
  value _ h := absurd rfl h

theorem mark_others {k : Kind} (hother : ∀ k', k' ≠ k → e.marks k' = none) (p : Bytes) :
    ∀ k', k' ≠ k → (e.mark k p).marks k' = none := by
  intro k' hk
  unfold mark
  split
  · exact (Function.update_of_ne hk _ _).trans (hother k' hk)
  · exact hother k' hk

theorem readBody_spec (hrun : m₀.run e.events = some .body) (h : Stands .body p e)
    (hs : e.parser.state.marked = some .body) (p' : Bytes) :
    m₀.run (e.readBody p').1.events = some .body ∧
      (∀ k, k ≠ .body → (e.readBody p').1.marks k = none) ∧
      (e.readBody p').1.parser.state = e.parser.state ∧
      (e.readBody p').1.parser.flags = e.parser.flags := by
  refine ⟨?_, mark_others (h.others hs) p', ?_, ?_⟩
  · exact (mark_events _ _).symm ▸ hrun
  · change (e.mark .body p').parser.state = e.parser.state
    rw [parser_mark]
  · change (e.mark .body p').parser.flags = e.parser.flags
    rw [parser_mark]

/-- The callback of the body, if some of it has been read. -/
theorem run_callbackData_body (hrun : m₀.run e.events = some .body) (p : Bytes) :
    m₀.run (e.callbackData .body p).events = some .body := by
  unfold callbackData
  split
  · exact (Mode.run_concat hrun _).trans rfl
  · exact hrun

theorem bodyIdentity_steps (hrun : m₀.run e.events = some .body) (h : Stands .body (ch :: rest) e)
    (hs : e.parser.state = .bodyIdentity) : Steps m₀ rest (e.bodyIdentity ch rest) := by
  have hmarked : e.parser.state.marked = some .body := by rw [hs]; rfl
  obtain ⟨hrun', hother, hstate, hflags⟩ := readBody_spec hrun h hmarked (ch :: rest)
  unfold bodyIdentity
  dsimp only
  split
  · exact complete_steps (run_callbackData_body
      (e := (e.readBody (ch :: rest)).1.goto .messageDone) hrun' _) _
  · refine ⟨.body, hrun', fun _ _ => .inr (stands_body hother ?_ ?_)⟩
    · rw [hstate]
      exact hmarked
    · rw [hstate, hflags]
      exact h.place

theorem bodyIdentityEof_steps (hrun : m₀.run e.events = some .body)
    (h : Stands .body (ch :: rest) e) (hs : e.parser.state = .bodyIdentityEof) :
    Steps m₀ rest (e.bodyIdentityEof ch rest) := by
  have hmarked : e.parser.state.marked = some .body := by rw [hs]; rfl
  refine ⟨.body, (mark_events _ _).symm ▸ hrun, fun _ _ => .inr (stands_body ?_ ?_ ?_)⟩
  · exact mark_others (h.others hmarked) _
  · rw [bodyIdentityEof, parser_mark]
    exact hmarked
  · rw [bodyIdentityEof, parser_mark]
    exact h.place

section chunk

variable (hrun : m₀.run e.events = some .body) (hm : e.Unmarked)

include hrun hm

theorem chunkSizeStart_steps : Steps m₀ rest (e.chunkSizeStart ch) := by
  unfold chunkSizeStart
  split
  · exact steps_fail hrun
  · exact steps_quiet hrun hm rfl rfl rfl (by simp)

theorem chunkSize_steps (hs : e.parser.state = .chunkSize) : Steps m₀ rest (e.chunkSize ch) := by
  unfold chunkSize
  split
  · exact steps_quiet hrun hm rfl rfl rfl (by simp [goto])
  · split
    · split
      · exact steps_quiet hrun hm rfl rfl rfl (by simp [goto])
      · exact steps_fail hrun
    · split
      · exact steps_fail hrun
      · exact steps_quiet hrun hm rfl rfl (by simp [hs, Place]) (by simp [hs])

theorem chunkParameters_steps (hs : e.parser.state = .chunkParameters) :
    Steps m₀ rest (e.chunkParameters ch) := by
  unfold chunkParameters
  split
  · exact steps_quiet hrun hm rfl rfl rfl (by simp [goto])
  · exact steps_quiet hrun hm rfl rfl (by simp [hs, Place]) (by simp [hs])

/-- After the last chunk there may be a trailer. -/
theorem chunkSizeAlmostDone_steps : Steps m₀ rest (e.chunkSizeAlmostDone ch) := by
  unfold chunkSizeAlmostDone
  split
  · exact steps_fail hrun
  · split
    · exact steps_quiet hrun hm rfl rfl rfl (by simp)
    · refine steps_advance hrun (stands_body (fun k _ => hm k) rfl rfl)

theorem chunkDataDone_steps : Steps m₀ rest (e.chunkDataDone ch) := by
  unfold chunkDataDone
  split
  · exact steps_fail hrun
  · exact steps_quiet hrun hm rfl rfl rfl (by simp)

end chunk

theorem chunkData_steps (hrun : m₀.run e.events = some .body) (h : Stands .body (ch :: rest) e)
    (hs : e.parser.state = .chunkData) : Steps m₀ rest (e.chunkData ch rest) := by
  have hmarked : e.parser.state.marked = some .body := by rw [hs]; rfl
  obtain ⟨hrun', hother, hstate, hflags⟩ := readBody_spec hrun h hmarked (ch :: rest)
  unfold chunkData
  dsimp only
  split
  · exact ⟨.body, hrun', fun _ _ => .inr (stands_body hother rfl rfl)⟩
  · refine ⟨.body, hrun', fun _ _ => .inr (stands_body hother ?_ ?_)⟩
    · rw [hstate]
      exact hmarked
    · rw [hstate, hflags]
      exact h.place

theorem chunkDataAlmostDone_steps (hrun : m₀.run e.events = some .body)
    (h : Stands .body (ch :: rest) e) (hs : e.parser.state = .chunkDataAlmostDone) :
    Steps m₀ rest (e.chunkDataAlmostDone ch rest) := by
  have hother : ∀ k, k ≠ .body → (e.goto .chunkDataDone).marks k = none :=
    h.others (by rw [hs]; rfl)
  unfold chunkDataAlmostDone
  split
  · exact steps_fail hrun
  · refine steps_advance (run_callbackData_body (e := e.goto .chunkDataDone) hrun _)
      (Unmarked.stands (unmarked_callbackData hother _) ?_ ?_)
    · rw [parser_callbackData]
      rfl
    · simp [goto]

/-! ### The loop -/

/-- A byte, in any state but before and after the message. -/
theorem dispatch_steps (hrun : m₀.run e.events = some mode) (h : Stands mode (ch :: rest) e) :
    Steps m₀ rest (e.dispatch ret ch rest) := by
  have hm := h.unmarked
  have hplace := h.place
  unfold dispatch
  cases hs : e.parser.state <;> simp only [hs, State.marked, Place, forall_const] at hm hplace ⊢
  case resH | resHT | resHTT | resHTTP =>
    obtain ⟨ht, rfl⟩ := hplace
    exact expect_steps hrun hm ⟨ht, rfl⟩ (by simp)
  case resLineAlmostDone =>
    obtain ⟨ht, rfl⟩ := hplace
    exact expect_steps hrun hm (by simp [Place, ht]) (by simp)
  case resFirstHttpMajor =>
    obtain ⟨ht, rfl⟩ := hplace
    exact resFirstHttpMajor_steps hrun hm ht
  case resHttpMajor =>
    obtain ⟨ht, rfl⟩ := hplace
    exact resHttpMajor_steps hrun hm ht hs
  case resFirstHttpMinor =>
    obtain ⟨ht, rfl⟩ := hplace
    exact resFirstHttpMinor_steps hrun hm ht
  case resHttpMinor =>
    obtain ⟨ht, rfl⟩ := hplace
    exact resHttpMinor_steps hrun hm ht hs
  case resFirstStatusCode =>
    obtain ⟨ht, rfl⟩ := hplace
    exact resFirstStatusCode_steps hrun hm ht hs
  case resStatusCode =>
    obtain ⟨ht, rfl⟩ := hplace
    exact resStatusCode_steps hrun hm ht hs
  case resStatusStart =>
    obtain ⟨ht, rfl⟩ := hplace
    exact resStatusStart_steps hrun hm ht
  case resStatus => exact resStatus_steps hrun h hs
  case headerFieldStart => exact headerFieldStart_steps hrun hm hplace
  case headerField => exact headerField_steps hrun h hs
  case headerValueDiscardWs => exact headerValueDiscardWs_steps hrun hm hs hplace
  case headerValueDiscardWsAlmostDone => exact expect_steps hrun hm hplace (by simp)
  case headerValueDiscardLws => exact headerValueDiscardLws_steps hrun hm hplace
  case headerValueStart => exact headerValueStart_steps hrun hm hplace
  case headerValue => exact headerValue_steps hrun h hs
  case headerValueLws => exact headerValueLws_steps hrun hm hplace
  case headerAlmostDone => exact expect_steps hrun hm hplace (by simp)
  case headersAlmostDone => exact headersAlmostDone_steps hrun hm hplace
  all_goals subst hplace
  case chunkSizeStart => exact chunkSizeStart_steps hrun hm
  case chunkSize => exact chunkSize_steps hrun hm hs
  case chunkParameters => exact chunkParameters_steps hrun hm hs
  case chunkSizeAlmostDone => exact chunkSizeAlmostDone_steps hrun hm
  case chunkData => exact chunkData_steps hrun h hs
  case chunkDataAlmostDone => exact chunkDataAlmostDone_steps hrun h hs
  case chunkDataDone => exact chunkDataDone_steps hrun hm
  case bodyIdentity => exact bodyIdentity_steps hrun h hs
  case bodyIdentityEof => exact bodyIdentityEof_steps hrun h hs

/-- The limit on the size of the headers reports nothing. -/
theorem step_steps (ret : Nat) (hrun : m₀.run e.events = some mode) (h : Stands mode (ch :: rest) e) :
    Steps m₀ rest (e.step ret ch rest) := by
  unfold step
  split
  · dsimp only
    split
    · exact steps_fail hrun
    · exact dispatch_steps (e := { e with parser := { e.parser with nread := e.parser.nread + 1 } })
        hrun ⟨h.place, h.marks, h.field, h.value⟩
  · exact dispatch_steps hrun h

/-- The callback of a mark at the end of the buffer. -/
theorem run_callbackData_end (hrun : m₀.run e.events = some mode) (h : Stands mode [] e) (k : Kind)
    (hk : k ≠ .url) : ∃ mode', m₀.run (e.callbackData k []).events = some mode' := by
  cases hmark : e.marks k with
  | none => exact ⟨mode, by simpa only [callbackData, hmark] using hrun⟩
  | some ptr =>
    obtain ⟨hs, hlen⟩ := h.marks k ptr hmark
    have hplace := h.place
    have hnext : ∃ mode', mode.next (.data k ptr (ptr.length - ([] : Bytes).length)) = some mode' := by
      cases hstate : e.parser.state <;> simp only [hstate, State.marked, reduceCtorEq] at hs <;>
        obtain rfl := Option.some.inj hs <;> rw [hstate] at hplace
      · obtain rfl := hplace.2
        exact ⟨_, rfl⟩
      · obtain ⟨mode', hnext, _⟩ := next_name hplace (hlen.imp_right take_ne_nil)
        exact ⟨mode', hnext⟩
      · obtain ⟨mode', hnext, _⟩ := next_value hplace (hlen.imp_right fun hlt => .inr (take_ne_nil hlt))
        exact ⟨mode', hnext⟩
      all_goals
        obtain rfl : mode = .body := hplace
        exact ⟨_, rfl⟩
    obtain ⟨mode', hnext⟩ := hnext
    exact ⟨mode', by rw [callbackData_events hmark]; exact (Mode.run_concat hrun _).trans hnext⟩

theorem callbackData_none {k : Kind} (h : e.marks k = none) (p : Bytes) : e.callbackData k p = e := by
  simp only [callbackData, h]

theorem Unmarked.flush (h : e.Unmarked) : e.flush = e := by
  simp only [Exec.flush, callbackData_none (h _)]

/-- Of the callbacks at the end of the buffer, that of the string that is being read. -/
theorem Stands.flush (h : Stands mode p e) : e.flush = e ∨ ∃ k, k ≠ .url ∧
    e.flush = e.callbackData k [] := by
  cases hs : e.parser.state.marked with
  | none => exact .inl (h.unmarked hs).flush
  | some k =>
    right
    have hother := h.others hs
    have hm := unmarked_callbackData hother []
    have hk : k ≠ .url := by
      rintro rfl
      cases hstate : e.parser.state <;> simp [hstate, State.marked] at hs
    refine ⟨k, hk, ?_⟩
    unfold Exec.flush
    cases k with
    | url => exact absurd rfl hk
    | headerField => simp only [callbackData_none (hm _)]
    | headerValue =>
      rw [callbackData_none (hother .headerField (by simp))]
      simp only [callbackData_none (hm _)]
    | body =>
      rw [callbackData_none (hother .headerField (by simp)),
        callbackData_none (hother .headerValue (by simp)), callbackData_none (hother .url (by simp)),
        callbackData_none (hm .status)]
    | status =>
      rw [callbackData_none (hother .headerField (by simp)),
        callbackData_none (hother .headerValue (by simp)), callbackData_none (hother .url (by simp)),
        callbackData_none (hother .body (by simp))]

/-- What the loop reports, once the message has begun. -/
theorem loop_steps (ret : Nat) : ∀ (p : Bytes) (skip : Nat) (e : Exec) (mode : Mode), e.events = [] →
    mode = .ended ∨ Stands mode (p.drop skip) e →
    ∃ mode', mode.run (loop ret p skip e).1.events = some mode' := by
  intro p
  induction p with
  | nil =>
    intro skip e mode hevents h
    rcases h with rfl | h
    · exact ⟨_, Mode.run_ended _⟩
    · have hrun : mode.run e.events = some mode := by rw [hevents, Mode.run_nil]
      rw [List.drop_nil] at h
      rcases h.flush with hflush | ⟨k, hk, hflush⟩ <;> rw [loop, hflush]
      · exact ⟨mode, hrun⟩
      · exact run_callbackData_end hrun h k hk
  | cons ch rest ih =>
    intro skip e mode hevents h
    cases skip with
    | succ skip => exact ih skip e mode hevents h
    | zero =>
      rcases h with rfl | h
      · exact ⟨_, Mode.run_ended _⟩
      · have hrun : mode.run e.events = some mode := by rw [hevents, Mode.run_nil]
        obtain ⟨mode', hrun', hnext⟩ := step_steps ret hrun h
        rw [loop]
        split <;> rename_i e' _ heq <;> rw [heq] at hrun' hnext
        · obtain ⟨mode'', hrun''⟩ := ih _ { e' with events := [] } mode' rfl
            ((hnext _ rfl).imp_right fun hs => ⟨hs.place, hs.marks, hs.field, hs.value⟩)
          refine ⟨mode'', ?_⟩
          change mode.run (e'.events ++ _) = some mode''
          rw [Mode.run_append, hrun']
          exact hrun''
        · exact ⟨mode', hrun'⟩
        · exact ⟨mode', hrun'⟩

/-- The first byte of a response, or one of the line ends before it. -/
theorem startRes_step (hs : e.parser.state = .startRes) :
    e.step ret ch rest = (if HTTP_MAX_HEADER_SIZE < e.parser.nread + 1
      then fail { e with parser := { e.parser with nread := e.parser.nread + 1 } }
      else startRes { e with parser := { e.parser with nread := e.parser.nread + 1 } } ch) := by
  unfold step dispatch
  simp only [hs, State.parsingHeader, if_true]

/-- What the loop reports from the beginning of a response on: a beginning for each line
    end before it, and then the message. -/
theorem loop_start (ret : Nat) : ∀ (p : Bytes) (e : Exec), e.events = [] → e.Unmarked →
    e.parser.state = .startRes → ∃ k es mode,
      (loop ret p 0 e).1.events = List.replicate k .messageBegin ++ es ∧
      Mode.idle.run es = some mode ∧
      (e.parser.nread = 0 → (0 < k ↔ ∃ ch ∈ p.head?, ch = CR ∨ ch = LF)) := by
  intro p
  induction p with
  | nil =>
    intro e hevents hm hs
    refine ⟨0, [], .idle, ?_, rfl, by simp⟩
    rw [loop, hm.flush, hevents]
    rfl
  | cons ch rest ih =>
    intro e hevents hm hs
    rw [loop, startRes_step hs]
    split_ifs with hsize
    · refine ⟨0, [], .idle, hevents, rfl, fun hn => ?_⟩
      rw [hn] at hsize
      cases (by decide : ¬HTTP_MAX_HEADER_SIZE < 0 + 1) hsize
    · unfold startRes
      dsimp only
      split_ifs with hH hline
      · -- The message begins.
        obtain ⟨mode, hrun⟩ := loop_steps ret rest 0
          { e with
            parser := { e.parser with
              nread := e.parser.nread + 1, flags := .zero, contentLength := ULLONG_MAX, state := .resH }
            events := [] } .line rfl (.inr (Unmarked.stands hm ⟨rfl, rfl⟩ (by simp)))
        refine ⟨0, .messageBegin :: _, mode, ?_, hrun, fun _ => ?_⟩
        · simp only [goto, notify, hevents]
          rfl
        · subst hH
          simp [byte, CR, LF]
      · obtain ⟨k, es, mode, hloop, hrun, _⟩ := ih
          { e with
            parser := { e.parser with
              nread := e.parser.nread + 1, flags := .zero, contentLength := ULLONG_MAX }
            events := [] } rfl hm hs
        refine ⟨k + 1, es, mode, ?_, hrun, fun _ => ?_⟩
        · simp only [notify, hevents]
          change Event.messageBegin :: _ = _
          rw [hloop]
          rfl
        · simpa using hline
      · refine ⟨0, [], .idle, hevents, rfl, fun _ => ?_⟩
        simpa using hline

end Exec

/-- What the execution of a new parser reports: a beginning for each line end before the
    message, and then the message. -/
theorem execute_events (ret : Nat) (data : Bytes) : ∃ k es mode,
    (execute ret init data).events = List.replicate k .messageBegin ++ es ∧
    Mode.idle.run es = some mode ∧ (0 < k ↔ ∃ ch ∈ data.head?, ch = CR ∨ ch = LF) := by
  cases data with
  | nil => exact ⟨0, [], .idle, rfl, rfl, by simp⟩
  | cons ch rest =>
    obtain ⟨k, es, mode, hevents, hrun, hk⟩ := Exec.loop_start ret (ch :: rest)
      ⟨init, initialMarks .startRes (ch :: rest), []⟩ rfl (fun k => by cases k <;> rfl) rfl
    exact ⟨k, es, mode, hevents, hrun, hk rfl⟩

end HttpParser

end Mistress
