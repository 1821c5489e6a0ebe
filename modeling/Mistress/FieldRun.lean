import Mistress.FieldLine
import Mistress.Scan

/-!
# Reading the headers

Whatever parser reads the headers as `http_parser` does (`ReadsHeaders`), for responses or
for requests, it reads a well-formed line (`Field.run`) and the lines of the headers
(`run_fields`): it reports their names and their values, and flags what they say.

What a line says is flagged at the byte that follows it, since the line could be folded. So
the state after a line only stands for the one in which the next line begins
(`Scan.Stands`).
-/

open LuaStack

namespace Mistress

namespace HttpParser

namespace Exec

/-- The loop over the bytes as a scanner. -/
def scanner (step : Exec → UInt8 → Bytes → Exec × Next) :
    Scan.Scanner (HttpParser × (Kind → Option Bytes)) UInt8 Event := fun s ch rest =>
  match step ⟨s.1, s.2, []⟩ ch rest with
  | (e, .advance n) => some ((e.parser, e.marks), e.events, n)
  | _ => none

/-- The size of the headers is limited. -/
def limited (e : Exec) (f : Exec → Exec × Next) : Exec × Next :=
  let e := { e with parser := { e.parser with nread := e.parser.nread + 1 } }
  if HTTP_MAX_HEADER_SIZE < e.parser.nread then e.fail else f e

/-- A byte that a line of the headers may follow. -/
def LineStart (ch : UInt8) : Prop := isBlank ch = false ∧ ch ≠ LF

/-- The step of a parser that reads headers, whatever else it reads. -/
structure ReadsHeaders (step : Exec → UInt8 → Bytes → Exec × Next) : Prop where
  start : ∀ (e : Exec) ch rest, e.parser.state = .headerFieldStart → ch ≠ LF →
    step e ch rest = e.limited fun e => e.headerFieldStart 0 ch rest
  field : ∀ (e : Exec) ch rest, e.parser.state = .headerField →
    step e ch rest = e.limited fun e => e.headerField ch rest
  discardWs : ∀ (e : Exec) ch rest, e.parser.state = .headerValueDiscardWs →
    step e ch rest = e.limited fun e => e.headerValueDiscardWs ch rest
  discardWsAlmostDone : ∀ (e : Exec) ch rest, e.parser.state = .headerValueDiscardWsAlmostDone →
    step e ch rest = e.limited fun e => e.expect LF .headerValueDiscardLws ch
  discardLws : ∀ (e : Exec) ch rest, e.parser.state = .headerValueDiscardLws → LineStart ch →
    step e ch rest = e.limited fun e => (((e.mark .headerValue (ch :: rest)).goto
      .headerFieldStart).callbackData .headerValue (ch :: rest)).headerFieldStart 0 ch rest
  value : ∀ (e : Exec) ch rest, e.parser.state = .headerValue →
    step e ch rest = e.limited fun e => e.headerValue ch rest
  almostDone : ∀ (e : Exec) ch rest, e.parser.state = .headerAlmostDone →
    step e ch rest = e.limited fun e => e.headerAlmostDone ch
  lws : ∀ (e : Exec) ch rest, e.parser.state = .headerValueLws → LineStart ch →
    step e ch rest = e.limited fun e => (e.finishHeader.goto .headerFieldStart).headerFieldStart 0
      ch rest

theorem headerFieldStart_ret {e : Exec} {ch : UInt8} (hch : ch ≠ LF) (ret : Nat) (rest : Bytes) :
    e.headerFieldStart ret ch rest = e.headerFieldStart 0 ch rest := by
  simp only [headerFieldStart, if_neg hch]

theorem readsHeaders_step (ret : Nat) : ReadsHeaders (step ret) where
  start e ch rest hs hch := by
    simp only [step, limited, dispatch, hs, State.parsingHeader, if_true]
    rw [headerFieldStart_ret hch]
  field e ch rest hs := by simp only [step, limited, dispatch, hs, State.parsingHeader, if_true]
  discardWs e ch rest hs := by simp only [step, limited, dispatch, hs, State.parsingHeader, if_true]
  discardWsAlmostDone e ch rest hs := by
    simp only [step, limited, dispatch, hs, State.parsingHeader, if_true]
  discardLws e ch rest hs hch := by
    have hblank : ¬(ch = SP ∨ ch = HT) := by simpa [isBlank] using hch.1
    simp only [step, limited, dispatch, hs, State.parsingHeader, if_true, headerValueDiscardLws,
      if_neg hblank]
    rw [headerFieldStart_ret hch.2]
  value e ch rest hs := by simp only [step, limited, dispatch, hs, State.parsingHeader, if_true]
  almostDone e ch rest hs := by simp only [step, limited, dispatch, hs, State.parsingHeader, if_true]
  lws e ch rest hs hch := by
    have hblank : ¬(ch = SP ∨ ch = HT) := by simpa [isBlank] using hch.1
    simp only [step, limited, dispatch, hs, State.parsingHeader, if_true, headerValueLws, if_neg hblank]
    rw [headerFieldStart_ret hch.2]

variable {step : Exec → UInt8 → Bytes → Exec × Next} {p : HttpParser} {ch : UInt8} {rest y : Bytes}

theorem scanner_limited {marks marks' : Kind → Option Bytes} {f : Exec → Exec × Next}
    {p' : HttpParser}
    {es : List Event} {n : Nat} (h : step ⟨p, marks, []⟩ ch rest = limited ⟨p, marks, []⟩ f)
    (hn : p.nread + 1 ≤ HTTP_MAX_HEADER_SIZE)
    (hf : f ⟨{ p with nread := p.nread + 1 }, marks, []⟩ = (⟨p', marks', es⟩, .advance n)) :
    scanner step (p, marks) ch rest = some ((p', marks'), es, n) := by
  have hmax : ¬HTTP_MAX_HEADER_SIZE < p.nread + 1 := Nat.not_lt.2 hn
  simp only [scanner, h, limited, if_neg hmax, hf]

/-! ### Names -/

theorem token_eq (h : token ch ≠ none) : token ch = some (lowerCase ch) := by
  unfold token lowerCase at *
  split
  · rfl
  · split
    · rfl
    · rename_i h₁ h₂
      rw [if_neg h₁, if_neg h₂] at h
      exact absurd rfl h

theorem nameByte_eq (p : HttpParser) (ch c : UInt8) : nameByte p ch c =
    { p with headerState := (nameByte p ch c).headerState, index := (nameByte p ch c).index } := by
  unfold nameByte matching
  split <;> (try split) <;> rfl

/-! ### Values -/

/-- What the beginning `v` of a value says, for each kind of header. -/
def ValueTracks (kind : FieldKind) (contentLength : Nat) (v : Bytes) (p : HttpParser) : Prop :=
  match kind with
  | .connection => p.contentLength = contentLength ∧
      ((Follows KEEP_ALIVE .matchingConnectionKeepAlive .connectionKeepAlive v p.index
        p.headerState ∧ Differs CLOSE v) ∨
      (Follows CLOSE .matchingConnectionClose .connectionClose v p.index
        p.headerState ∧ Differs KEEP_ALIVE v))
  | .contentLength => p.headerState = .contentLength ∧ p.contentLength = decimal v
  | .transferEncoding => p.contentLength = contentLength ∧
      Follows CHUNKED .matchingTransferEncodingChunked .transferEncodingChunked v p.index
        p.headerState
  | .upgrade | .other => p.contentLength = contentLength ∧ p.headerState = .general

/-- A byte of a value. -/
theorem valueTracks_byte {kind : FieldKind} {n : Nat} {v w : Bytes} (h : ValueTracks kind n v p)
    (hlen : kind = .contentLength → IsLength (v ++ ch :: w)) :
    ∃ (s : HeaderState) (index n' : Nat),
      (∀ marks es, (Exec.mk p marks es).valueByte ch =
        (⟨{ p with headerState := s, index, contentLength := n' }, marks, es⟩, .advance 0)) ∧
      ValueTracks kind n (v ++ [ch]) { p with headerState := s, index, contentLength := n' } := by
  cases kind with
  | connection =>
    obtain ⟨hn, ⟨hfollows, hdiffers⟩ | ⟨hfollows, hdiffers⟩⟩ := h
    · obtain ⟨s, index, hbyte, hnext⟩ := compares_keepAlive.follows hfollows ch
      exact ⟨s, index, p.contentLength, hbyte, hn, .inl ⟨hnext, hdiffers.append ch⟩⟩
    · obtain ⟨s, index, hbyte, hnext⟩ := compares_close.follows hfollows ch
      exact ⟨s, index, p.contentLength, hbyte, hn, .inr ⟨hnext, hdiffers.append ch⟩⟩
  | contentLength =>
    obtain ⟨hs, hn⟩ := h
    exact ⟨p.headerState, p.index, decimal (v ++ [ch]), (hlen rfl).valueByte hs hn, hs, rfl⟩
  | transferEncoding =>
    obtain ⟨hn, hfollows⟩ := h
    obtain ⟨s, index, hbyte, hnext⟩ := compares_chunked.follows hfollows ch
    exact ⟨s, index, p.contentLength, hbyte, hn, hnext⟩
  | upgrade | other =>
    obtain ⟨hn, hs⟩ := h
    refine ⟨.general, p.index, p.contentLength, fun marks es => ?_, hn, rfl⟩
    simp only [valueByte, hs]
    rfl

/-- The first byte of a value. -/
theorem valueTracks_start (rest : Bytes) (hch : isBlank ch = false ∧ ch ≠ CR ∧ ch ≠ LF) {w : Bytes}
    (hlen : p.headerState.kind = .contentLength → IsLength (ch :: w)) :
    ∃ (s : HeaderState) (n : Nat),
      (Exec.mk p noMarks []).headerValueDiscardWs ch rest =
        (⟨{ p with
          state := .headerValue
          flags := if p.headerState.kind = .upgrade then { p.flags with upgrade := true } else p.flags
          headerState := s
          index := 0
          contentLength := n }, only .headerValue (ch :: rest), []⟩, .advance 0) ∧
      ValueTracks p.headerState.kind p.contentLength [ch]
        { p with state := .headerValue, headerState := s, index := 0, contentLength := n } := by
  obtain ⟨hblank, hcr, hlf⟩ := hch
  have hws : ¬(ch = SP ∨ ch = HT) := by simpa [isBlank] using hblank
  simp only [headerValueDiscardWs, if_neg hws, if_neg hcr, if_neg hlf, headerValueStart, mark_noMarks]
  have hsp : ch ≠ SP := fun h => hws (.inl h)
  have hdiffers {text : Bytes} (h : ¬[lower ch] <+: text) : Differs text [ch] :=
    ⟨tells_false (v := []) hsp h, h⟩
  have hfollows {text : Bytes} {matching matched : HeaderState} (h : [lower ch] <+: text)
      (hlt : 1 < text.length) : Follows text matching matched [ch] 0 matching := .inl ⟨rfl, h, hlt, rfl⟩
  cases hs : p.headerState with
  | connection =>
    by_cases hk : lower ch = byte 'k'
    · refine ⟨.matchingConnectionKeepAlive, p.contentLength, ?_, rfl, .inl ⟨?_, ?_⟩⟩
      · simp only [if_pos hk]
        rfl
      · exact hfollows (by rw [hk]; decide) (by decide)
      · exact hdiffers (by rw [hk]; decide)
    · have hdiffers' : Differs KEEP_ALIVE [ch] := by
        refine hdiffers fun hpre => hk ?_
        have := (List.cons_prefix_cons.1 (show [lower ch] <+: byte 'k' :: KEEP_ALIVE.tail from hpre)).1
        exact this
      by_cases hc : lower ch = byte 'c'
      · refine ⟨.matchingConnectionClose, p.contentLength, ?_, rfl, .inr ⟨?_, hdiffers'⟩⟩
        · simp only [if_neg hk, if_pos hc]
          rfl
        · exact hfollows (by rw [hc]; decide) (by decide)
      · refine ⟨.general, p.contentLength, ?_, rfl, .inl ⟨.inr (.inr ⟨rfl, hdiffers'⟩), ?_⟩⟩
        · simp only [if_neg hk, if_neg hc]
          rfl
        · refine hdiffers fun hpre => hc ?_
          exact (List.cons_prefix_cons.1 (show [lower ch] <+: byte 'c' :: CLOSE.tail from hpre)).1
  | contentLength =>
    have hnum : isNum ch = true := by
      rw [hs] at hlen
      exact ((hlen rfl).digits ch List.mem_cons_self).resolve_right hsp
    refine ⟨.contentLength, ch.toNat - 48, ?_, rfl, ?_⟩
    · simp only [if_pos hnum]
      simp [HeaderState.kind]
    · simp [decimal, hsp]
  | transferEncoding =>
    by_cases hc : lower ch = byte 'c'
    · refine ⟨.matchingTransferEncodingChunked, p.contentLength, ?_, rfl, ?_⟩
      · simp only [if_pos hc]
        rfl
      · exact hfollows (by rw [hc]; decide) (by decide)
    · refine ⟨.general, p.contentLength, ?_, rfl, .inr (.inr ⟨rfl, ?_⟩)⟩
      · simp only [if_neg hc]
        rfl
      · refine hdiffers fun hpre => hc ?_
        exact (List.cons_prefix_cons.1 (show [lower ch] <+: byte 'c' :: CHUNKED.tail from hpre)).1
  | _ => exact ⟨.general, p.contentLength, rfl, rfl, rfl⟩

/-- The end of a header: what it says is flagged. -/
theorem flags_apply {kind : FieldKind} {n : Nat} {value : Bytes} (hne : value ≠ [])
    (h : ValueTracks kind n value p) (flags : Flags) :
    p.headerState.flags (if kind = .upgrade then { flags with upgrade := true } else flags) =
        (kind.apply value (flags, n)).1 ∧
      p.contentLength = (kind.apply value (flags, n)).2 := by
  simp only [FieldKind.apply, if_neg hne]
  cases kind with
  | connection =>
    obtain ⟨hn, ⟨hfollows, hdiffers, -⟩ | ⟨hfollows, hdiffers, -⟩⟩ := h
    · refine ⟨?_, hn⟩
      rw [hdiffers]
      rcases hfollows.ends with ⟨hs, htells⟩ | ⟨hs | hs, htells⟩ <;>
        simp [hs, htells, HeaderState.flags]
    · refine ⟨?_, hn⟩
      rw [hdiffers]
      rcases hfollows.ends with ⟨hs, htells⟩ | ⟨hs | hs, htells⟩ <;>
        simp [hs, htells, HeaderState.flags]
  | contentLength =>
    obtain ⟨hs, hn⟩ := h
    exact ⟨by rw [hs]; rfl, hn⟩
  | transferEncoding =>
    obtain ⟨hn, hfollows⟩ := h
    refine ⟨?_, hn⟩
    rcases hfollows.ends with ⟨hs, htells⟩ | ⟨hs | hs, htells⟩ <;>
      simp [hs, htells, HeaderState.flags]
  | upgrade | other =>
    obtain ⟨hn, hs⟩ := h
    exact ⟨by rw [hs]; rfl, hn⟩

/-- The events before do not matter at the start of a line. -/
theorem headerFieldStart_events (hch : ch ≠ LF) (p : HttpParser) (rest : Bytes) :
    ∃ (p' : HttpParser) (marks : Kind → Option Bytes) (next : Next),
      ∀ es, (Exec.mk p noMarks es).headerFieldStart 0 ch rest = (⟨p', marks, es⟩, next) := by
  by_cases hcr : ch = CR
  · exact ⟨{ p with state := .headersAlmostDone }, noMarks, .advance 0, fun es => by
      simp only [headerFieldStart, if_pos hcr, goto]⟩
  · cases htok : token ch with
    | none =>
      exact ⟨{ p with failed := true }, noMarks, .error, fun es => by
        simp only [headerFieldStart, if_neg hcr, if_neg hch, htok, fail]⟩
    | some c =>
      exact ⟨{ p with index := 0, state := .headerField, headerState := firstHeaderState c },
        only .headerField (ch :: rest), .advance 0, fun es => by
          simp only [headerFieldStart, if_neg hcr, if_neg hch, htok, mark_noMarks]⟩

section headers

variable (hstep : ReadsHeaders step)

include hstep

/-- The rest of a name. -/
theorem run_nameBytes {ptr : Bytes} (y : Bytes) (q : Bytes) (hq : ∀ ch ∈ q, token ch ≠ none)
    (v : Bytes) (p : HttpParser) (hs : p.state = .headerField) (hv : Tracks v p.index p.headerState)
    (hn : p.nread + q.length ≤ HTTP_MAX_HEADER_SIZE) : ∃ (s : HeaderState) (index : Nat),
      Scan.Run (scanner step) (p, only .headerField ptr) q y []
        ({ p with headerState := s, index, nread := p.nread + q.length }, only .headerField ptr) ∧
      Tracks (v ++ q.map lowerCase) index s := by
  induction q generalizing v p with
  | nil => exact ⟨p.headerState, p.index, .nil _ y, by simpa using hv⟩
  | cons ch q ih =>
    obtain ⟨hch, hq⟩ := List.forall_mem_cons.1 hq
    have htok := token_eq hch
    rw [List.length_cons] at hn
    let p' := nameByte { p with nread := p.nread + 1 } ch (lowerCase ch)
    have hp' : p' = { p with nread := p.nread + 1, headerState := p'.headerState, index := p'.index } :=
      nameByte_eq ..
    have hbyte : scanner step (p, only .headerField ptr) ch (q ++ y) =
        some ((p', only .headerField ptr), [], 0) := by
      refine scanner_limited (hstep.field _ ch _ hs) (by omega) ?_
      simp only [headerField, htok]
      rfl
    have hnext : Tracks (v ++ [lowerCase ch]) p'.index p'.headerState := tracks_nameByte htok hv
    obtain ⟨s, index, hrun, htracks⟩ := ih hq (v ++ [lowerCase ch]) p' (by rw [hp']; exact hs) hnext
      (by rw [hp']; simp only; omega)
    refine ⟨s, index, ?_, ?_⟩
    · have := Scan.Run.head hbyte hrun
      rw [hp'] at this
      simpa [Nat.add_assoc, Nat.add_comm 1] using this
    · simpa using htracks

/-- A name, up to its colon. -/
theorem run_name (name : Bytes) (hne : name ≠ []) (hname : ∀ ch ∈ name, token ch ≠ none)
    (hs : p.state = .headerFieldStart) (hn : p.nread + (name.length + 1) ≤ HTTP_MAX_HEADER_SIZE) :
    ∃ (s : HeaderState) (index : Nat),
      Scan.Run (scanner step) (p, noMarks) (name ++ [byte ':']) y
        [.data .headerField (name ++ byte ':' :: y) name.length]
        ({ p with
          state := .headerValueDiscardWs
          headerState := s, index
          nread := p.nread + (name.length + 1) }, noMarks) ∧
      s.kind = fieldKind (name.map lowerCase) := by
  obtain ⟨ch, q, rfl⟩ := List.exists_cons_of_ne_nil hne
  obtain ⟨hch, hq⟩ := List.forall_mem_cons.1 hname
  have htok := token_eq hch
  have hcr : ch ≠ CR := by
    rintro rfl
    exact hch (by decide)
  have hlf : ch ≠ LF := by
    rintro rfl
    exact hch (by decide)
  rw [List.length_cons] at hn
  let ptr : Bytes := ch :: (q ++ byte ':' :: y)
  have hfirst : scanner step (p, noMarks) ch (q ++ byte ':' :: y) =
      some (({ p with
        state := .headerField
        headerState := firstHeaderState (lowerCase ch)
        index := 0
        nread := p.nread + 1 }, only .headerField ptr), [], 0) := by
    refine scanner_limited (hstep.start _ ch _ hs hlf) (by omega) ?_
    simp only [headerFieldStart, if_neg hcr, if_neg hlf, htok, mark_noMarks]
    rfl
  obtain ⟨s, index, hrun, htracks⟩ := run_nameBytes hstep (byte ':' :: y) q hq [lowerCase ch]
    { p with
      state := .headerField
      headerState := firstHeaderState (lowerCase ch)
      index := 0
      nread := p.nread + 1 } rfl (tracks_first _) (by simp only; omega)
  have hcolon : scanner step ({ p with
      state := .headerField
      headerState := s
      index
      nread := p.nread + 1 + q.length }, only .headerField ptr) (byte ':') y =
      some (({ p with
        state := .headerValueDiscardWs
        headerState := s
        index
        nread := p.nread + 1 + q.length + 1 }, noMarks),
        [.data .headerField ptr (q.length + 1)], 0) := by
    have hnone : token (byte ':') = none := by decide
    refine scanner_limited (hstep.field _ _ _ rfl) (by simp only; omega) ?_
    simp only [headerField, hnone, if_true, goto, callbackData_only]
    simp [ptr]
    omega
  refine ⟨s, index, ?_, ?_⟩
  · have := (Scan.Run.head hfirst hrun).concat hcolon
    simpa [ptr, Nat.add_assoc, Nat.add_comm 1] using this
  · refine kind_of_tracks htracks (by simp)

/-- The rest of a value. -/
theorem run_valueBytes {kind : FieldKind} {n : Nat} (ptr y q : Bytes)
    (hq : ∀ ch ∈ q, ch ≠ CR ∧ ch ≠ LF) (v : Bytes) (p : HttpParser) (hs : p.state = .headerValue)
    (hv : ValueTracks kind n v p) (hlen : kind = .contentLength → IsLength (v ++ q))
    (hn : p.nread + q.length ≤ HTTP_MAX_HEADER_SIZE) : ∃ (s : HeaderState) (index n' : Nat),
      Scan.Run (scanner step) (p, only .headerValue ptr) q y []
        ({ p with headerState := s, index, contentLength := n', nread := p.nread + q.length },
          only .headerValue ptr) ∧
      ValueTracks kind n (v ++ q) { p with headerState := s, index, contentLength := n' } := by
  induction q generalizing v p with
  | nil => exact ⟨p.headerState, p.index, p.contentLength, .nil _ y, by simpa using hv⟩
  | cons ch q ih =>
    obtain ⟨⟨hcr, hlf⟩, hq⟩ := List.forall_mem_cons.1 hq
    rw [List.length_cons] at hn
    have hv' : ValueTracks kind n v { p with nread := p.nread + 1 } := hv
    obtain ⟨s, index, n', hbyte, hnext⟩ := valueTracks_byte hv' hlen
    have hscan : scanner step (p, only .headerValue ptr) ch (q ++ y) =
        some (({ p with headerState := s, index, contentLength := n', nread := p.nread + 1 },
          only .headerValue ptr), [], 0) := by
      refine scanner_limited (hstep.value _ ch _ hs) (by omega) ?_
      simp only [headerValue, if_neg hcr, if_neg hlf, hbyte]
    rw [List.append_cons] at hlen
    obtain ⟨s', index', n'', hrun, htracks⟩ := ih hq (v ++ [ch]) { p with
      headerState := s, index, contentLength := n', nread := p.nread + 1 } hs hnext hlen
      (by simp only; omega)
    refine ⟨s', index', n'', ?_, ?_⟩
    · have := Scan.Run.head hscan hrun
      simpa [Nat.add_assoc, Nat.add_comm 1] using this
    · rw [← List.append_cons] at htracks
      exact htracks

/-- The white space before a value. -/
theorem run_blanks (blanks y : Bytes) (hblanks : ∀ ch ∈ blanks, isBlank ch = true)
    (hs : p.state = .headerValueDiscardWs) (hn : p.nread + blanks.length ≤ HTTP_MAX_HEADER_SIZE) :
    Scan.Run (scanner step) (p, noMarks) blanks y []
      ({ p with nread := p.nread + blanks.length }, noMarks) := by
  refine Scan.Run.each (fun v => ({ p with nread := p.nread + v.length }, noMarks)) blanks y ?_
  rintro v ch q rfl
  have hblank : ch = SP ∨ ch = HT := by simpa [isBlank] using hblanks ch (by simp)
  rw [List.length_append, List.length_cons] at hn
  refine scanner_limited (hstep.discardWs _ ch _ hs) (by simp only; omega) ?_
  simp only [headerValueDiscardWs, if_pos hblank, List.length_append, List.length_singleton]
  rfl

/-- A value, with the end of its line. -/
theorem run_value (value : Bytes) (hne : value ≠ []) (hvalue : ∀ ch ∈ value, ch ≠ CR ∧ ch ≠ LF)
    (hhead : ∀ ch ∈ value.head?, isBlank ch = false) (hs : p.state = .headerValueDiscardWs)
    (hlen : p.headerState.kind = .contentLength → IsLength value)
    (hn : p.nread + (value.length + 2) ≤ HTTP_MAX_HEADER_SIZE) :
    ∃ (s : HeaderState) (index n : Nat),
      Scan.Run (scanner step) (p, noMarks) (value ++ [CR, LF]) y
        [.data .headerValue (value ++ CR :: LF :: y) value.length]
        ({ p with
          state := .headerValueLws
          flags := if p.headerState.kind = .upgrade then { p.flags with upgrade := true } else p.flags
          headerState := s, index
          contentLength := n
          nread := p.nread + (value.length + 2) }, noMarks) ∧
      ValueTracks p.headerState.kind p.contentLength value
        { p with headerState := s, index, contentLength := n } := by
  obtain ⟨ch, q, rfl⟩ := List.exists_cons_of_ne_nil hne
  obtain ⟨hch, hq⟩ := List.forall_mem_cons.1 hvalue
  have hblank : isBlank ch = false := hhead ch rfl
  rw [List.length_cons] at hn
  let ptr : Bytes := ch :: (q ++ CR :: LF :: y)
  obtain ⟨s₁, n₁, hstart, htracks₁⟩ := valueTracks_start (p := { p with nread := p.nread + 1 })
    (q ++ CR :: LF :: y) ⟨hblank, hch⟩ hlen
  have hfirst : scanner step (p, noMarks) ch (q ++ CR :: LF :: y) = _ :=
    scanner_limited (hstep.discardWs _ ch _ hs) (by omega) hstart
  obtain ⟨s, index, n, hrun, htracks⟩ := run_valueBytes hstep ptr (CR :: LF :: y) q hq [ch]
    { p with
      state := .headerValue
      flags := if p.headerState.kind = .upgrade then { p.flags with upgrade := true } else p.flags
      headerState := s₁, index := 0, contentLength := n₁
      nread := p.nread + 1 } rfl htracks₁ hlen (by simp only; omega)
  have hcr : scanner step ({ p with
      state := .headerValue
      flags := if p.headerState.kind = .upgrade then { p.flags with upgrade := true } else p.flags
      headerState := s, index, contentLength := n
      nread := p.nread + 1 + q.length }, only .headerValue ptr) CR (LF :: y) =
      some (({ p with
        state := .headerAlmostDone
        flags := if p.headerState.kind = .upgrade then { p.flags with upgrade := true } else p.flags
        headerState := s, index, contentLength := n
        nread := p.nread + 1 + q.length + 1 }, noMarks),
        [.data .headerValue ptr (q.length + 1)], 0) := by
    refine scanner_limited (hstep.value _ _ _ rfl) (by simp only; omega) ?_
    simp only [headerValue, if_true, goto, callbackData_only]
    simp [ptr]
    omega
  have hlf : scanner step ({ p with
      state := .headerAlmostDone
      flags := if p.headerState.kind = .upgrade then { p.flags with upgrade := true } else p.flags
      headerState := s, index, contentLength := n
      nread := p.nread + 1 + q.length + 1 }, noMarks) LF y =
      some (({ p with
        state := .headerValueLws
        flags := if p.headerState.kind = .upgrade then { p.flags with upgrade := true } else p.flags
        headerState := s, index, contentLength := n
        nread := p.nread + 1 + q.length + 1 + 1 }, noMarks), [], 0) := by
    refine scanner_limited (hstep.almostDone _ _ _ rfl) (by simp only; omega) ?_
    simp only [headerAlmostDone, expect, ne_eq, not_true_eq_false, if_false]
    rfl
  refine ⟨s, index, n, ?_, htracks⟩
  have := ((Scan.Run.head hfirst hrun).concat hcr).concat hlf
  simpa [ptr, Nat.add_assoc, Nat.add_comm 1, Nat.add_left_comm 1] using this

/-- An empty value, with the end of its line. -/
theorem run_noValue (hs : p.state = .headerValueDiscardWs)
    (hn : p.nread + 2 ≤ HTTP_MAX_HEADER_SIZE) :
    Scan.Run (scanner step) (p, noMarks) [CR, LF] y []
      ({ p with state := .headerValueDiscardLws, nread := p.nread + 2 }, noMarks) := by
  have hcr : scanner step (p, noMarks) CR (LF :: y) = some (({ p with
      state := .headerValueDiscardWsAlmostDone, nread := p.nread + 1 }, noMarks), [], 0) := by
    refine scanner_limited (hstep.discardWs _ _ _ hs) (by omega) ?_
    have hcr : ¬(CR = SP ∨ CR = HT) := by decide
    simp only [headerValueDiscardWs, if_neg hcr, if_true]
    rfl
  have hlf : scanner step ({ p with
      state := .headerValueDiscardWsAlmostDone, nread := p.nread + 1 }, noMarks) LF y =
      some (({ p with state := .headerValueDiscardLws, nread := p.nread + 1 + 1 }, noMarks), [], 0) := by
    refine scanner_limited (hstep.discardWsAlmostDone _ _ _ rfl) (by simp only; omega) ?_
    simp only [expect, ne_eq, not_true_eq_false, if_false]
    rfl
  exact (Scan.Run.single hcr).concat hlf

/-- A line may follow after a header with a value. -/
theorem stands_lws {flags : Flags} (hs : p.state = .headerValueLws)
    (hflags : p.headerState.flags p.flags = flags) :
    Scan.Stands (scanner step) LineStart (p, noMarks)
      ({ p with state := .headerFieldStart, flags := flags }, noMarks) fun _ => [] := by
  intro ch rest hch
  have hlws := hstep.lws ⟨p, noMarks, []⟩ ch rest hs hch
  have hstart := hstep.start ⟨{ p with state := .headerFieldStart, flags := flags }, noMarks, []⟩ ch rest
    rfl hch.2
  simp only [scanner, hlws, hstart, limited, finishHeader_eq, goto, hflags]
  by_cases hmax : HTTP_MAX_HEADER_SIZE < p.nread + 1
  · simp only [if_pos hmax, fail, Option.map_none]
  · simp only [if_neg hmax]
    split <;> rfl

/-- A line may follow after a header without a value, which is still to be reported. -/
theorem stands_discardLws (hs : p.state = .headerValueDiscardLws) :
    Scan.Stands (scanner step) LineStart (p, noMarks)
      ({ p with state := .headerFieldStart }, noMarks) fun q => [.data .headerValue q 0] := by
  intro ch rest hch
  have hlws := hstep.discardLws ⟨p, noMarks, []⟩ ch rest hs hch
  have hstart := hstep.start ⟨{ p with state := .headerFieldStart }, noMarks, []⟩ ch rest
    rfl hch.2
  simp only [scanner, hlws, hstart, limited, mark_noMarks, goto, callbackData_only, Nat.sub_self]
  by_cases hmax : HTTP_MAX_HEADER_SIZE < p.nread + 1
  · simp only [if_pos hmax, fail, Option.map_none]
  · simp only [if_neg hmax, List.nil_append]
    obtain ⟨p', marks, next, hevents⟩ := headerFieldStart_events hch.2
      { p with state := .headerFieldStart, nread := p.nread + 1 } rest
    simp only [hevents]
    cases next <;> rfl

end headers

end Exec

end HttpParser

namespace Field

open HttpParser Exec

/-- The events of a line, which `y` follows. -/
def events (f : Field) (y : Bytes) : List Event :=
  [.data .headerField (f.text ++ y) f.name.length,
    .data .headerValue (if f.value = [] then y else f.value ++ CR :: LF :: y) f.value.length]

variable {step : Exec → UInt8 → Bytes → Exec × Next} {p : HttpParser}

/-- A line of the headers. What it says is flagged, and an empty value reported, at the next byte. -/
theorem run (hstep : ReadsHeaders step) (f : Field) (hok : f.Ok) (hs : p.state = .headerFieldStart)
    (hn : p.nread + f.text.length ≤ HTTP_MAX_HEADER_SIZE) (y : Bytes) :
    ∃ (s : HttpParser × (Kind → Option Bytes)) (hstate : HeaderState) (index : Nat) (es : List Event)
      (pending : Bytes → List Event),
      Scan.Run (scanner step) (p, noMarks) f.text y es s ∧
      Scan.Stands (scanner step) LineStart s ({ p with
        state := .headerFieldStart
        flags := (f.apply (p.flags, p.contentLength)).1
        contentLength := (f.apply (p.flags, p.contentLength)).2
        headerState := hstate, index
        nread := p.nread + f.text.length }, noMarks) pending ∧
      es ++ pending y = f.events y := by
  have hlen : f.text.length = f.name.length + 1 + f.blanks.length + (f.value.length + 2) := by
    simp [text]
    omega
  rw [hlen] at hn ⊢
  have htext : f.text = (f.name ++ [byte ':']) ++ (f.blanks ++ (f.value ++ [CR, LF])) := by
    simp [text]
  obtain ⟨s₁, i₁, hname, hkind⟩ := run_name hstep (y := f.blanks ++ (f.value ++ [CR, LF]) ++ y) f.name
    f.name_ne_nil f.name_token hs (by omega)
  have hblanks := run_blanks hstep f.blanks (f.value ++ [CR, LF] ++ y) f.blanks_blank
    (p := { p with
      state := .headerValueDiscardWs
      headerState := s₁
      index := i₁
      nread := p.nread + (f.name.length + 1) }) rfl (by simp only; omega)
  have hnread : p.nread + (f.name.length + 1 + f.blanks.length + (f.value.length + 2)) =
      p.nread + (f.name.length + 1) + f.blanks.length + (f.value.length + 2) := by omega
  rw [htext, hnread]
  by_cases hvalue : f.value = []
  · have hend := run_noValue hstep (y := y) (p := { p with
      state := .headerValueDiscardWs
      headerState := s₁
      index := i₁
      nread := p.nread + (f.name.length + 1) + f.blanks.length }) rfl (by simp only; omega)
    have happly : f.apply (p.flags, p.contentLength) = (p.flags, p.contentLength) := by
      simp [apply, FieldKind.apply, hvalue]
    rw [happly]
    rw [hvalue] at hname hblanks ⊢
    refine ⟨_, s₁, i₁, _, fun q => [.data .headerValue q 0], hname.trans (hblanks.trans hend), ?_, ?_⟩
    · exact stands_discardLws hstep rfl
    · simp [events, hvalue, text]
  · obtain ⟨s₂, i₂, n, hend, htracks⟩ := run_value hstep (y := y) (p := { p with
      state := .headerValueDiscardWs
      headerState := s₁
      index := i₁
      nread := p.nread + (f.name.length + 1) + f.blanks.length }) f.value hvalue f.value_line
      f.value_head rfl (hkind ▸ hok) (by simp only; omega)
    simp only [hkind] at htracks hend
    obtain ⟨hflags, hcontent⟩ := flags_apply hvalue htracks p.flags
    refine ⟨_, s₂, i₂, _, fun _ => [], hname.trans (hblanks.trans hend), ?_, ?_⟩
    · rw [Field.apply, kind, ← hcontent]
      exact stands_lws hstep rfl hflags
    · simp [events, hvalue, text]

theorem lineStart (f : Field) : ∃ ch rest, f.text = ch :: rest ∧ LineStart ch := by
  obtain ⟨ch, q, hname⟩ := List.exists_cons_of_ne_nil f.name_ne_nil
  refine ⟨ch, q ++ byte ':' :: (f.blanks ++ f.value ++ [CR, LF]), by rw [text, hname]; rfl, ?_⟩
  have htok : HttpParser.token ch ≠ none := f.name_token ch (hname ▸ List.mem_cons_self)
  refine ⟨?_, ?_⟩
  · rw [← Bool.not_eq_true]
    intro hblank
    have hws : ch = SP ∨ ch = HT := by simpa [isBlank] using hblank
    rcases hws with rfl | rfl
    · exact htok (by decide)
    · exact htok (by decide)
  · rintro rfl
    exact htok (by decide)

end Field

/-! ## The headers -/

section fields

open HttpParser Exec

/-- The lines of the headers. -/
def fieldsText (fields : List Field) : Bytes := fields.flatMap Field.text

/-- The events of the headers, which `y` follows. -/
def fieldsEvents : List Field → Bytes → List Event
  | [], _ => []
  | f :: fields, y => f.events (fieldsText fields ++ y) ++ fieldsEvents fields y

/-- What the headers say: the flags, and the content length. -/
def fieldsApply (fields : List Field) (s : Flags × Nat) : Flags × Nat :=
  fields.foldl (fun s f => f.apply s) s

/-- The headers, up to the carriage return of the empty line. -/
theorem run_fields {step : Exec → UInt8 → Bytes → Exec × Next} (hstep : ReadsHeaders step)
    (fields : List Field) (hok : ∀ f ∈ fields, f.Ok) {s : HttpParser × (Kind → Option Bytes)}
    {p : HttpParser} {pending : Bytes → List Event}
    (hstands : Scan.Stands (scanner step) LineStart s (p, noMarks) pending)
    (hs : p.state = .headerFieldStart)
    (hn : p.nread + ((fieldsText fields).length + 1) ≤ HTTP_MAX_HEADER_SIZE) (y : Bytes) :
    ∃ (hstate : HeaderState) (index : Nat),
      Scan.Run (scanner step) s (fieldsText fields ++ [CR]) y
        (pending (fieldsText fields ++ CR :: y) ++ fieldsEvents fields (CR :: y))
        ({ p with
          state := .headersAlmostDone
          flags := (fieldsApply fields (p.flags, p.contentLength)).1
          contentLength := (fieldsApply fields (p.flags, p.contentLength)).2
          headerState := hstate, index
          nread := p.nread + ((fieldsText fields).length + 1) }, noMarks) := by
  induction fields generalizing s p pending with
  | nil =>
    have hcr : scanner step (p, noMarks) CR y =
        some (({ p with state := .headersAlmostDone, nread := p.nread + 1 }, noMarks), [], 0) := by
      refine scanner_limited (hstep.start _ _ _ hs (by decide)) hn ?_
      simp only [headerFieldStart, if_true]
      rfl
    exact ⟨p.headerState, p.index, hstands.run ⟨by decide, by decide⟩ (.single hcr)⟩
  | cons f fields ih =>
    obtain ⟨hf, hfields⟩ := List.forall_mem_cons.1 hok
    have htext : fieldsText (f :: fields) = f.text ++ fieldsText fields := List.flatMap_cons
    rw [htext, List.length_append] at hn ⊢
    obtain ⟨ch, rest, hline, hch⟩ := f.lineStart
    obtain ⟨s', hstate, index, es, pending', hrun, hstands', hevents⟩ := f.run hstep hf hs
      (by omega) (fieldsText fields ++ [CR] ++ y)
    obtain ⟨hstate', index', hrest⟩ := ih hfields hstands' rfl (by simp only; omega)
    rw [hline] at hrun
    have hfirst := hstands.run hch hrun
    rw [← hline] at hfirst
    refine ⟨hstate', index', ?_⟩
    have hassoc : fieldsText fields ++ [CR] ++ y = fieldsText fields ++ CR :: y := by simp
    have hline' := hfirst.trans hrest
    rw [hassoc] at hevents hline'
    rw [fieldsEvents, ← hevents]
    simpa [fieldsApply, Nat.add_assoc] using hline'

end fields

end Mistress
