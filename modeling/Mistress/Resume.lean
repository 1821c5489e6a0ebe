import Mistress.Marks
import Mistress.Message

/-!
# The parser carries on

`http_parser_execute` keeps what it needs in the parser: on a buffer that it parses, or on
its parts one after the other, it comes to the same (`execute_append`), and a string that
is cut is reported in two parts. So it `CarriesOn` (`liveParser_carriesOn`), as long as
there is no upgrade, after which it would parse nothing. At an upgrade the process exits,
so `receive` does not see the difference (`receive_live`).

The induction is on the part before the cut (`loop_append`). Where the cut is in a string,
the rest of it is read in the same way from its new beginning (`loop_shift`).
-/

open LuaStack

namespace Mistress

/-- The headers end after the strings that are reported before. -/
def Event.Before : Event → Event → Prop
  | .data _ ptr _, .headersComplete ptr' _ _ => ptr' <:+ ptr
  | _, _ => True

/-- The events of a run over `p`, in the order of the bytes that cause them. -/
structure Located (p : Bytes) (es : List Event) : Prop where
  at_ : ∀ ev ∈ es, ∃ q, q <:+ p ∧ ev.At q
  before : es.Pairwise Event.Before

theorem Event.At.before {p q : Bytes} {ev ev' : Event} (h : ev.At p) (h' : ev'.At q)
    (hq : q <:+ p) : ev.Before ev' := by
  cases ev with
  | data kind ptr length =>
    cases ev' with
    | headersComplete ptr' _ _ =>
      obtain rfl : ptr' = q := h'.1
      exact hq.trans h.1
    | _ => trivial
  | _ => trivial

/-- The events of a byte and those of the bytes that follow. -/
theorem Located.append {p q : Bytes} {es es' : List Event} (h : ∀ ev ∈ es, ev.At p)
    (h' : Located q es') (hq : q <:+ p) : Located p (es ++ es') where
  at_ ev hev := by
    rcases List.mem_append.1 hev with hev | hev
    · exact ⟨p, List.suffix_rfl, h ev hev⟩
    · obtain ⟨r, hr, hat⟩ := h'.at_ ev hev
      exact ⟨r, hr.trans hq, hat⟩
  before := by
    refine List.pairwise_append.2 ⟨?_, h'.before, fun ev hev ev' hev' => ?_⟩
    · exact List.pairwise_iff_forall_sublist.2 fun hsub =>
        (h _ (hsub.subset (by simp))).before (h _ (hsub.subset (by simp))) List.suffix_rfl
    · obtain ⟨r, hr, hat⟩ := h'.at_ ev' hev'
      exact (h ev hev).before hat (hr.trans hq)

theorem Located.mono {p q : Bytes} {es : List Event} (h : Located q es) (hq : q <:+ p) :
    Located p es :=
  show Located p ([] ++ es) from .append (by simp) h hq

theorem Located.nil (p : Bytes) : Located p [] := ⟨by simp, .nil⟩

theorem Cut.append {buffer : Bytes} {es es₁ es₂ : List Event} (h : Cut buffer es es₁ es₂)
    (es' : List Event) : Cut buffer (es'.map (Event.extend buffer) ++ es) (es' ++ es₁) es₂ := by
  cases h with
  | between es₁ es₂ =>
    rw [← List.append_assoc, ← List.map_append]
    exact .between (es' ++ es₁) es₂
  | inside es₁ kind ptr length es₂ h =>
    rw [← List.append_assoc, ← List.append_assoc, ← List.map_append]
    exact .inside (es' ++ es₁) kind ptr length es₂ h

namespace HttpParser

namespace Exec

variable {ret : Nat}

/-! ### The loop -/

theorem loop_append_skip (ret : Nat) (p q : Bytes) (n : Nat) (e : Exec) :
    e.loop ret (p ++ q) (p.length + n) = e.loop ret q n := by
  induction p with
  | nil => rw [List.nil_append, List.length_nil, Nat.zero_add]
  | cons c p ih =>
    rw [List.cons_append, List.length_cons, Nat.add_right_comm]
    exact ih

/-- The end of a buffer comes to nothing if no string is read. -/
theorem loop_nil_noMarks (ret n : Nat) (parser : HttpParser) :
    loop ret [] n ⟨parser, noMarks, []⟩ = (⟨parser, noMarks, []⟩, []) := rfl

theorem loop_nil_only (ret n : Nat) (parser : HttpParser) (k : Kind) (ptr : Bytes) :
    loop ret [] n ⟨parser, only k ptr, []⟩ =
      (⟨parser, noMarks, [.data k ptr ptr.length]⟩, []) := by
  rw [loop, flush_only]
  rfl

/-- The rest of a string is read alike wherever the string begins. -/
theorem loop_shift (ret : Nat) {k : Kind} (x q r : Bytes) (hr : r <:+ q) (parser : HttpParser)
    (hs : parser.state.holds = some k)
    (hleft : (loop ret r 0 ⟨parser, only k (x ++ q), []⟩).2 = []) :
    ∃ (l : Nat) (es : List Event) (e : Exec), l ≤ q.length ∧
      loop ret r 0 ⟨parser, only k (x ++ q), []⟩ =
        ({ e with events := .data k (x ++ q) (x.length + l) :: es }, []) ∧
      loop ret r 0 ⟨parser, only k q, []⟩ = ({ e with events := .data k q l :: es }, []) := by
  induction r generalizing parser with
  | nil =>
    refine ⟨q.length, [], ⟨parser, noMarks, []⟩, le_rfl, ?_, loop_nil_only ..⟩
    rw [loop_nil_only, List.length_append]
  | cons ch rest ih =>
    have hrest : rest <:+ q := (List.suffix_cons ch rest).trans hr
    simp only [loop] at hleft ⊢
    cases reads_step ret ch rest hs with
    | more parser' hs' hlive h =>
      simp only [h] at hleft ⊢
      obtain ⟨l, es, e, hl, hlong, hshort⟩ := ih hrest parser' (by rw [hs']; exact hs) hleft
      refine ⟨l, es, e, hl, ?_, ?_⟩
      · rw [hlong]
        rfl
      · rw [hshort]
        rfl
    | ends parser' hs' hlive h =>
      simp only [h, List.nil_append] at hleft ⊢
      have hlen := hr.length_le
      rw [List.length_cons] at hlen
      refine ⟨q.length - (rest.length + 1), (loop ret rest 0 ⟨parser', noMarks, []⟩).1.events,
        (loop ret rest 0 ⟨parser', noMarks, []⟩).1, Nat.sub_le .., ?_, ?_⟩
      · rw [hleft, List.length_append, Nat.add_sub_assoc hlen]
        rfl
      · rw [hleft]
        rfl
    | fails parser' h =>
      simp only [h] at hleft
      cases hleft

end Exec

theorem initialMarks_none {s : State} (h : s.reads = none) (b : Bytes) :
    initialMarks s b = noMarks := by
  funext k
  cases s <;> cases k <;> simp_all [initialMarks, State.reads, noMarks]

theorem initialMarks_some {s : State} {k : Kind} (h : s.reads = some k) (b : Bytes) :
    initialMarks s b = only k b := by
  funext k'
  cases s <;> cases k' <;> simp_all [initialMarks, State.reads, only] <;> subst h <;> simp

namespace Exec

variable {ret : Nat} {e : Exec} {ch : UInt8} {rest p b : Bytes}

/-- The run over a buffer of a parser that was interrupted. -/
def restart (ret : Nat) (parser : HttpParser) (b : Bytes) : Exec × Bytes :=
  loop ret b 0 ⟨parser, initialMarks parser.state b, []⟩

/-- A run over a buffer that goes on with `b`, and the same run interrupted before `b`. -/
structure Resumes (ret : Nat) (b : Bytes) (long short : Exec × Bytes) : Prop where
  left : short.2 = []
  live : short.1.parser.Live
  cut : Cut b long.1.events short.1.events (restart ret short.1.parser b).1.events
  parser : (restart ret short.1.parser b).1.parser = long.1.parser
  left_restart : (restart ret short.1.parser b).2 = []

/-- The cut is where a byte has been parsed. -/
theorem resumes_nil (he : e.events = []) (hm : e.Marked []) (hlive : e.parser.Live) (hb : b ≠ [])
    (hleft : (loop ret b 0 (e.extend b)).2 = []) :
    Resumes ret b (loop ret b 0 (e.extend b)) (loop ret [] 0 e) := by
  obtain ⟨parser, marks, events⟩ := e
  obtain rfl : events = [] := he
  rcases hm with ⟨hreads, hm⟩ | ⟨k, ptr, hs, hm, -⟩
  · obtain rfl : marks = noMarks := hm
    have hrestart : restart ret parser b = loop ret b 0 ((Exec.mk parser noMarks []).extend b) := by
      rw [restart, initialMarks_none hreads]
      rfl
    rw [loop_nil_noMarks]
    refine ⟨rfl, hlive, ?_, ?_, ?_⟩
    · rw [hrestart]
      exact .between [] _
    · rw [hrestart]
    · rw [hrestart]
      exact hleft
  · obtain rfl : marks = only k ptr := hm
    have hextend : (Exec.mk parser (only k ptr) []).extend b = ⟨parser, only k (ptr ++ b), []⟩ := by
      simp only [extend, List.map_nil]
      congr 1
      funext k'
      unfold only
      split <;> rfl
    rw [hextend] at hleft ⊢
    rw [loop_nil_only]
    cases hreads : parser.state.reads with
    | some k' =>
      obtain rfl : k' = k := Option.some.inj ((State.holds_of_reads hreads).symm.trans hs)
      obtain ⟨l, es, e, hl, hlong, hshort⟩ := loop_shift ret ptr b b List.suffix_rfl parser hs hleft
      have hrestart : restart ret parser b = ({ e with events := .data k' b l :: es }, []) := by
        rw [restart, initialMarks_some hreads, hshort]
      rw [hlong]
      refine ⟨rfl, hlive, ?_, ?_, ?_⟩
      · rw [hrestart]
        exact .inside [] k' ptr l es hl
      · rw [hrestart]
      · rw [hrestart]
    | none =>
      -- The data of the chunk is reported at the byte that follows it.
      obtain ⟨hstate, rfl⟩ := State.holds_of_reads_none hreads hs
      obtain ⟨ch, rest, rfl⟩ := List.exists_cons_of_ne_nil hb
      by_cases hcr : ch = CR
      · have hlong : loop ret (ch :: rest) 0 ⟨parser, only .body (ptr ++ ch :: rest), []⟩ =
            ({ (loop ret rest 0 ⟨{ parser with state := .chunkDataDone }, noMarks, []⟩).1 with
              events := .data .body (ptr ++ ch :: rest) ptr.length ::
                (loop ret rest 0 ⟨{ parser with state := .chunkDataDone }, noMarks, []⟩).1.events },
              (loop ret rest 0 ⟨{ parser with state := .chunkDataDone }, noMarks, []⟩).2) := by
          simp [loop, step, dispatch, hstate, State.parsingHeader, chunkDataAlmostDone, hcr, goto,
            callbackData_only]
        have hrestart : restart ret parser (ch :: rest) =
            loop ret rest 0 ⟨{ parser with state := .chunkDataDone }, noMarks, []⟩ := by
          rw [restart, initialMarks_none hreads]
          simp [loop, step, dispatch, hstate, State.parsingHeader, chunkDataAlmostDone, hcr, goto,
            callbackData, noMarks]
        rw [hlong] at hleft ⊢
        refine ⟨rfl, hlive, ?_, ?_, ?_⟩
        · rw [hrestart]
          exact .between [.data .body ptr ptr.length] _
        · rw [hrestart]
        · rw [hrestart]
          exact hleft
      · simp [loop, step, dispatch, hstate, State.parsingHeader, chunkDataAlmostDone, hcr,
          fail] at hleft

/-! ### The body -/

theorem loop_drop (ret : Nat) {p : Bytes} {n : Nat} (hn : n ≤ p.length) (e : Exec) :
    loop ret p n e = loop ret (p.drop n) 0 e := by
  have h := loop_append_skip ret (p.take n) (p.drop n) 0 e
  rwa [List.take_append_drop, List.length_take, Nat.min_eq_left hn, Nat.add_zero] at h

/-- The run goes on after a byte. -/
theorem loop_advance {n : Nat} {e' : Exec} (h : e.step ret ch rest = (e', .advance n))
    (hn : n ≤ rest.length) : loop ret (ch :: rest) 0 e =
      let r := loop ret (rest.drop n) 0 { e' with events := [] }
      ({ r.1 with events := e'.events ++ r.1.events }, r.2) := by
  rw [← loop_drop ret hn]
  simp only [loop, h]

theorem readBody_noMarks (parser : HttpParser) (p : Bytes) :
    (Exec.mk parser noMarks []).readBody p =
      (⟨{ parser with contentLength := parser.contentLength - min parser.contentLength p.length },
        only .body p, []⟩, min parser.contentLength p.length) := by
  rw [readBody, mark_noMarks rfl]

section body

variable (ret : Nat) (parser : HttpParser) (hne : p ≠ [])

include hne

/-- A read of a body that the end of the connection ends. -/
theorem loop_bodyIdentityEof (hs : parser.state = .bodyIdentityEof) :
    loop ret p 0 ⟨parser, noMarks, []⟩ = (⟨parser, noMarks, [.data .body p p.length]⟩, []) := by
  obtain ⟨ch, rest, rfl⟩ := List.exists_cons_of_ne_nil hne
  have hstep : (Exec.mk parser noMarks []).step ret ch rest =
      (⟨parser, only .body (ch :: rest), []⟩, .advance rest.length) := by
    simp only [step, dispatch, hs, State.parsingHeader, bodyIdentityEof, mark_noMarks,
      Bool.false_eq_true, if_false]
  rw [loop_advance hstep le_rfl, List.drop_length, loop_nil_only]
  rfl

/-- A read of a part of a body or of a chunk. -/
theorem loop_part (hs : parser.state = .bodyIdentity ∨ parser.state = .chunkData)
    (h : p.length < parser.contentLength) : loop ret p 0 ⟨parser, noMarks, []⟩ =
      (⟨{ parser with contentLength := parser.contentLength - p.length }, noMarks,
        [.data .body p p.length]⟩, []) := by
  obtain ⟨ch, rest, rfl⟩ := List.exists_cons_of_ne_nil hne
  have hleft := Nat.sub_ne_zero_of_lt h
  have hstep : (Exec.mk parser noMarks []).step ret ch rest =
      (⟨{ parser with contentLength := parser.contentLength - (rest.length + 1) },
        only .body (ch :: rest), []⟩, .advance rest.length) := by
    have hread := readBody_noMarks parser (ch :: rest)
    rw [Nat.min_eq_right h.le] at hread
    rw [List.length_cons] at hleft
    rcases hs with hs | hs
    · simp only [step, dispatch, hs, State.parsingHeader, bodyIdentity, hread, List.length_cons,
        hleft, Bool.false_eq_true, if_false, Nat.add_sub_cancel]
    · simp only [step, dispatch, hs, State.parsingHeader, chunkData, hread, List.length_cons, hleft,
        Bool.false_eq_true, if_false, Nat.add_sub_cancel]
  rw [loop_advance hstep le_rfl, List.drop_length, loop_nil_only]
  rfl

/-- A read of a body to its end. -/
theorem loop_bodyIdentity (hs : parser.state = .bodyIdentity) (hpos : 0 < parser.contentLength)
    (h : parser.contentLength ≤ p.length) :
    loop ret p 0 ⟨parser, noMarks, []⟩ =
      let r := loop ret (p.drop parser.contentLength) 0
        ⟨{ parser with
          contentLength := 0
          state := ({ parser with contentLength := 0 } : HttpParser).newMessage }, noMarks, []⟩
      ({ r.1 with events := .data .body p parser.contentLength :: .messageComplete :: r.1.events },
        r.2) := by
  obtain ⟨ch, rest, rfl⟩ := List.exists_cons_of_ne_nil hne
  have hlen : (ch :: rest).length - ((ch :: rest).drop parser.contentLength).length =
      parser.contentLength := by
    rw [List.length_drop]
    omega
  have hstep : (Exec.mk parser noMarks []).step ret ch rest =
      (⟨{ parser with
          contentLength := 0
          state := ({ parser with contentLength := 0 } : HttpParser).newMessage }, noMarks,
        [.data .body (ch :: rest) parser.contentLength, .messageComplete]⟩,
        .advance (parser.contentLength - 1)) := by
    have hread := readBody_noMarks parser (ch :: rest)
    rw [Nat.min_eq_left h, Nat.sub_self] at hread
    simp only [step, dispatch, hs, State.parsingHeader, bodyIdentity, hread, Bool.false_eq_true,
      if_false, if_true, goto, callbackData_only, hlen]
    rfl
  rw [List.length_cons] at h
  rw [loop_advance hstep (Nat.sub_le_of_le_add h)]
  obtain ⟨n, hn⟩ := Nat.exists_eq_add_one.2 hpos
  rw [hn]
  rfl

/-- A read of a chunk to the end of its data. -/
theorem loop_chunkData (hs : parser.state = .chunkData) (hpos : 0 < parser.contentLength)
    (h : parser.contentLength ≤ p.length) :
    loop ret p 0 ⟨parser, noMarks, []⟩ = loop ret (p.drop parser.contentLength) 0
      ⟨{ parser with contentLength := 0, state := .chunkDataAlmostDone }, only .body p, []⟩ := by
  obtain ⟨ch, rest, rfl⟩ := List.exists_cons_of_ne_nil hne
  have hstep : (Exec.mk parser noMarks []).step ret ch rest =
      (⟨{ parser with contentLength := 0, state := .chunkDataAlmostDone }, only .body (ch :: rest),
        []⟩, .advance (parser.contentLength - 1)) := by
    have hread := readBody_noMarks parser (ch :: rest)
    rw [Nat.min_eq_left h, Nat.sub_self] at hread
    simp only [step, dispatch, hs, State.parsingHeader, chunkData, hread, Bool.false_eq_true,
      if_false, if_true, goto]
  rw [List.length_cons] at h
  rw [loop_advance hstep (Nat.sub_le_of_le_add h)]
  obtain ⟨n, hn⟩ := Nat.exists_eq_add_one.2 hpos
  rw [hn]
  rfl

end body

theorem Straddles.noMarks (h : e.Straddles p.length) (hm : e.Marked p) :
    e.parser.state.reads = none ∧ e.marks = noMarks := by
  rcases hm with hm | ⟨k, ptr, hs, -⟩
  · exact hm
  · unfold Straddles at h
    cases hstate : e.parser.state <;> simp_all [State.holds, State.reads]

/-- The cut is in the data of a body. -/
theorem resumes_straddles (he : e.events = []) (hm : e.Marked p) (hlive : e.parser.Live)
    (h : e.Straddles p.length) (hp : p ≠ []) (hb : b ≠ [])
    (hleft : (loop ret (p ++ b) 0 (e.extend b)).2 = []) :
    Resumes ret b (loop ret (p ++ b) 0 (e.extend b)) (loop ret p 0 e) := by
  obtain ⟨hreads, hmarks⟩ := h.noMarks hm
  obtain ⟨parser, marks, events⟩ := e
  obtain rfl : events = [] := he
  obtain rfl : marks = HttpParser.noMarks := hmarks
  have hpb : p ++ b ≠ [] := List.append_ne_nil_of_left_ne_nil hp b
  have hextend : (Exec.mk parser HttpParser.noMarks []).extend b =
      ⟨parser, HttpParser.noMarks, []⟩ := rfl
  rw [hextend] at hleft ⊢
  have hrestart (n : Nat) : restart ret { parser with contentLength := n } b =
      loop ret b 0 ⟨{ parser with contentLength := n }, HttpParser.noMarks, []⟩ := by
    rw [restart, initialMarks_none hreads]
  unfold Straddles at h
  cases hs : parser.state with
  | bodyIdentityEof =>
    have hcut := hrestart parser.contentLength
    rw [loop_bodyIdentityEof ret parser hb hs] at hcut
    rw [loop_bodyIdentityEof ret parser hpb hs, loop_bodyIdentityEof ret parser hp hs,
      List.length_append]
    refine ⟨rfl, hlive, ?_, ?_, ?_⟩
    · rw [hcut]
      exact .inside [] .body p b.length [] le_rfl
    · rw [hcut]
    · rw [hcut]
  | bodyIdentity =>
    obtain ⟨m, hlen, hpos⟩ : ∃ m, parser.contentLength = p.length + m ∧ 0 < m :=
      ⟨parser.contentLength - p.length, by simp only [hs] at h; omega,
        by simp only [hs] at h; omega⟩
    have hcut := hrestart m
    rw [loop_part ret parser hp (.inl hs) (by omega), hlen, Nat.add_sub_cancel_left]
    by_cases hm : m ≤ b.length
    · rw [loop_bodyIdentity ret { parser with contentLength := m } hb hs hpos hm] at hcut
      rw [loop_bodyIdentity ret parser hpb hs (by omega) (by rw [List.length_append]; omega), hlen,
        List.drop_length_add_append] at hleft ⊢
      refine ⟨rfl, hlive, ?_, ?_, ?_⟩
      · rw [hcut]
        exact .inside [] .body p m _ hm
      · rw [hcut]
      · rw [hcut]
        exact hleft
    · rw [loop_part ret { parser with contentLength := m } hb (.inl hs)
        (Nat.lt_of_not_le hm)] at hcut
      rw [loop_part ret parser hpb (.inl hs) (by rw [List.length_append]; omega),
        List.length_append, hlen, Nat.add_sub_add_left]
      refine ⟨rfl, hlive, ?_, ?_, ?_⟩
      · rw [hcut]
        exact .inside [] .body p b.length [] le_rfl
      · rw [hcut]
      · rw [hcut]
  | chunkData =>
    obtain ⟨m, hlen, hpos⟩ : ∃ m, parser.contentLength = p.length + m ∧ 0 < m :=
      ⟨parser.contentLength - p.length, by simp only [hs] at h; omega,
        by simp only [hs] at h; omega⟩
    have hcut := hrestart m
    rw [loop_part ret parser hp (.inr hs) (by omega), hlen, Nat.add_sub_cancel_left]
    by_cases hm : m ≤ b.length
    · rw [loop_chunkData ret { parser with contentLength := m } hb hs hpos hm] at hcut
      rw [loop_chunkData ret parser hpb hs (by omega) (by rw [List.length_append]; omega), hlen,
        List.drop_length_add_append] at hleft ⊢
      obtain ⟨l, es, e, hl, hlong, hshort⟩ := loop_shift ret p b (b.drop m) (List.drop_suffix ..)
        { parser with contentLength := 0, state := .chunkDataAlmostDone } rfl hleft
      rw [hlong]
      refine ⟨rfl, hlive, ?_, ?_, ?_⟩
      · rw [hcut, hshort]
        exact .inside [] .body p l es hl
      · rw [hcut, hshort]
      · rw [hcut, hshort]
    · rw [loop_part ret { parser with contentLength := m } hb (.inr hs)
        (Nat.lt_of_not_le hm)] at hcut
      rw [loop_part ret parser hpb (.inr hs) (by rw [List.length_append]; omega),
        List.length_append, hlen, Nat.add_sub_add_left]
      refine ⟨rfl, hlive, ?_, ?_, ?_⟩
      · rw [hcut]
        exact .inside [] .body p b.length [] le_rfl
      · rw [hcut]
      · rw [hcut]
  | _ => simp [hs] at h

theorem Resumes.step {long short : Exec × Bytes} {es : List Event} (h : Resumes ret b long short) :
    Resumes ret b ({ long.1 with events := es.map (Event.extend b) ++ long.1.events }, long.2)
      ({ short.1 with events := es ++ short.1.events }, short.2) where
  left := h.left
  live := h.live
  cut := h.cut.append es
  parser := h.parser
  left_restart := h.left_restart

/-- A run over a buffer that goes on with `b` and is parsed to the end, and the same run
    interrupted before `b`. -/
theorem loop_append (hb : b ≠ []) (p : Bytes) (skip : Nat) (e : Exec) (hskip : skip ≤ p.length)
    (he : e.events = []) (hm : e.Marked (p.drop skip)) (hlive : e.parser.Live)
    (hleft : (loop ret (p ++ b) skip (e.extend b)).2 = [])
    (hup : (loop ret (p ++ b) skip (e.extend b)).1.parser.upgrade = false) :
    Resumes ret b (loop ret (p ++ b) skip (e.extend b)) (loop ret p skip e) := by
  induction p generalizing skip e with
  | nil =>
    obtain rfl : skip = 0 := Nat.le_zero.1 hskip
    exact resumes_nil he hm hlive hb hleft
  | cons ch rest ih =>
    cases skip with
    | succ skip => exact ih skip e (Nat.le_of_succ_le_succ hskip) he hm hlive hleft hup
    | zero =>
      by_cases hstraddles : e.Straddles (rest.length + 1)
      · exact resumes_straddles he hm hlive hstraddles (List.cons_ne_nil ch rest) hb hleft
      · have hdoes : Does ch rest (e.step ret ch rest) := does_step he hm hlive hstraddles
        have hextend : (e.extend b).step ret ch (rest ++ b) = extendResult b (e.step ret ch rest) :=
          step_extend hstraddles
        simp only [loop, List.cons_append] at hleft hup ⊢
        rw [hextend] at hleft hup ⊢
        generalize e.step ret ch rest = r at hdoes hleft hup ⊢
        obtain ⟨e', next⟩ := r
        cases next with
        | advance n =>
          simp only [extendResult_mk] at hleft hup ⊢
          exact (ih n { e' with events := [] } (hdoes.le n rfl) rfl (hdoes.marked n rfl)
            (hdoes.live n rfl) hleft hup).step
        | error => cases hleft
        | ret =>
          simp only [extendResult_mk, parser_extend] at hup
          exact absurd (hup.symm.trans (hdoes.ret rfl)) Bool.false_ne_true

/-! ### Where the events are -/

theorem Straddles.located (he : e.events = []) (hm : e.Marked p) (h : e.Straddles p.length)
    (hp : p ≠ []) : Located p (loop ret p 0 e).1.events := by
  obtain ⟨-, hmarks⟩ := h.noMarks hm
  obtain ⟨parser, marks, events⟩ := e
  obtain rfl : events = [] := he
  obtain rfl : marks = HttpParser.noMarks := hmarks
  have hat : ∀ ev ∈ [Event.data .body p p.length], ev.At p := fun ev hev =>
    List.mem_singleton.1 hev ▸ ⟨List.suffix_rfl, le_rfl⟩
  have hbody : Located p ([Event.data .body p p.length] ++ []) :=
    .append hat (.nil p) List.suffix_rfl
  unfold Straddles at h
  cases hs : parser.state with
  | bodyIdentityEof =>
    rw [loop_bodyIdentityEof ret parser hp hs]
    exact hbody
  | bodyIdentity =>
    rw [loop_part ret parser hp (.inl hs) (by simpa only [hs] using h)]
    exact hbody
  | chunkData =>
    rw [loop_part ret parser hp (.inr hs) (by simpa only [hs] using h)]
    exact hbody
  | _ => simp [hs] at h

theorem loop_located (p : Bytes) (skip : Nat) (e : Exec) (hskip : skip ≤ p.length)
    (he : e.events = []) (hm : e.Marked (p.drop skip)) (hlive : e.parser.Live) :
    Located p (loop ret p skip e).1.events := by
  induction p generalizing skip e with
  | nil =>
    obtain ⟨parser, marks, events⟩ := e
    obtain rfl : events = [] := he
    rw [List.drop_nil] at hm
    rcases hm with ⟨-, hm⟩ | ⟨k, ptr, -, hm, -⟩
    · obtain rfl : marks = noMarks := hm
      exact .nil []
    · obtain rfl : marks = only k ptr := hm
      rw [loop_nil_only]
      refine ⟨fun ev hev => ⟨[], List.suffix_rfl, ?_⟩, List.pairwise_singleton ..⟩
      rw [List.mem_singleton.1 hev]
      exact ⟨List.nil_suffix, le_rfl⟩
  | cons ch rest ih =>
    cases skip with
    | succ skip =>
      exact (ih skip e (Nat.le_of_succ_le_succ hskip) he hm hlive).mono (List.suffix_cons ch rest)
    | zero =>
      by_cases hstraddles : e.Straddles (rest.length + 1)
      · exact hstraddles.located he hm (List.cons_ne_nil ch rest)
      · have hdoes : Does ch rest (e.step ret ch rest) := does_step he hm hlive hstraddles
        simp only [loop]
        generalize e.step ret ch rest = r at hdoes ⊢
        obtain ⟨e', next⟩ := r
        cases next with
        | advance n =>
          exact .append hdoes.events (ih n { e' with events := [] } (hdoes.le n rfl) rfl
            (hdoes.marked n rfl) (hdoes.live n rfl)) (List.suffix_cons ch rest)
        | error => exact List.append_nil e'.events ▸ .append hdoes.events (.nil []) List.nil_suffix
        | ret => exact List.append_nil e'.events ▸ .append hdoes.events (.nil []) List.nil_suffix

theorem marked_initial (parser : HttpParser) (p : Bytes) :
    (Exec.mk parser (initialMarks parser.state p) []).Marked p := by
  cases hreads : parser.state.reads with
  | none => exact .inl ⟨hreads, initialMarks_none hreads p⟩
  | some k =>
    exact .inr ⟨k, p, State.holds_of_reads hreads, initialMarks_some hreads p, List.suffix_rfl⟩

end Exec

/-! ## `http_parser` carries on -/

variable {parser : HttpParser} {a b : Bytes}

/-- What an execution on the bytes that arrive is: a run over them. -/
theorem execute_of_ne_nil (ret : Nat) (hf : parser.failed = false) (ha : a ≠ []) :
    execute ret parser a = let r := Exec.restart ret parser a
      ⟨r.1.events, a.length - r.2.length, r.1.parser, r.1.parser.upgrade⟩ := by
  simp only [execute, hf, ha, Bool.false_eq_true, if_false]
  rfl

theorem accepts_execute (ret : Nat) (ha : a ≠ []) : (execute ret parser a).Accepts a ↔
    parser.failed = false ∧ (Exec.restart ret parser a).2 = [] ∧
      (Exec.restart ret parser a).1.parser.upgrade = false := by
  have hpos := List.length_pos_iff.2 ha
  cases hf : parser.failed with
  | true => simp [execute, hf, Execution.Accepts, hpos.ne]
  | false =>
    rw [execute_of_ne_nil ret hf ha]
    simp only [Execution.Accepts, true_and]
    refine and_congr_left fun _ => ⟨fun h => List.length_eq_zero_iff.1 ?_, fun h => ?_⟩
    · omega
    · rw [h]
      rfl

/-- A buffer that is parsed to the end may be parsed in two parts. -/
theorem execute_append (ret : Nat) (hup : parser.upgrade = false) (ha : a ≠ []) (hb : b ≠ [])
    (h : (execute ret parser (a ++ b)).Accepts (a ++ b)) :
    (execute ret parser a).Accepts a ∧ (execute ret parser a).next.Live ∧
      (execute ret (execute ret parser a).next b).Accepts b ∧
      (execute ret (execute ret parser a).next b).next = (execute ret parser (a ++ b)).next ∧
      Cut b (execute ret parser (a ++ b)).events (execute ret parser a).events
        (execute ret (execute ret parser a).next b).events := by
  have hab := List.append_ne_nil_of_left_ne_nil ha b
  obtain ⟨hf, hleft, hup'⟩ := (accepts_execute ret hab).1 h
  have hextend : (Exec.mk parser (initialMarks parser.state a) []).extend b =
      ⟨parser, initialMarks parser.state (a ++ b), []⟩ := by
    simp only [Exec.extend, List.map_nil]
    congr 1
    funext k
    cases k <;> simp only [initialMarks] <;> (try split) <;> rfl
  have hresumes : Exec.Resumes ret b (Exec.restart ret parser (a ++ b))
      (Exec.restart ret parser a) := by
    unfold Exec.restart at hleft hup' ⊢
    rw [← hextend] at hleft hup' ⊢
    exact Exec.loop_append hb a 0 _ (Nat.zero_le _) rfl (Exec.marked_initial parser a) ⟨hf, hup⟩
      hleft hup'
  have hnext := hresumes.live
  have hcut := hresumes.cut
  have hacc := (accepts_execute ret ha).2 ⟨hf, hresumes.left, hnext.2⟩
  rw [execute_of_ne_nil ret hf ha] at hacc ⊢
  rw [execute_of_ne_nil ret hf hab, accepts_execute ret hb, execute_of_ne_nil ret hnext.1 hb]
  exact ⟨hacc, hnext, ⟨hnext.1, hresumes.left_restart, hresumes.parser ▸ hup'⟩, hresumes.parser,
    hcut⟩

theorem execute_located (ret : Nat) (hup : parser.upgrade = false) (a : Bytes) :
    Located a (execute ret parser a).events := by
  cases hf : parser.failed with
  | true =>
    simp only [execute, hf, if_true]
    exact .nil a
  | false =>
    by_cases ha : a = []
    · simp only [execute, hf, ha, Bool.false_eq_true, if_false, if_true]
      split
      · exact ⟨fun ev hev => List.mem_singleton.1 hev ▸ ⟨[], List.suffix_rfl, trivial⟩,
          List.pairwise_singleton ..⟩
      · exact .nil []
      · exact .nil []
      · exact .nil []
    · rw [execute_of_ne_nil ret hf ha]
      exact Exec.loop_located a 0 _ (Nat.zero_le _) rfl (Exec.marked_initial parser a) ⟨hf, hup⟩

/-! ## Up to an upgrade -/

/-- `http_parser_execute`, which accepts nothing more after an upgrade. -/
def executeLive (parser : HttpParser) (data : Bytes) : Execution HttpParser :=
  if parser.upgrade = true then ⟨[], 0, parser, true⟩ else execute 0 parser data

theorem executeLive_eq (hup : parser.upgrade = false) (data : Bytes) :
    executeLive parser data = execute 0 parser data := if_neg (by simp [hup])

theorem executeLive_upgrade (hup : parser.upgrade = true) (data : Bytes) :
    executeLive parser data = ⟨[], 0, parser, true⟩ := if_pos hup

end HttpParser

open HttpParser in
/-- `http_parser` up to an upgrade, at which `cb_recv` exits the process. -/
def liveParser : Parser := ⟨HttpParser, HttpParser.init, executeLive⟩

open HttpParser in
theorem liveParser_carriesOn : liveParser.CarriesOn where
  split (parser : HttpParser) a b ha hb := by
    intro (h : (executeLive parser (a ++ b)).Accepts (a ++ b))
    cases hup : parser.upgrade with
    | true =>
      rw [executeLive_upgrade hup] at h
      exact absurd h.2.symm Bool.false_ne_true
    | false =>
      rw [executeLive_eq hup] at h
      obtain ⟨hacc, hnext, hacc', -, hcut⟩ := execute_append 0 hup ha hb h
      change (executeLive parser a).Accepts a ∧
        (executeLive (executeLive parser a).next b).Accepts b ∧
        Cut b (executeLive parser (a ++ b)).events (executeLive parser a).events
          (executeLive (executeLive parser a).next b).events
      rw [executeLive_eq hup, executeLive_eq hup, executeLive_eq hnext.2]
      exact ⟨hacc, hacc', hcut⟩
  bounded (parser : HttpParser) a e := by
    intro (he : e ∈ (executeLive parser a).events)
    cases hup : parser.upgrade with
    | true =>
      rw [executeLive_upgrade hup] at he
      cases he
    | false =>
      rw [executeLive_eq hup] at he
      obtain ⟨q, -, hat⟩ := (execute_located 0 hup a).at_ e he
      cases e with
      | data => exact hat.2
      | _ => trivial
  headers (parser : HttpParser) a es ptr statusCode keepAlive es' := by
    intro (hes : (executeLive parser a).events = _)
    cases hup : parser.upgrade with
    | true =>
      rw [executeLive_upgrade hup] at hes
      exact absurd hes.symm (by simp)
    | false =>
      rw [executeLive_eq hup] at hes
      have hlocated := execute_located 0 hup a
      rw [hes] at hlocated
      obtain ⟨q, -, rfl, hlf⟩ := hlocated.at_ (.headersComplete ptr statusCode keepAlive) (by simp)
      refine ⟨hlf, fun kind ptr' length hmem => ?_⟩
      exact (List.pairwise_append.1 hlocated.before).2.2 _ hmem _ List.mem_cons_self

/-! ## `Session:receive` -/

namespace HttpParser

theorem upgrade_execute (ret : Nat) (parser : HttpParser) (a : Bytes) :
    (execute ret parser a).upgrade = (execute ret parser a).next.upgrade := by
  unfold execute
  split
  · rfl
  · split
    · split <;> rfl
    · rfl

end HttpParser

/-- The watcher, the parser being `http_parser`. -/
def RecvWatcher.ofLive (w : RecvWatcher liveParser) : RecvWatcher httpParser :=
  ⟨w.coroutineId, w.parser, w.headersTableIndex⟩

/-- The parser has not come to an upgrade. -/
def RecvWatcher.Live (w : RecvWatcher liveParser) : Prop := HttpParser.upgrade w.parser = false

variable {doFetchBody : Bool} {gunzip : Bytes → Except LuaError Bytes}

theorem beforeCall_live {w : RecvWatcher liveParser} (hw : w.Live) (buffer : Bytes) (passed : Int) :
    Recv.beforeCall doFetchBody w.ofLive buffer passed =
      Recv.beforeCall doFetchBody w buffer passed := by
  have hexec : liveParser.execute w.parser buffer = HttpParser.execute 0 w.parser buffer :=
    HttpParser.executeLive_eq hw buffer
  simp only [Recv.beforeCall, hexec]
  rfl

/-- `cb_recv` exits at an upgrade. -/
theorem beforeCall_upgrade {P : Parser} {w : RecvWatcher P} {buffer : Bytes} {passed : Int}
    {r : Recv} (h : Recv.beforeCall doFetchBody w buffer passed = some r) :
    (P.execute w.parser buffer).upgrade = false := by
  simp only [Recv.beforeCall, Option.bind_eq_bind, Option.bind_eq_some_iff] at h
  obtain ⟨stack, -, r', -, h⟩ := h
  by_contra hup
  rw [if_pos (Bool.not_eq_false _ ▸ hup)] at h
  cases h

theorem cbRecv_live {w : RecvWatcher liveParser} (hw : w.Live) (read : Read) :
    cbRecv doFetchBody w.ofLive read =
        (cbRecv doFetchBody w read).map (fun r => (r.1.ofLive, r.2)) ∧
      ∀ r ∈ cbRecv doFetchBody w read, r.1.Live := by
  obtain ⟨id, parser, n⟩ := w
  cases read with
  | error strerror =>
    simp only [cbRecv, RecvWatcher.ofLive]
    cases callPlanResume 4 (.str strerror :: .bool false ::
      [.num id, .str "cb_recv", .fn "plan_resume"]) with
    | none => exact ⟨rfl, by simp⟩
    | some args => exact ⟨rfl, fun r hr => (Option.some.inj hr) ▸ hw⟩
  | closed => exact ⟨rfl, fun r hr => (Option.some.inj hr) ▸ hw⟩
  | got buffer passed =>
    have hexec : liveParser.execute parser buffer = HttpParser.execute 0 parser buffer :=
      HttpParser.executeLive_eq hw buffer
    rw [cbRecv_beforeCall, cbRecv_beforeCall, beforeCall_live hw]
    cases hcall : Recv.beforeCall doFetchBody (⟨id, parser, n⟩ : RecvWatcher liveParser) buffer
      passed with
    | none => exact ⟨rfl, by simp⟩
    | some r =>
      have hup := beforeCall_upgrade hcall
      simp only [hexec] at hup
      replace hup : (HttpParser.execute 0 parser buffer).next.upgrade = false :=
        (HttpParser.upgrade_execute 0 parser buffer).symm.trans hup
      simp only [hexec, RecvWatcher.ofLive, Option.bind_eq_bind, Option.bind_some, Option.pure_def]
      cases callPlanResume 3 r.stack with
      | none => exact ⟨rfl, by simp⟩
      | some args => exact ⟨rfl, fun r hr => (Option.some.inj hr) ▸ hup⟩

namespace Session

theorem receiveLoop_live {w : RecvWatcher liveParser} (hw : w.Live) (v : Receiving)
    (reads : List Read) :
    receiveLoop doFetchBody gunzip w.ofLive v reads = receiveLoop doFetchBody gunzip w v reads := by
  induction reads generalizing w v with
  | nil => rfl
  | cons read reads ih =>
    have hcb : cbRecv doFetchBody w.ofLive read = _ := (cbRecv_live hw read).1
    have hlive : ∀ r ∈ cbRecv doFetchBody w read, r.1.Live := (cbRecv_live hw read).2
    rw [receiveLoop, receiveLoop, hcb]
    cases hr : cbRecv doFetchBody w read with
    | none => rfl
    | some r =>
      simp only [Option.map_some]
      cases receiveStep doFetchBody gunzip v r.2 with
      | inl v' => exact ih (hlive r hr) v'
      | inr r' => rfl

/-- `receive` does not see what `http_parser` does after an upgrade. -/
theorem receive_live (id : Nat) (reads : List Read) :
    receive httpParser id doFetchBody gunzip reads =
      receive liveParser id doFetchBody gunzip reads :=
  receiveLoop_live (w := ⟨id, HttpParser.init, 0⟩) rfl .init reads

end Session

theorem readEvents_live {parser : HttpParser} (hup : parser.upgrade = false)
    {reads : List (Bytes × Int)} (hne : ∀ r ∈ reads, r.1 ≠ [])
    (hacc : (HttpParser.execute 0 parser (joined reads)).Accepts (joined reads)) :
    httpParser.readEvents parser reads = liveParser.readEvents parser reads := by
  induction reads generalizing parser with
  | nil => rfl
  | cons r rest ih =>
    obtain ⟨hr, hrest⟩ := List.forall_mem_cons.1 hne
    have hexec : liveParser.execute parser r.1 = HttpParser.execute 0 parser r.1 :=
      HttpParser.executeLive_eq hup r.1
    change (HttpParser.execute 0 parser r.1).events ::
        httpParser.readEvents (HttpParser.execute 0 parser r.1).next rest =
      (liveParser.execute parser r.1).events ::
        liveParser.readEvents (liveParser.execute parser r.1).next rest
    rw [hexec]
    refine congrArg _ ?_
    by_cases hnil : rest = []
    · rw [hnil]
      rfl
    · have hcons : joined (r :: rest) = r.1 ++ joined rest := by simp [joined]
      rw [hcons] at hacc
      obtain ⟨-, hnext, hacc', -⟩ :=
        HttpParser.execute_append 0 hup hr (joined_ne_nil hrest hnil) hacc
      exact ih hnext.2 hrest hacc'

/-! ## Any number of parts -/

/-- What is reported to the callbacks: a string, or something else. -/
inductive Report
  | string (kind : Kind) (b : Bytes)
  | notice (event : Event)
  deriving DecidableEq

/-- What an event reports, wherever it is in the buffer. -/
def Event.report : Event → Report
  | .data kind ptr length => .string kind (ptr.take length)
  | .headersComplete _ statusCode keepAlive => .notice (.headersComplete [] statusCode keepAlive)
  | e => .notice e

/-- A report before others. A string is continued by one of its kind. -/
def Report.before : Report → List Report → List Report
  | .string kind b, .string kind' b' :: rs =>
    if kind = kind' then .string kind (b ++ b') :: rs else .string kind b :: .string kind' b' :: rs
  | r, rs => r :: rs

/-- What the events report, the pieces of a string being joined. -/
def reports (es : List Event) : List Report := es.foldr (fun e => e.report.before) []

theorem reports_append (es es' : List Event) :
    reports (es ++ es') = es.foldr (fun e => e.report.before) (reports es') := List.foldr_append

theorem report_extend {e : Event} (he : e.Bounded) (b : Bytes) :
    (e.extend b).report = e.report := by
  cases e with
  | data kind ptr length =>
    exact congrArg (Report.string kind) (List.take_append_of_le_length he)
  | _ => rfl

theorem reports_extend {es : List Event} (hes : ∀ e ∈ es, e.Bounded) (b : Bytes)
    (es' : List Event) : reports (es.map (Event.extend b) ++ es') = reports (es ++ es') := by
  rw [reports_append, reports_append, List.foldr_map]
  exact List.foldr_ext _ _ _ fun e he _ => by rw [report_extend (hes e he)]

/-- A string in two pieces. -/
theorem Report.before_append (kind : Kind) (a b : Bytes) (rs : List Report) :
    Report.before (.string kind a) (Report.before (.string kind b) rs) =
      Report.before (.string kind (a ++ b)) rs := by
  cases rs with
  | nil => simp [Report.before]
  | cons r rs =>
    cases r with
    | notice e => simp [Report.before]
    | string kind' c =>
      by_cases h : kind = kind'
      · simp [Report.before, h]
      · simp [Report.before, h]

/-- The parts of a buffer are reported of together as the buffer is. -/
theorem Cut.reports {b : Bytes} {es es₁ es₂ : List Event} (h : Cut b es es₁ es₂)
    (hes : ∀ e ∈ es₁, e.Bounded) : reports (es₁ ++ es₂) = Mistress.reports es := by
  cases h with
  | between => exact (reports_extend hes b es₂).symm
  | inside es₁ kind ptr length es₂ hle =>
    obtain ⟨hes₁, -⟩ := List.forall_mem_append.1 hes
    have hpieces := Report.before_append kind (ptr.take ptr.length) (b.take length)
      (Mistress.reports es₂)
    rw [List.take_length, ← List.take_length_add_append] at hpieces
    have hlast : Mistress.reports ([.data kind ptr ptr.length] ++ .data kind b length :: es₂) =
        Mistress.reports (.data kind (ptr ++ b) (ptr.length + length) :: es₂) := by
      simpa [Mistress.reports, Event.report] using hpieces
    rw [reports_extend hes₁, List.append_assoc, reports_append, hlast, ← reports_append]

namespace HttpParser

/-- `http_parser_execute` on the parts of a stream, one after the other: the parser and all
    the events. -/
def feed (ret : Nat) (parser : HttpParser) : List Bytes → HttpParser × List Event
  | [] => (parser, [])
  | a :: parts =>
    let x := execute ret parser a
    let r := feed ret x.next parts
    (r.1, x.events ++ r.2)

/-- However a stream that is parsed to the end is cut, the parser comes to the same state, and
    it reports the same. -/
theorem feed_flatten (ret : Nat) {parser : HttpParser} (hup : parser.upgrade = false)
    {parts : List Bytes} (hne : ∀ a ∈ parts, a ≠ []) (hparts : parts ≠ [])
    (h : (execute ret parser parts.flatten).Accepts parts.flatten) :
    (feed ret parser parts).1 = (execute ret parser parts.flatten).next ∧
      reports (feed ret parser parts).2 = reports (execute ret parser parts.flatten).events := by
  induction parts generalizing parser with
  | nil => exact absurd rfl hparts
  | cons a parts ih =>
    obtain ⟨ha, hne⟩ := List.forall_mem_cons.1 hne
    by_cases hlast : parts = []
    · simp [hlast, feed]
    · have hrest : parts.flatten ≠ [] := by
        obtain ⟨b, rest, rfl⟩ := List.exists_cons_of_ne_nil hlast
        simp [hne b List.mem_cons_self]
      rw [List.flatten_cons] at h ⊢
      obtain ⟨-, hlive, hacc, hnext, hcut⟩ := execute_append ret hup ha hrest h
      obtain ⟨hparser, hreports⟩ := ih hlive.2 hne hlast hacc
      have hbounded : ∀ e ∈ (execute ret parser a).events, e.Bounded := by
        intro e he
        obtain ⟨q, -, hat⟩ := (execute_located ret hup a).at_ e he
        cases e with
        | data => exact hat.2
        | _ => trivial
      refine ⟨hparser.trans hnext, ?_⟩
      rw [← hcut.reports hbounded, reports_append, ← hreports, ← reports_append]
      rfl

/-- A response in three reads, the cuts being in the status line and in the name of the header. -/
def threeParts : List Bytes :=
  [bytes "HTTP/1.1 20", bytes "0 OK\r\nContent-Len", bytes "gth: 2\r\n\r\nhi"]

theorem feed_flatten_threeParts :
    (feed 0 HttpParser.init threeParts).1 = (execute 0 HttpParser.init threeParts.flatten).next ∧
      reports (feed 0 HttpParser.init threeParts).2 =
        reports (execute 0 HttpParser.init threeParts.flatten).events :=
  feed_flatten 0 rfl (by decide) (by decide) ⟨by decide +kernel, by decide +kernel⟩

end HttpParser

end Mistress
