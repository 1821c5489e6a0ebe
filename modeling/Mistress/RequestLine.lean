import Mistress.RequestParser
import Mistress.Response

/-!
# The request line

The parser for requests on the first line of a request: the method (`run_method`), the URL
(`run_url`), and the version (`run_version`).

The headers that follow are read as those of a response are, byte by byte
(`scanner_field`), so they are read alike (`run_field`).
-/

open LuaStack

namespace Mistress

namespace HttpParser.RequestExec

/-! ## The scanner -/

/-- The loop over the bytes as a scanner. -/
def scanner : Scan.Scanner (RequestParser × (Kind → Option Bytes)) UInt8 Event := fun s ch rest =>
  match step ⟨s.1.line, s.1.method, ⟨s.1.parser, s.2, []⟩⟩ ch rest with
  | (r, .advance n) => some ((⟨r.line, r.method, r.exec.parser⟩, r.exec.marks), r.exec.events, n)
  | _ => none

/-- The loop as a reader of a buffer. -/
def read (p : Bytes) (n : Nat) (s : RequestParser × (Kind → Option Bytes)) :
    List Event × RequestParser × (Kind → Option Bytes) × Bytes :=
  let r := loop p n ⟨s.1.line, s.1.method, ⟨s.1.parser, s.2, []⟩⟩
  (r.1.exec.events, ⟨r.1.line, r.1.method, r.1.exec.parser⟩, r.1.exec.marks, r.2)

theorem reader : Scan.Reader scanner read where
  skip _ _ _ _ := rfl
  advance {s ch rest s' es n} h := by
    unfold scanner at h
    split at h
    · rename_i r m heq
      obtain ⟨rfl, rfl, rfl⟩ := by simpa using h
      simp only [read, loop, heq]
    · cases h

variable {p p' : HttpParser} {m m' : Method} {l : LineState} {l' : Option LineState} {ch : UInt8}
  {rest : Bytes}

/-- A byte of the request line. -/
theorem scanner_line {marks marks' : Kind → Option Bytes} {es : List Event} {n : Nat}
    (hn : p.nread + 1 ≤ HTTP_MAX_HEADER_SIZE)
    (h : dispatchLine ⟨some l, m, ⟨{ p with nread := p.nread + 1 }, marks, []⟩⟩ l ch rest =
      (⟨l', m', ⟨p', marks', es⟩⟩, .advance n)) :
    scanner (⟨some l, m, p⟩, marks) ch rest = some ((⟨l', m', p'⟩, marks'), es, n) := by
  have hmax : ¬HTTP_MAX_HEADER_SIZE < p.nread + 1 := Nat.not_lt.2 hn
  simp only [scanner, step, parsingHeader, Option.isSome_some, Bool.true_or, if_true, if_neg hmax,
    dispatch, h]

/-! ## The method -/

/-- A byte of a method. -/
def methodByte (s : Method × Nat) (ch : UInt8) : Option (Method × Nat) :=
  if ch = s.1.text.getD s.2 0 then some (s.1, s.2 + 1)
  else (s.1.other s.2 ch).map fun m => (m, s.2 + 1)

theorem first_text (m : Method) : ∃ ch q m₀, m.text = ch :: q ∧ Method.first ch = some m₀ ∧
    isAlpha ch = true ∧ q.foldlM methodByte (m₀, 1) = some (m, m.text.length) := by
  cases m <;> exact ⟨_, _, _, rfl, rfl, by decide, by decide⟩

theorem text_line (m : Method) : ∀ ch ∈ m.text, ch ≠ 0 ∧ ch ≠ SP := by
  cases m <;> exact List.all_iff_forall_prop.1 (by decide)

theorem isAlpha_line {ch : UInt8} (h : isAlpha ch = true) : ¬(ch = CR ∨ ch = LF) := by
  rintro (rfl | rfl)
  · exact absurd h (by decide)
  · exact absurd h (by decide)

/-- The rest of a method. -/
theorem run_methodBytes (q : Bytes) (y : Bytes) {s s' : Method × Nat}
    (hq : ∀ ch ∈ q, ch ≠ 0 ∧ ch ≠ SP) (h : q.foldlM methodByte s = some s')
    (hn : p.nread + q.length ≤ HTTP_MAX_HEADER_SIZE) :
    Scan.Run scanner (⟨some .reqMethod, s.1, { p with index := s.2 }⟩, noMarks) q y []
      (⟨some .reqMethod, s'.1, { p with index := s'.2, nread := p.nread + q.length }⟩, noMarks) := by
  induction q generalizing s p with
  | nil =>
    obtain rfl : s = s' := Option.some.inj h
    exact .nil _ y
  | cons ch q ih =>
    obtain ⟨⟨hzero, hsp⟩, hq⟩ := List.forall_mem_cons.1 hq
    obtain ⟨s₁, hbyte, h⟩ := Option.bind_eq_some_iff.1 ((List.foldlM_cons ..).symm.trans h)
    rw [List.length_cons] at hn ⊢
    have hstep : scanner (⟨some .reqMethod, s.1, { p with index := s.2 }⟩, noMarks) ch (q ++ y) =
        some ((⟨some .reqMethod, s₁.1, { p with index := s₁.2, nread := p.nread + 1 }⟩, noMarks), [],
          0) := by
      refine scanner_line (by simp only; omega) ?_
      have hsp' : ¬(ch = SP ∧ s.1.text.getD s.2 0 = 0) := fun hand => hsp hand.1
      simp only [dispatchLine, reqMethod, if_neg hzero, if_neg hsp']
      unfold methodByte at hbyte
      split at hbyte
      · rename_i hch
        obtain rfl := Option.some.inj hbyte
        simp only [if_pos hch]
      · rename_i hch
        obtain ⟨m', hother, rfl⟩ := Option.map_eq_some_iff.1 hbyte
        simp only [if_neg hch, hother]
    have hrest := ih (p := { p with nread := p.nread + 1 }) hq h (by simp only; omega)
    have hrun := Scan.Run.head hstep hrest
    simpa [Nat.add_assoc, Nat.add_comm 1] using hrun

/-- A method, and the space after it. -/
theorem run_method (m m₀ : Method) (y : Bytes)
    (hn : p.nread + (m.text.length + 1) ≤ HTTP_MAX_HEADER_SIZE) :
    Scan.Run scanner (⟨some .startReq, m₀, p⟩, noMarks) (m.text ++ [SP]) y [.messageBegin]
      (⟨some (.url .reqSpacesBeforeUrl), m, { p with
        flags := .zero
        contentLength := ULLONG_MAX
        index := m.text.length + 1
        nread := p.nread + (m.text.length + 1) }⟩, noMarks) := by
  obtain ⟨ch, q, m₁, htext, hfirst, halpha, hfold⟩ := first_text m
  have hq : ∀ ch ∈ q, ch ≠ 0 ∧ ch ≠ SP := fun c hc =>
    text_line m c (by rw [htext]; exact List.mem_cons_of_mem _ hc)
  have hlen : m.text.length = q.length + 1 := by rw [htext, List.length_cons]
  let p₁ : HttpParser := { p with flags := .zero, contentLength := ULLONG_MAX, nread := p.nread + 1 }
  have hbegin : scanner (⟨some .startReq, m₀, p⟩, noMarks) ch (q ++ SP :: y) =
      some ((⟨some .reqMethod, m₁, { p₁ with index := 1 }⟩, noMarks), [.messageBegin], 0) := by
    refine scanner_line (by omega) ?_
    simp only [dispatchLine, startReq, if_neg (isAlpha_line halpha), halpha, hfirst, Bool.not_true,
      Bool.false_eq_true, if_false]
    rfl
  have hrest := run_methodBytes (p := p₁) q (SP :: y) hq hfold (by simp only [p₁]; omega)
  have hend : scanner (⟨some .reqMethod, m, { p₁ with
      index := m.text.length, nread := p₁.nread + q.length }⟩, noMarks) SP y =
      some ((⟨some (.url .reqSpacesBeforeUrl), m, { p₁ with
        index := m.text.length + 1, nread := p₁.nread + q.length + 1 }⟩, noMarks), [], 0) := by
    refine scanner_line (by simp only [p₁]; omega) ?_
    have hget : m.text.getD m.text.length 0 = 0 := by simp
    have hzero : SP ≠ 0 := by decide
    simp only [dispatchLine, reqMethod, if_neg hzero, hget, and_self, if_true, goto]
  have hrun := (Scan.Run.head hbegin hrest).concat hend
  have hnread : p₁.nread + q.length + 1 = p.nread + (m.text.length + 1) := by
    simp only [p₁]
    omega
  rw [hnread, ← htext] at hrun
  exact hrun

/-! ## The URL -/

end HttpParser.RequestExec

/-- A URL may end in that state. -/
def HttpParser.UrlState.ends : UrlState → Bool
  | .reqSpacesBeforeUrl | .reqSchema | .reqSchemaSlash | .reqSchemaSlashSlash | .reqServerStart => false
  | _ => true

/-- What the parser takes for a URL. -/
def HttpParser.isUrl (url : Bytes) : Bool :=
  (url.foldlM parseUrlChar .reqSpacesBeforeUrl).any UrlState.ends

namespace HttpParser.RequestExec

variable {s s' : UrlState}

theorem parseUrlChar_line (h : parseUrlChar s ch = some s') : ¬(ch = SP ∨ ch = CR ∨ ch = LF) := by
  intro hch
  unfold parseUrlChar at h
  dsimp only at h
  rw [if_pos hch] at h
  cases h

theorem parseUrlChar_ne (h : parseUrlChar s ch = some s') : s' ≠ .reqSpacesBeforeUrl := by
  rintro rfl
  revert h
  unfold parseUrlChar
  cases s <;> dsimp only <;> split_ifs <;> simp

/-- A byte of a URL, but for the first. -/
theorem url_byte (r : RequestExec) (hs : s ≠ .reqSpacesBeforeUrl) (h : parseUrlChar s ch = some s')
    (rest : Bytes) : r.url s ch rest = (r.goto (.url s'), .advance 0) := by
  have hline := parseUrlChar_line h
  obtain ⟨hsp, hcr⟩ := not_or.1 hline
  cases s with
  | reqSpacesBeforeUrl => exact absurd rfl hs
  | reqSchema | reqSchemaSlash | reqSchemaSlashSlash | reqServerStart =>
    simp only [url, if_neg hline, urlChar, h]
  | _ => simp only [url, if_neg hsp, if_neg hcr, urlChar, h]

/-- The rest of a URL. -/
theorem run_urlBytes (q y ptr : Bytes) (hs : s ≠ .reqSpacesBeforeUrl)
    (h : q.foldlM parseUrlChar s = some s') (hn : p.nread + q.length ≤ HTTP_MAX_HEADER_SIZE) :
    Scan.Run scanner (⟨some (.url s), m, p⟩, only .url ptr) q y []
      (⟨some (.url s'), m, { p with nread := p.nread + q.length }⟩, only .url ptr) := by
  induction q generalizing s p with
  | nil =>
    obtain rfl : s = s' := Option.some.inj h
    exact .nil _ y
  | cons ch q ih =>
    obtain ⟨s₁, hbyte, h⟩ := Option.bind_eq_some_iff.1 ((List.foldlM_cons ..).symm.trans h)
    rw [List.length_cons] at hn ⊢
    have hstep : scanner (⟨some (.url s), m, p⟩, only .url ptr) ch (q ++ y) =
        some ((⟨some (.url s₁), m, { p with nread := p.nread + 1 }⟩, only .url ptr), [], 0) := by
      refine scanner_line (by omega) ?_
      rw [dispatchLine, url_byte _ hs hbyte]
      rfl
    have hrun := Scan.Run.head hstep
      (ih (p := { p with nread := p.nread + 1 }) (parseUrlChar_ne hbyte) h (by simp only; omega))
    simpa [Nat.add_assoc, Nat.add_comm 1] using hrun

/-- A URL, and the space after it. -/
theorem run_url {u : Bytes} (hu : isUrl u = true) (hm : m ≠ .connect) (y : Bytes)
    (hn : p.nread + (u.length + 1) ≤ HTTP_MAX_HEADER_SIZE) :
    Scan.Run scanner (⟨some (.url .reqSpacesBeforeUrl), m, p⟩, noMarks) (u ++ [SP]) y
      [.data .url (u ++ SP :: y) u.length]
      (⟨some .reqHttpStart, m, { p with nread := p.nread + (u.length + 1) }⟩, noMarks) := by
  obtain ⟨s', hfold, hends⟩ : ∃ s', u.foldlM parseUrlChar .reqSpacesBeforeUrl = some s' ∧
      s'.ends = true := by
    unfold isUrl at hu
    cases hfold : u.foldlM parseUrlChar .reqSpacesBeforeUrl with
    | none =>
      rw [hfold] at hu
      cases hu
    | some s' =>
      rw [hfold] at hu
      exact ⟨s', rfl, hu⟩
  cases u with
  | nil =>
    obtain rfl := Option.some.inj hfold
    cases hends
  | cons ch q =>
    obtain ⟨s₁, hbyte, hfold⟩ := Option.bind_eq_some_iff.1 ((List.foldlM_cons ..).symm.trans hfold)
    rw [List.length_cons] at hn ⊢
    let ptr : Bytes := ch :: (q ++ SP :: y)
    have hsp : ch ≠ SP := fun h => parseUrlChar_line hbyte (.inl h)
    have hfirst : scanner (⟨some (.url .reqSpacesBeforeUrl), m, p⟩, noMarks) ch (q ++ SP :: y) =
        some ((⟨some (.url s₁), m, { p with nread := p.nread + 1 }⟩, only .url ptr), [], 0) := by
      refine scanner_line (by omega) ?_
      simp only [dispatchLine, url, if_neg hsp, if_neg hm, Exec.mark_noMarks, urlChar, hbyte]
      rfl
    have hrest := run_urlBytes (m := m) (p := { p with nread := p.nread + 1 }) q (SP :: y) ptr
      (parseUrlChar_ne hbyte) hfold (by simp only; omega)
    have hend : scanner (⟨some (.url s'), m, { p with nread := p.nread + 1 + q.length }⟩,
        only .url ptr) SP y = some ((⟨some .reqHttpStart, m, { p with
          nread := p.nread + 1 + q.length + 1 }⟩, noMarks), [.data .url ptr (q.length + 1)], 0) := by
      refine scanner_line (by simp only; omega) ?_
      have hlen : ptr.length - (SP :: y).length = q.length + 1 := by
        simp [ptr]
        omega
      rw [dispatchLine, url]
      · simp only [if_true, goto, Exec.callbackData_only, hlen, List.nil_append]
      all_goals
        rintro rfl
        cases hends
    have hrun := (Scan.Run.head hfirst hrest).concat hend
    simpa [ptr, Nat.add_assoc, Nat.add_comm 1, Nat.add_left_comm 1] using hrun

/-! ## The version -/

theorem digit_pos {d : Fin 10} (hd : d ≠ 0) : ¬(digit d < byte '1' ∨ byte '9' < digit d) := by
  revert hd
  revert d
  decide

/-- A version, and the end of the line. -/
theorem run_version {major : Fin 10} (hmajor : major ≠ 0) (minor : Fin 10) (y : Bytes)
    (hn : p.nread + 10 ≤ HTTP_MAX_HEADER_SIZE) :
    Scan.Run scanner (⟨some .reqHttpStart, m, p⟩, noMarks)
      [byte 'H', byte 'T', byte 'T', byte 'P', byte '/', digit major, byte '.', digit minor, CR, LF] y
      [] (⟨none, m, { p with
        state := .headerFieldStart, httpMajor := major, httpMinor := minor, nread := p.nread + 10 }⟩,
        noMarks) := by
  have hstart (rest : Bytes) : scanner (⟨some .reqHttpStart, m, p⟩, noMarks) (byte 'H') rest =
      some ((⟨some .reqHttpH, m, { p with nread := p.nread + 1 }⟩, noMarks), [], 0) :=
    scanner_line (by omega) rfl
  have hconst (l l' : LineState) (c : UInt8) (n : Nat) (hn : p.nread + n + 1 ≤ HTTP_MAX_HEADER_SIZE)
      (h : ∀ (r : RequestExec) rest, r.dispatchLine l c rest = r.expect c l' c) (rest : Bytes) :
      scanner (⟨some l, m, { p with nread := p.nread + n }⟩, noMarks) c rest =
        some ((⟨some l', m, { p with nread := p.nread + (n + 1) }⟩, noMarks), [], 0) := by
    refine scanner_line (by simp only; omega) ?_
    rw [h]
    simp only [expect, ne_eq, not_true_eq_false, if_false]
    rfl
  have hT := hconst .reqHttpH .reqHttpHT (byte 'T') 1 (by omega) fun _ _ => rfl
  have hTT := hconst .reqHttpHT .reqHttpHTT (byte 'T') 2 (by omega) fun _ _ => rfl
  have hP := hconst .reqHttpHTT .reqHttpHTTP (byte 'P') 3 (by omega) fun _ _ => rfl
  have hslash := hconst .reqHttpHTTP .reqFirstHttpMajor (byte '/') 4 (by omega) fun _ _ => rfl
  have hfirst (rest : Bytes) : scanner (⟨some .reqFirstHttpMajor, m, { p with
      nread := p.nread + 5 }⟩, noMarks) (digit major) rest =
      some ((⟨some .reqHttpMajor, m, { p with httpMajor := major, nread := p.nread + 6 }⟩, noMarks), [],
        0) := by
    refine scanner_line (by simp only; omega) ?_
    simp only [dispatchLine, reqFirstHttpMajor, if_neg (digit_pos hmajor), Exec.toNat_digit]
    rfl
  have hdot (rest : Bytes) : scanner (⟨some .reqHttpMajor, m, { p with
      httpMajor := major, nread := p.nread + 6 }⟩, noMarks) (byte '.') rest =
      some ((⟨some .reqFirstHttpMinor, m, { p with httpMajor := major, nread := p.nread + 7 }⟩,
        noMarks), [], 0) :=
    scanner_line (by simp only; omega) rfl
  have hsecond (rest : Bytes) : scanner (⟨some .reqFirstHttpMinor, m, { p with
      httpMajor := major, nread := p.nread + 7 }⟩, noMarks) (digit minor) rest =
      some ((⟨some .reqHttpMinor, m, { p with
        httpMajor := major, httpMinor := minor, nread := p.nread + 8 }⟩, noMarks), [], 0) := by
    refine scanner_line (by simp only; omega) ?_
    simp only [dispatchLine, reqFirstHttpMinor, Exec.isNum_digit, Exec.toNat_digit, Bool.not_true,
      Bool.false_eq_true, if_false]
    rfl
  have hcr (rest : Bytes) : scanner (⟨some .reqHttpMinor, m, { p with
      httpMajor := major, httpMinor := minor, nread := p.nread + 8 }⟩, noMarks) CR rest =
      some ((⟨some .reqLineAlmostDone, m, { p with
        httpMajor := major, httpMinor := minor, nread := p.nread + 9 }⟩, noMarks), [], 0) :=
    scanner_line (by simp only; omega) rfl
  have hlf (rest : Bytes) : scanner (⟨some .reqLineAlmostDone, m, { p with
      httpMajor := major, httpMinor := minor, nread := p.nread + 9 }⟩, noMarks) LF rest =
      some ((⟨none, m, { p with
        state := .headerFieldStart, httpMajor := major, httpMinor := minor, nread := p.nread + 10 }⟩,
        noMarks), [], 0) :=
    scanner_line (by simp only; omega) rfl
  exact .head (hstart _) <| .head (hT _) <| .head (hTT _) <| .head (hP _) <| .head (hslash _) <|
    .head (hfirst _) <| .head (hdot _) <| .head (hsecond _) <| .head (hcr _) <| .head (hlf _) <|
    .nil _ y

/-! ## The headers -/

/-- The states in which the bytes of a header are read, whatever the message; in some of them,
    bytes that begin a line, but do not end the headers. -/
def inField (s : State) (ch : UInt8) : Bool :=
  match s with
  | .headerField | .headerValueDiscardWs | .headerValueDiscardWsAlmostDone | .headerValue
  | .headerAlmostDone => true
  | .headerFieldStart | .headerValueDiscardLws | .headerValueLws => ch ≠ LF
  | _ => false

/-- A byte of a header. -/
def fieldStep (e : Exec) (ch : UInt8) (rest : Bytes) : Exec × Next :=
  if inField e.parser.state ch then e.step 0 ch rest else e.fail

theorem readsHeaders_fieldStep : Exec.ReadsHeaders fieldStep := by
  have h := Exec.readsHeaders_step 0
  have hfield {e : Exec} {ch : UInt8} (hin : inField e.parser.state ch = true) (rest : Bytes) :
      fieldStep e ch rest = e.step 0 ch rest := if_pos hin
  exact
    { start := fun e ch rest hs hch => (hfield (by simp [hs, inField, hch]) rest).trans
        (h.start e ch rest hs hch)
      field := fun e ch rest hs => (hfield (by simp [hs, inField]) rest).trans (h.field e ch rest hs)
      discardWs := fun e ch rest hs => (hfield (by simp [hs, inField]) rest).trans
        (h.discardWs e ch rest hs)
      discardWsAlmostDone := fun e ch rest hs => (hfield (by simp [hs, inField]) rest).trans
        (h.discardWsAlmostDone e ch rest hs)
      discardLws := fun e ch rest hs hch => (hfield (by simp [hs, inField, hch.2]) rest).trans
        (h.discardLws e ch rest hs hch)
      value := fun e ch rest hs => (hfield (by simp [hs, inField]) rest).trans (h.value e ch rest hs)
      almostDone := fun e ch rest hs => (hfield (by simp [hs, inField]) rest).trans
        (h.almostDone e ch rest hs)
      lws := fun e ch rest hs hch => (hfield (by simp [hs, inField, hch.2]) rest).trans
        (h.lws e ch rest hs hch) }

theorem headerFieldStart_lift (r : RequestExec) (hch : ch ≠ LF) (rest : Bytes) :
    r.headerFieldStart ch rest = r.lift fun e => e.headerFieldStart 0 ch rest := if_neg hch

/-- A byte of a header in a request is what it is in a response. -/
theorem dispatch_field {e : Exec} (hin : inField e.parser.state ch = true) (m : Method) (rest : Bytes) :
    dispatch ⟨none, m, e⟩ ch rest = lift ⟨none, m, e⟩ fun e => e.dispatch 0 ch rest := by
  have hlf (h : decide (ch ≠ LF) = true) : ch ≠ LF := by simpa using h
  change dispatchRest _ _ _ = _
  unfold dispatchRest Exec.dispatch
  cases hs : e.parser.state with
  | headerFieldStart =>
    rw [hs] at hin
    simp only [headerFieldStart_lift _ (hlf hin), lift, hs]
  | headerValueDiscardLws =>
    rw [hs] at hin
    simp only [headerValueDiscardLws, Exec.headerValueDiscardLws, lift, hs]
    split
    · rfl
    · rw [headerFieldStart_lift _ (hlf hin)]
      rfl
  | headerValueLws =>
    rw [hs] at hin
    simp only [headerValueLws, Exec.headerValueLws, lift, hs]
    split
    · rfl
    · rw [headerFieldStart_lift _ (hlf hin)]
      rfl
  | headersAlmostDone | headersDone | bodyIdentity | messageDone =>
    rw [hs] at hin
    cases hin
  | _ => simp only [lift, hs]

theorem parsingHeader_of_inField {s : State} (h : inField s ch = true) : s.parsingHeader = true := by
  cases s <;> first | rfl | cases h

/-- A byte of a header in a request. -/
theorem scanner_field {s s' : HttpParser × (Kind → Option Bytes)} {es : List Event} {n : Nat}
    (h : Exec.scanner fieldStep s ch rest = some (s', es, n)) (m : Method) :
    scanner (⟨none, m, s.1⟩, s.2) ch rest = some ((⟨none, m, s'.1⟩, s'.2), es, n) := by
  obtain ⟨p, marks⟩ := s
  unfold Exec.scanner fieldStep at h
  cases hin : inField p.state ch with
  | false =>
    simp only [hin, Bool.false_eq_true, if_false, Exec.fail] at h
    cases h
  | true =>
    have hheader := parsingHeader_of_inField hin
    simp only [hin, if_true, Exec.step, hheader] at h
    simp only [scanner, step, parsingHeader, Option.isSome_none, Bool.false_or, hheader, if_true]
    split at h
    · rename_i e n' heq
      split at heq
      · cases heq
      · rename_i hmax
        have hin' : inField (Exec.mk { p with nread := p.nread + 1 } marks []).parser.state ch = true :=
          hin
        obtain ⟨rfl, rfl, rfl⟩ := by simpa using h
        rw [if_neg hmax, dispatch_field hin', lift, heq]
    · cases h

/-- The bytes of headers in a request. -/
theorem run_field {s s' : HttpParser × (Kind → Option Bytes)} {x y : Bytes} {es : List Event}
    (h : Scan.Run (Exec.scanner fieldStep) s x y es s') (m : Method) :
    Scan.Run scanner (⟨none, m, s.1⟩, s.2) x y es (⟨none, m, s'.1⟩, s'.2) := by
  have hrun := h.map (fun s => ((⟨none, m, s.1⟩ : RequestParser), s.2)) id []
    fun hstep => by simpa using scanner_field hstep m
  simpa using hrun

end HttpParser.RequestExec

end Mistress
