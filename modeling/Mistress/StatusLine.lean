import Mistress.FieldRun

/-!
# The status line

`http_parser` on the first line of a response (`run_statusLine`): the version, a status
of three digits, and the reason, which is reported unless it is empty.
-/

open LuaStack


namespace Mistress

open HttpParser

/-- A digit. -/
def digit (d : Fin 10) : UInt8 := 48 + UInt8.ofNat d

/-- The first line of a response. -/
structure StatusLine where
  major : Fin 10
  minor : Fin 10
  d₁ : Fin 10
  d₂ : Fin 10
  d₃ : Fin 10
  reason : Bytes
  reason_line : ∀ ch ∈ reason, ch ≠ CR ∧ ch ≠ LF

namespace StatusLine

/-- The line up to the reason. -/
def front (l : StatusLine) : Bytes :=
  [byte 'H', byte 'T', byte 'T', byte 'P', byte '/', digit l.major, byte '.', digit l.minor, SP,
    digit l.d₁, digit l.d₂, digit l.d₃, SP]

/-- The line, with its end. -/
def text (l : StatusLine) : Bytes := l.front ++ (l.reason ++ [CR, LF])

def statusCode (l : StatusLine) : Nat := (l.d₁ * 10 + l.d₂) * 10 + l.d₃

/-- The events of the line, which `y` follows. -/
def events (l : StatusLine) (y : Bytes) : List Event :=
  if l.reason = [] then [] else [.data .status (l.reason ++ CR :: LF :: y) l.reason.length]

/-- The parser after the line. -/
def parsed (l : StatusLine) : HttpParser :=
  { HttpParser.init with
    state := .headerFieldStart
    contentLength := ULLONG_MAX
    httpMajor := l.major
    httpMinor := l.minor
    statusCode := l.statusCode
    nread := l.text.length }

end StatusLine

namespace HttpParser.Exec

variable {ret : Nat} {p p' : HttpParser} {ch : UInt8} {rest : Bytes}

theorem scanner_header {marks marks' : Kind → Option Bytes} {es : List Event} {n : Nat}
    (hs : p.state.parsingHeader = true) (hn : p.nread + 1 ≤ HTTP_MAX_HEADER_SIZE)
    (h : dispatch ret ⟨{ p with nread := p.nread + 1 }, marks, []⟩ ch rest =
      (⟨p', marks', es⟩, .advance n)) :
    scanner (step ret) (p, marks) ch rest = some ((p', marks'), es, n) := by
  refine scanner_limited (f := fun e => e.dispatch ret ch rest) ?_ hn h
  simp only [step, hs, if_true, limited]

theorem isNum_digit (d : Fin 10) : isNum (digit d) = true := by
  revert d
  decide

theorem toNat_digit (d : Fin 10) : (digit d).toNat - 48 = d := by
  revert d
  decide

/-- A status line, up to the reason. -/
theorem run_front (ret : Nat) (l : StatusLine) (y : Bytes) :
    Scan.Run (scanner (step ret)) (HttpParser.init, noMarks) l.front y [.messageBegin]
      ({ l.parsed with state := .resStatusStart, nread := 13 }, noMarks) := by
  have hmax (n : Nat) (h : n ≤ 13) : n ≤ HTTP_MAX_HEADER_SIZE := h.trans (by decide)
  let p₀ : HttpParser := { HttpParser.init with contentLength := ULLONG_MAX }
  let p₁ : HttpParser := { p₀ with httpMajor := l.major }
  let p₂ : HttpParser := { p₁ with httpMinor := l.minor }
  have hbegin (rest : Bytes) : scanner (step ret) (HttpParser.init, noMarks) (byte 'H') rest =
      some (({ p₀ with state := .resH, nread := 1 }, noMarks), [.messageBegin], 0) :=
    scanner_header rfl (by decide) rfl
  have hconst (s s' : HttpParser.State) (c : UInt8) (n : Nat) (hs : s.parsingHeader = true)
      (hn : n + 1 ≤ HTTP_MAX_HEADER_SIZE)
      (h : ∀ (e : Exec) rest, e.parser.state = s → e.dispatch ret c rest = e.expect c s' c)
      (rest : Bytes) : scanner (step ret) ({ p₀ with state := s, nread := n }, noMarks) c rest =
        some (({ p₀ with state := s', nread := n + 1 }, noMarks), [], 0) := by
    refine scanner_header hs hn ?_
    rw [h _ _ rfl]
    simp only [expect, ne_eq, not_true_eq_false, if_false, goto]
  have hT := hconst .resH .resHT (byte 'T') 1 rfl (by decide)
    fun e rest he => by simp only [dispatch, he]
  have hTT := hconst .resHT .resHTT (byte 'T') 2 rfl (by decide)
    fun e rest he => by simp only [dispatch, he]
  have hP := hconst .resHTT .resHTTP (byte 'P') 3 rfl (by decide)
    fun e rest he => by simp only [dispatch, he]
  have hslash := hconst .resHTTP .resFirstHttpMajor (byte '/') 4 rfl (by decide)
    fun e rest he => by simp only [dispatch, he]
  have hmajor (rest : Bytes) : scanner (step ret) ({ p₀ with
      state := .resFirstHttpMajor, nread := 5 }, noMarks) (digit l.major) rest =
      some (({ p₁ with state := .resHttpMajor, nread := 6 }, noMarks), [], 0) := by
    refine scanner_header rfl (hmax 6 (by decide)) ?_
    simp only [dispatch, resFirstHttpMajor, isNum_digit, toNat_digit, if_true]
    rfl
  have hdot (rest : Bytes) : scanner (step ret) ({ p₁ with
      state := .resHttpMajor, nread := 6 }, noMarks) (byte '.') rest =
      some (({ p₁ with state := .resFirstHttpMinor, nread := 7 }, noMarks), [], 0) :=
    scanner_header rfl (hmax 7 (by decide)) rfl
  have hminor (rest : Bytes) : scanner (step ret) ({ p₁ with
      state := .resFirstHttpMinor, nread := 7 }, noMarks) (digit l.minor) rest =
      some (({ p₂ with state := .resHttpMinor, nread := 8 }, noMarks), [], 0) := by
    refine scanner_header rfl (hmax 8 (by decide)) ?_
    simp only [dispatch, resFirstHttpMinor, isNum_digit, toNat_digit, if_true]
    rfl
  have hsp (rest : Bytes) : scanner (step ret) ({ p₂ with
      state := .resHttpMinor, nread := 8 }, noMarks) SP rest =
      some (({ p₂ with state := .resFirstStatusCode, nread := 9 }, noMarks), [], 0) :=
    scanner_header rfl (hmax 9 (by decide)) rfl
  have hd₁ (rest : Bytes) : scanner (step ret) ({ p₂ with
      state := .resFirstStatusCode, nread := 9 }, noMarks) (digit l.d₁) rest =
      some (({ p₂ with state := .resStatusCode, nread := 10, statusCode := l.d₁ }, noMarks), [], 0) := by
    refine scanner_header rfl (hmax 10 (by decide)) ?_
    simp only [dispatch, resFirstStatusCode, isNum_digit, toNat_digit, if_true]
  have hcode (n m : Nat) (d : Fin 10) (hm : m * 10 + d ≤ 999) (hn : n + 1 ≤ HTTP_MAX_HEADER_SIZE)
      (rest : Bytes) : scanner (step ret) ({ p₂ with
      state := .resStatusCode, nread := n, statusCode := m }, noMarks) (digit d) rest =
      some (({ p₂ with state := .resStatusCode, nread := n + 1, statusCode := m * 10 + d }, noMarks),
        [], 0) := by
    refine scanner_header rfl hn ?_
    simp only [dispatch, resStatusCode, isNum_digit, toNat_digit, if_true, if_neg (Nat.not_lt.2 hm)]
  have hend (rest : Bytes) : scanner (step ret) ({ p₂ with
      state := .resStatusCode, nread := 12, statusCode := l.statusCode }, noMarks) SP rest =
      some (({ p₂ with state := .resStatusStart, nread := 13, statusCode := l.statusCode }, noMarks),
        [], 0) :=
    scanner_header rfl (hmax 13 (by decide)) rfl
  have h₁ := l.d₁.isLt
  have h₂ := l.d₂.isLt
  have h₃ := l.d₃.isLt
  exact .head (hbegin _) <| .head (hT _) <| .head (hTT _) <| .head (hP _) <| .head (hslash _) <|
    .head (hmajor _) <| .head (hdot _) <| .head (hminor _) <| .head (hsp _) <| .head (hd₁ _) <|
    .head (hcode 10 l.d₁ l.d₂ (by omega) (by decide) _) <|
    .head (hcode 11 (l.d₁ * 10 + l.d₂) l.d₃ (by omega) (by decide) _) <| .head (hend _) <| .nil _ y

/-- The end of the status line. -/
theorem run_lineEnd {p : HttpParser} (hs : p.state = .resLineAlmostDone)
    (hn : p.nread + 1 ≤ HTTP_MAX_HEADER_SIZE) (y : Bytes) :
    scanner (step ret) (p, noMarks) LF y =
      some (({ p with state := .headerFieldStart, nread := p.nread + 1 }, noMarks), [], 0) := by
  refine scanner_header (by rw [hs]; rfl) hn ?_
  simp only [dispatch, hs, expect, ne_eq, not_true_eq_false, if_false, goto]

/-- A reason, with the end of the line. -/
theorem run_reason (ret : Nat) (reason : Bytes) (hreason : ∀ ch ∈ reason, ch ≠ CR ∧ ch ≠ LF)
    {p : HttpParser} (hs : p.state = .resStatusStart) (hindex : p.index = 0)
    (hn : p.nread + (reason.length + 2) ≤ HTTP_MAX_HEADER_SIZE) (y : Bytes) :
    Scan.Run (scanner (step ret)) (p, noMarks) (reason ++ [CR, LF]) y
      (if reason = [] then [] else [.data .status (reason ++ CR :: LF :: y) reason.length])
      ({ p with state := .headerFieldStart, nread := p.nread + (reason.length + 2) }, noMarks) := by
  cases reason with
  | nil =>
    have hcr : scanner (step ret) (p, noMarks) CR (LF :: y) =
        some (({ p with state := .resLineAlmostDone, nread := p.nread + 1 }, noMarks), [], 0) := by
      refine scanner_header (by rw [hs]; rfl) (by omega) ?_
      simp only [dispatch, hs, resStatusStart, if_true, goto]
    exact .head hcr (.single (run_lineEnd rfl hn y))
  | cons ch q =>
    obtain ⟨⟨hcr, hlf⟩, hq⟩ := List.forall_mem_cons.1 hreason
    rw [List.length_cons] at hn
    let ptr : Bytes := ch :: (q ++ CR :: LF :: y)
    have hfirst : scanner (step ret) (p, noMarks) ch (q ++ CR :: LF :: y) =
        some (({ p with state := .resStatus, nread := p.nread + 1 }, only .status ptr), [], 0) := by
      refine scanner_header (by rw [hs]; rfl) (by omega) ?_
      simp only [dispatch, hs, resStatusStart, if_neg hcr, if_neg hlf, mark_noMarks]
      rw [← hindex]
    have hrest : Scan.Run (scanner (step ret)) ({ p with
        state := .resStatus, nread := p.nread + 1 }, only .status ptr) q (CR :: LF :: y) []
        ({ p with state := .resStatus, nread := p.nread + 1 + q.length }, only .status ptr) := by
      refine Scan.Run.each (fun v => ({ p with
        state := .resStatus, nread := p.nread + 1 + v.length }, only .status ptr)) q _ ?_
      rintro v b q' rfl
      obtain ⟨hcr', hlf'⟩ := hq b (by simp)
      rw [List.length_append, List.length_cons] at hn
      refine scanner_header rfl (by simp only; omega) ?_
      simp only [dispatch, resStatus, if_neg hcr', if_neg hlf', List.length_append,
        List.length_singleton]
      rfl
    have hend : scanner (step ret) ({ p with
        state := .resStatus, nread := p.nread + 1 + q.length }, only .status ptr) CR (LF :: y) =
        some (({ p with
          state := .resLineAlmostDone, nread := p.nread + 1 + q.length + 1 }, noMarks),
          [.data .status ptr (q.length + 1)], 0) := by
      refine scanner_header rfl (by simp only; omega) ?_
      simp only [dispatch, resStatus, if_true, goto, callbackData_only]
      simp [ptr]
      omega
    have hrun := ((Scan.Run.head hfirst hrest).concat hend).concat
      (run_lineEnd rfl (by simp only; omega) y)
    simpa [ptr, Nat.add_assoc, Nat.add_comm 1, Nat.add_left_comm 1] using hrun

/-- A status line. -/
theorem run_statusLine (ret : Nat) (l : StatusLine) (hn : l.text.length ≤ HTTP_MAX_HEADER_SIZE)
    (y : Bytes) : Scan.Run (scanner (step ret)) (HttpParser.init, noMarks) l.text y
      (.messageBegin :: l.events y) (l.parsed, noMarks) := by
  have hlen : l.text.length = 13 + (l.reason.length + 2) := by
    rw [StatusLine.text, List.length_append, List.length_append]
    rfl
  have hfront := run_front ret l (l.reason ++ [CR, LF] ++ y)
  have hreason := run_reason ret l.reason l.reason_line (y := y)
    (p := { l.parsed with state := .resStatusStart, nread := 13 }) rfl rfl (by simp only; omega)
  have hline := hfront.trans hreason
  simp only [← hlen] at hline
  exact hline

end HttpParser.Exec

end Mistress
