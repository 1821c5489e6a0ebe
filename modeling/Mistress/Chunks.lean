import Mistress.StatusLine

/-!
# Chunks

`http_parser` on a chunk (`run_chunk`) and on all of them (`run_chunks`): the data is
reported, its size in hexadecimal and what else is on the line of the size is not. A chunk
of no data is the last one, after which the trailer follows (`run_lastChunk`).
-/

open LuaStack

namespace Mistress

open HttpParser

/-- The number that hexadecimal digits make. -/
def hexadecimal (size : Bytes) : Nat := size.foldl (fun n ch => n * 16 + (hexDigit ch).getD 0) 0

theorem hexadecimal_concat (v : Bytes) (ch : UInt8) :
    hexadecimal (v ++ [ch]) = hexadecimal v * 16 + (hexDigit ch).getD 0 := by
  rw [hexadecimal, List.foldl_concat]
  rfl

theorem hexadecimal_append (v w : Bytes) : hexadecimal v ≤ hexadecimal (v ++ w) := by
  rw [hexadecimal, hexadecimal, List.foldl_append]
  generalize v.foldl _ 0 = n
  induction w generalizing n with
  | nil => exact le_rfl
  | cons ch w ih =>
    rw [List.foldl_cons]
    exact le_trans (by omega) (ih _)

/-- The line before a chunk of `n` bytes: its size, and what else there is. -/
structure ChunkLine (n : Nat) where
  size : Bytes
  extension : Bytes
  size_ne_nil : size ≠ []
  size_digits : ∀ ch ∈ size, hexDigit ch ≠ none
  size_eq : hexadecimal size = n
  extension_head : ∀ ch ∈ extension.head?, ch = byte ';' ∨ ch = SP
  extension_line : ∀ ch ∈ extension, ch ≠ CR
  fits : n / 16 ≤ (ULLONG_MAX - 16) / 16
  length_le : size.length + (extension.length + 2) ≤ HTTP_MAX_HEADER_SIZE

/-- What may stand in the line before a chunk. -/
def isChunkLine (size extension : Bytes) : Bool :=
  size ≠ [] && size.all (fun ch => (hexDigit ch).isSome) &&
    extension.head?.all (fun ch => ch = byte ';' || ch = SP) && extension.all (· ≠ CR)

/-- A line that is checked to be one. -/
def ChunkLine.extended {n : Nat} (size extension : Bytes) (h : isChunkLine size extension = true)
    (size_eq : hexadecimal size = n) (length_le : n / 16 ≤ (ULLONG_MAX - 16) / 16 ∧
      size.length + (extension.length + 2) ≤ HTTP_MAX_HEADER_SIZE) : ChunkLine n where
  size := size
  extension := extension
  size_ne_nil := by
    simp only [isChunkLine, Bool.and_eq_true, decide_eq_true_eq] at h
    exact h.1.1.1
  size_digits := by
    simp only [isChunkLine, Bool.and_eq_true, List.all_eq_true] at h
    exact fun ch hch => Option.isSome_iff_ne_none.1 (h.1.1.2 ch hch)
  size_eq := size_eq
  extension_head := by
    simp only [isChunkLine, Bool.and_eq_true, Option.all_eq_true, Bool.or_eq_true,
      decide_eq_true_eq] at h
    exact h.1.2
  extension_line := by
    simp only [isChunkLine, Bool.and_eq_true, List.all_eq_true, decide_eq_true_eq] at h
    exact h.2
  fits := length_le.1
  length_le := length_le.2

/-- The line, with its end. -/
def ChunkLine.text {n : Nat} (c : ChunkLine n) : Bytes := c.size ++ (c.extension ++ [CR, LF])

/-- A chunk. -/
structure Chunk where
  data : Bytes
  data_ne_nil : data ≠ []
  line : ChunkLine data.length

/-- A chunk, with the ends of its lines. -/
def Chunk.text (c : Chunk) : Bytes := c.line.text ++ (c.data ++ [CR, LF])

/-- The chunks of a body. -/
def chunksText (chunks : List Chunk) : Bytes := chunks.flatMap Chunk.text

/-- The events of the chunks, which `y` follows. -/
def chunksEvents : List Chunk → Bytes → List Event
  | [], _ => []
  | c :: chunks, y =>
    .data .body (c.data ++ CR :: LF :: (chunksText chunks ++ y)) c.data.length ::
      chunksEvents chunks y

namespace HttpParser.Exec

variable {ret : Nat} {p : HttpParser}

theorem ne_CR_of_hexDigit {ch : UInt8} (h : hexDigit ch ≠ none) : ch ≠ CR := by
  rintro rfl
  exact h (by decide)

/-- The hexadecimal digits are in the part of the table that is initialised. -/
theorem unhex_hexDigit {ch : UInt8} (h : hexDigit ch ≠ none) : unhex ch = hexDigit ch := by
  refine if_neg fun hle => h ?_
  have hle' : 128 ≤ ch.toNat := UInt8.le_iff_toNat_le.1 hle
  have hnum : isNum ch = false := by
    simp only [isNum, byte, UInt8.le_iff_toNat_le, Bool.and_eq_false_iff, decide_eq_false_iff_not]
    exact .inr (by simp; omega)
  have hupper : ¬ch ≤ byte 'F' := by
    rw [UInt8.le_iff_toNat_le]
    simp [byte]
    omega
  have hlower : ¬ch ≤ byte 'f' := by
    rw [UInt8.le_iff_toNat_le]
    simp [byte]
    omega
  simp [hexDigit, hnum, hupper, hlower]

/-- The rest of the size of a chunk. -/
theorem run_sizeDigits (ret : Nat) (q v y : Bytes) (hq : ∀ ch ∈ q, hexDigit ch ≠ none)
    (hfits : hexadecimal (v ++ q) / 16 ≤ (ULLONG_MAX - 16) / 16) {p : HttpParser}
    (hs : p.state = .chunkSize) (hlen : p.contentLength = hexadecimal v)
    (hn : p.nread + q.length ≤ HTTP_MAX_HEADER_SIZE) :
    Scan.Run (scanner (step ret)) (p, noMarks) q y []
      ({ p with contentLength := hexadecimal (v ++ q), nread := p.nread + q.length }, noMarks) := by
  induction q generalizing v p with
  | nil =>
    rw [List.append_nil, ← hlen]
    exact .nil _ y
  | cons ch q ih =>
    obtain ⟨hch, hq⟩ := List.forall_mem_cons.1 hq
    obtain ⟨d, hd⟩ := Option.ne_none_iff_exists'.1 hch
    rw [List.length_cons] at hn ⊢
    rw [List.append_cons] at hfits ⊢
    have hle := hexadecimal_append (v ++ [ch]) q
    rw [hexadecimal_concat] at hle
    have hmax : ¬(ULLONG_MAX - 16) / 16 < p.contentLength := by omega
    have hdigit : scanner (step ret) (p, noMarks) ch (q ++ y) = some (({ p with
        contentLength := hexadecimal (v ++ [ch]), nread := p.nread + 1 }, noMarks), [], 0) := by
      refine scanner_header (by rw [hs]; rfl) (by omega) ?_
      simp only [dispatch, hs, chunkSize, if_neg (ne_CR_of_hexDigit hch), unhex_hexDigit hch, hd,
        if_neg hmax]
      rw [hexadecimal_concat, hd, hlen]
      rfl
    have hrest := ih (v ++ [ch]) hq hfits (p := { p with
      contentLength := hexadecimal (v ++ [ch]), nread := p.nread + 1 }) hs rfl (by simp only; omega)
    have hrun := Scan.Run.head hdigit hrest
    rw [Nat.add_right_comm, Nat.add_assoc] at hrun
    simpa [Nat.add_assoc, Nat.add_comm 1] using hrun

/-- The extension of a chunk, with the end of its line. -/
theorem run_extension (ret : Nat) (extension : Bytes)
    (hhead : ∀ ch ∈ extension.head?, ch = byte ';' ∨ ch = SP)
    (hline : ∀ ch ∈ extension, ch ≠ CR) {p : HttpParser} (hs : p.state = .chunkSize)
    (hn : p.nread + (extension.length + 2) ≤ HTTP_MAX_HEADER_SIZE) (y : Bytes) :
    Scan.Run (scanner (step ret)) (p, noMarks) (extension ++ [CR]) y []
      ({ p with
        state := .chunkSizeAlmostDone
        nread := p.nread + (extension.length + 1) }, noMarks) := by
  cases extension with
  | nil =>
    refine .single (scanner_header (by rw [hs]; rfl) (by omega) ?_)
    simp only [dispatch, hs, chunkSize, if_true, goto]
    rfl
  | cons ch q =>
    obtain ⟨hch, hq⟩ := List.forall_mem_cons.1 hline
    rw [List.length_cons] at hn
    have hfirst : scanner (step ret) (p, noMarks) ch (q ++ CR :: y) =
        some (({ p with state := .chunkParameters, nread := p.nread + 1 }, noMarks), [], 0) := by
      have hhex : unhex ch = none := by
        rcases hhead ch rfl with rfl | rfl
        · decide
        · decide
      refine scanner_header (by rw [hs]; rfl) (by omega) ?_
      simp only [dispatch, hs, chunkSize, if_neg hch, hhex, if_pos (hhead ch rfl), goto]
    have hrest : Scan.Run (scanner (step ret)) ({ p with
        state := .chunkParameters, nread := p.nread + 1 }, noMarks) q (CR :: y) []
        ({ p with state := .chunkParameters, nread := p.nread + 1 + q.length }, noMarks) := by
      refine Scan.Run.each (fun v => ({ p with
        state := .chunkParameters, nread := p.nread + 1 + v.length }, noMarks)) q _ ?_
      rintro v b q' rfl
      rw [List.length_append, List.length_cons] at hn
      refine scanner_header rfl (by simp only; omega) ?_
      simp only [dispatch, chunkParameters, if_neg (hq b (by simp)), List.length_append,
        List.length_singleton]
      rfl
    have hend : scanner (step ret) ({ p with
        state := .chunkParameters, nread := p.nread + 1 + q.length }, noMarks) CR y =
        some (({ p with
          state := .chunkSizeAlmostDone, nread := p.nread + 1 + q.length + 1 }, noMarks), [], 0) := by
      refine scanner_header rfl (by simp only; omega) ?_
      simp only [dispatch, chunkParameters, if_true, goto]
    have hrun := (Scan.Run.head hfirst hrest).concat hend
    simpa [Nat.add_assoc, Nat.add_comm 1, Nat.add_left_comm 1] using hrun

/-- The line before a chunk, up to the line feed. -/
theorem run_chunkSize (ret : Nat) {n : Nat} (c : ChunkLine n) {p : HttpParser}
    (hs : p.state = .chunkSizeStart) (hn : p.nread = 0) (y : Bytes) :
    Scan.Run (scanner (step ret)) (p, noMarks) (c.size ++ (c.extension ++ [CR])) y []
      ({ p with
        state := .chunkSizeAlmostDone
        contentLength := n
        nread := c.size.length + (c.extension.length + 1) }, noMarks) := by
  obtain ⟨ch, q, hsize⟩ := List.exists_cons_of_ne_nil c.size_ne_nil
  have hdigits := c.size_digits
  have hlen := c.length_le
  have heq := c.size_eq
  have hfits := c.fits
  rw [hsize] at hdigits hlen heq ⊢
  rw [← heq] at hfits
  obtain ⟨hch, hq⟩ := List.forall_mem_cons.1 hdigits
  obtain ⟨d, hd⟩ := Option.ne_none_iff_exists'.1 hch
  rw [List.length_cons] at hlen
  have hfirst : scanner (step ret) (p, noMarks) ch (q ++ (c.extension ++ [CR] ++ y)) =
      some (({ p with state := .chunkSize, contentLength := d, nread := 1 }, noMarks), [], 0) := by
    refine scanner_header (by rw [hs]; rfl) (by omega) ?_
    simp only [dispatch, hs, chunkSizeStart, unhex_hexDigit hch, hd, hn]
  have hfirst' : hexadecimal [ch] = d := by simp [hexadecimal, hd]
  have hrest := run_sizeDigits ret q [ch] (c.extension ++ [CR] ++ y) hq hfits
    (p := { p with state := .chunkSize, contentLength := d, nread := 1 }) rfl hfirst'.symm
    (by simp only; omega)
  have hextension := run_extension ret c.extension c.extension_head c.extension_line (y := y)
    (p := { p with state := .chunkSize, contentLength := hexadecimal ([ch] ++ q), nread := 1 + q.length })
    rfl (by simp only; omega)
  have hrun := (Scan.Run.head hfirst hrest).trans hextension
  have heq' : hexadecimal ([ch] ++ q) = n := heq
  rw [heq'] at hrun
  simpa [Nat.add_assoc, Nat.add_comm 1, Nat.add_left_comm 1] using hrun

/-- A chunk. -/
theorem run_chunk (ret : Nat) (c : Chunk) {p : HttpParser} (hs : p.state = .chunkSizeStart)
    (hn : p.nread = 0) (y : Bytes) :
    Scan.Run (scanner (step ret)) (p, noMarks) c.text y
      [.data .body (c.data ++ CR :: LF :: y) c.data.length]
      ({ p with contentLength := 0 }, noMarks) := by
  obtain ⟨b, d, hdata⟩ := List.exists_cons_of_ne_nil c.data_ne_nil
  have hpos : c.data.length ≠ 0 := by simp [hdata]
  have hsize := run_chunkSize ret c.line hs hn (y := LF :: (c.data ++ [CR, LF] ++ y))
  have hlf : scanner (step ret) ({ p with
      state := .chunkSizeAlmostDone
      contentLength := c.data.length
      nread := c.line.size.length + (c.line.extension.length + 1) }, noMarks) LF
      (c.data ++ [CR, LF] ++ y) =
      some (({ p with state := .chunkData, contentLength := c.data.length, nread := 0 }, noMarks),
        [], 0) := by
    have hlen := c.line.length_le
    refine scanner_header rfl (by simp only; omega) ?_
    simp only [dispatch, chunkSizeAlmostDone, ne_eq, not_true_eq_false, if_false, hpos]
  have hbytes : scanner (step ret) ({ p with
      state := .chunkData, contentLength := c.data.length, nread := 0 }, noMarks) b
      (d ++ [CR, LF] ++ y) = some (({ p with
        state := .chunkDataAlmostDone, contentLength := 0, nread := 0 },
        only .body (c.data ++ CR :: LF :: y)), [], d.length) := by
    have hread := readBody_noMarks { p with
      state := .chunkData, contentLength := c.data.length, nread := 0 } (b :: (d ++ [CR, LF] ++ y))
    have hmin : min c.data.length (b :: (d ++ [CR, LF] ++ y)).length = c.data.length := by
      refine Nat.min_eq_left ?_
      simp [hdata]
    simp only [hmin, Nat.sub_self] at hread
    simp only [scanner, step, dispatch, State.parsingHeader, chunkData, hread, if_true, goto,
      Bool.false_eq_true, if_false]
    simp [hdata]
  have hcr : scanner (step ret) ({ p with
      state := .chunkDataAlmostDone, contentLength := 0, nread := 0 },
      only .body (c.data ++ CR :: LF :: y)) CR (LF :: y) =
      some (({ p with state := .chunkDataDone, contentLength := 0, nread := 0 }, noMarks),
        [.data .body (c.data ++ CR :: LF :: y) c.data.length], 0) := by
    simp only [scanner, step, dispatch, State.parsingHeader, chunkDataAlmostDone, ne_eq,
      not_true_eq_false, if_false, Bool.false_eq_true, goto, callbackData_only]
    simp
  have hdone : scanner (step ret) ({ p with
      state := .chunkDataDone, contentLength := 0, nread := 0 }, noMarks) LF y =
      some (({ p with contentLength := 0 }, noMarks), [], 0) := by
    have hp : { p with state := .chunkSizeStart, contentLength := 0, nread := 0 } =
        { p with contentLength := 0 } := by rw [← hs, ← hn]
    simp only [scanner, step, dispatch, State.parsingHeader, chunkDataDone, ne_eq,
      not_true_eq_false, if_false, Bool.false_eq_true, hp]
  have hend : Scan.Run (scanner (step ret)) ({ p with
      state := .chunkDataAlmostDone, contentLength := 0, nread := 0 },
      only .body (c.data ++ CR :: LF :: y)) [CR, LF] y
      [.data .body (c.data ++ CR :: LF :: y) c.data.length] ({ p with contentLength := 0 }, noMarks) :=
    (Scan.Run.single hcr).concat hdone
  have hbody : Scan.Run (scanner (step ret)) ({ p with
      state := .chunkData, contentLength := c.data.length, nread := 0 }, noMarks)
      (c.data ++ [CR, LF]) y [.data .body (c.data ++ CR :: LF :: y) c.data.length]
      ({ p with contentLength := 0 }, noMarks) := by
    rw [hdata] at hbytes hend ⊢
    refine .cons hbytes (by simp) ?_
    rwa [List.drop_left]
  have hrun := (hsize.concat hlf).trans hbody
  simpa [Chunk.text, ChunkLine.text] using hrun

/-- The chunks. -/
theorem run_chunks (ret : Nat) (chunks : List Chunk) {p : HttpParser}
    (hs : p.state = .chunkSizeStart) (hn : p.nread = 0) (y : Bytes) :
    ∃ n, Scan.Run (scanner (step ret)) (p, noMarks) (chunksText chunks) y (chunksEvents chunks y)
      ({ p with contentLength := n }, noMarks) := by
  induction chunks generalizing p with
  | nil => exact ⟨p.contentLength, .nil _ y⟩
  | cons c chunks ih =>
    have hchunk := run_chunk ret c hs hn (chunksText chunks ++ y)
    obtain ⟨n, hrest⟩ := ih (p := { p with contentLength := 0 }) hs hn
    exact ⟨n, hchunk.trans hrest⟩

/-- The last chunk: the trailer follows. -/
theorem run_lastChunk (ret : Nat) (c : ChunkLine 0) {p : HttpParser} (hs : p.state = .chunkSizeStart)
    (hn : p.nread = 0) (y : Bytes) :
    Scan.Run (scanner (step ret)) (p, noMarks) c.text y []
      ({ p with
        state := .headerFieldStart
        flags := { p.flags with trailing := true }
        contentLength := 0
        nread := 0 }, noMarks) := by
  have hsize := run_chunkSize ret c hs hn (y := LF :: y)
  have hlf : scanner (step ret) ({ p with
      state := .chunkSizeAlmostDone
      contentLength := 0
      nread := c.size.length + (c.extension.length + 1) }, noMarks) LF y =
      some (({ p with
        state := .headerFieldStart
        flags := { p.flags with trailing := true }
        contentLength := 0
        nread := 0 }, noMarks), [], 0) := by
    have hlen := c.length_le
    refine scanner_header rfl (by simp only; omega) ?_
    simp only [dispatch, chunkSizeAlmostDone, ne_eq, not_true_eq_false, if_false, if_true]
  have hrun := hsize.concat hlf
  simpa [ChunkLine.text] using hrun

end HttpParser.Exec

end Mistress
