import Mistress.BuildReq

/-!
# File uploads

With the option `upload`, `build_req` is to write a request whose body is a multipart message
with the file as its only part (`Uploaded`). It never does (`not_uploaded`): where it checks
the option it reads a global variable of the same name, which nothing sets, and if something
did, it would stop at the assertion that there is no body, as an option left out is `false`
and not `nil`.

`make_upload_body` itself does what it is for: what it writes is a multipart message with one
part (`readMultipart_makeUploadBody`), which has the name and the data of the file
(`fileName_readMultipart`). So the call of it is all that is wrong.
-/

namespace Mistress

open Utils ReqOptions

/-! ## Multipart messages -/

/-- A part of a multipart message. -/
structure Part where
  fields : List (LuaString × LuaString)
  data : LuaString
  deriving DecidableEq

/-- The delimiter of the parts. -/
def delimiter (boundary : LuaString) : LuaString := '\r' :: "\n--".toList ++ boundary

/-- A part is read: its head is cut off. -/
def readPart (s : LuaString) : Option Part := do
  let (lines, data) ← Lines.cut [] s
  return ⟨← lines.mapM readField, data⟩

/-- The parts after a delimiter, `n` of them at most: it ends a line, or the message. -/
def readParts (boundary : LuaString) : Nat → LuaString → Option (List Part)
  | _, '-' :: '-' :: _ => some []
  | n + 1, '\r' :: '\n' :: s => do
    let (part, s) ← Lines.cutAt (delimiter boundary) s
    return (← readPart part) :: (← readParts boundary n s)
  | _, _ => none

/-- A multipart message is read. Its first delimiter may be at the beginning. -/
def readMultipart (boundary body : LuaString) : Option (List Part) := do
  let (_, s) ← Lines.cutAt (delimiter boundary) (Lines.crlf ++ body)
  readParts boundary s.length s

/-- The parameters of a field, `n` of them at most. -/
def readParams : Nat → LuaString → Option (List (LuaString × LuaString))
  | n + 1, ';' :: ' ' :: s => do
    let (key, s) ← breakAt '=' s
    let (value, s) ← breakAt '"' (s.drop 1)
    return (key, value) :: (← readParams n s)
  | _, [] => some []
  | _, _ => none

/-- The name of the file in a `Content-Disposition`. -/
def readDisposition (value : LuaString) : Option LuaString := do
  let (kind, params) ← breakAt ';' value
  if kind = "form-data".toList then
    (← readParams params.length (';' :: params)).lookup "filename".toList
  else none

/-- The name of the file a part carries. -/
def Part.fileName (part : Part) : Option LuaString :=
  (part.fields.lookup "Content-Disposition".toList).bind readDisposition

/-- The options of an upload: nothing else is given but the host. -/
def uploadOptions (host fname data : LuaString) (boundary : Option LuaString) : ReqOptions where
  host := some host
  upload := some ⟨some fname, some data, boundary⟩

/-- The file is **uploaded**: `build_req` returns a `POST` request whose body is a multipart
    message with the file as its only part, and has the length that is declared. -/
def Uploaded (b64 : LuaString → LuaString) (upload : Option Upload)
    (path host fname data : LuaString) (boundary : Option LuaString) : Prop :=
  ∃ s r b part, (uploadOptions host fname data boundary).buildReq b64 upload path = .ok s ∧
    readRequest s = some r ∧ r.method = "POST".toList ∧
    r.fields.lookup "Content-Type".toList = some ("multipart/form-data; boundary=".toList ++ b) ∧
    readMultipart b r.rest = some [part] ∧ part.fileName = some fname ∧ part.data = data ∧
    ∀ f ∈ r.fields, IsLength f → readNumber f.2 = some r.rest.length

variable {b64 : LuaString → LuaString} {upload : Option Upload}
  {path host fname data : LuaString} {boundary : Option LuaString}

/-- With the option `upload`, `build_req` raises an error. -/
theorem buildReq_of_upload {o : ReqOptions} (h : o.upload.isSome) :
    ∃ e, o.buildReq b64 upload path = .error e := by
  obtain ⟨u, hu⟩ := Option.isSome_iff_exists.1 h
  have hbody : ∃ e, o.methodBody upload = .error e := by
    rw [methodBody, hu]
    cases upload with
    | none => exact ⟨.indexNil, rfl⟩
    | some global =>
      obtain ⟨_ | fname, _ | data, boundary⟩ := global
      -- Without one of them an assertion fails, with both of them the last one.
      all_goals exact ⟨.assertion, rfl⟩
  obtain ⟨e, he⟩ := hbody
  exact ⟨e, by rw [ReqOptions.buildReq, he, bind_error]⟩

/-- No file is **uploaded**, whatever the global variable `upload` is. -/
theorem not_uploaded (b64 : LuaString → LuaString) (upload : Option Upload)
    (path host fname data : LuaString) (boundary : Option LuaString) :
    ¬ Uploaded b64 upload path host fname data boundary := by
  rintro ⟨s, r, b, part, hs, -⟩
  obtain ⟨e, he⟩ : ∃ e, (uploadOptions host fname data boundary).buildReq b64 upload path =
      .error e := buildReq_of_upload rfl
  rw [he] at hs
  cases hs

/-- The file `f` with the data `d` raises an error. -/
theorem upload_raises : ¬ ∀ (b64 : LuaString → LuaString) (upload : Option Upload)
    (path host fname data : LuaString) (boundary : Option LuaString),
    ('"' ∉ fname ∧ '\r' ∉ fname ∧ '\n' ∉ fname) →
      ¬ boundary.getD ReqOptions.boundary <:+: data →
        Uploaded b64 upload path host fname data boundary := by
  intro hall
  obtain ⟨s, r, b, part, hs, -⟩ :=
    hall id none ['/'] ['h'] ['f'] ['d'] none (by decide) (by decide +kernel)
  obtain ⟨e, he⟩ : ∃ e, (uploadOptions ['h'] ['f'] ['d'] none).buildReq id none ['/'] =
      .error e := buildReq_of_upload rfl
  rw [he] at hs
  cases hs

/-! ## The body of an upload -/

/-- The fields of the part that `make_upload_body` writes. -/
def uploadFields (fname : LuaString) : List (LuaString × LuaString) :=
  [("Content-Type".toList, "application/octet-stream; name=".toList ++ fname),
    ("Content-Transfer-Encoding".toList, "binary".toList),
    ("Content-Disposition".toList, "form-data; name=\"".toList ++ (fname ++
      ("\"; filename=\"".toList ++ (fname ++ ['"']))))]

/-- The part that `make_upload_body` writes. -/
def uploadPart (fname data : LuaString) : LuaString :=
  Lines.unlines ((uploadFields fname).map fieldText) ++ Lines.crlf ++ data

variable {b : LuaString}

/-- The text of three fields before some data, without parentheses. -/
theorem part_append (c n₁ v₁ n₂ v₂ n₃ v₃ w₃ f q crlf d s : LuaString) :
    (n₁ ++ c ++ (v₁ ++ f) ++ crlf ++ (n₂ ++ c ++ v₂ ++ crlf ++
      (n₃ ++ c ++ (v₃ ++ (f ++ (w₃ ++ (f ++ q)))) ++ crlf ++ [])) ++ crlf ++ d) ++ s =
      n₁ ++ (c ++ (v₁ ++ (f ++ (crlf ++ (n₂ ++ (c ++ (v₂ ++ (crlf ++ (n₃ ++ (c ++ (v₃ ++ (f ++
        (w₃ ++ (f ++ (q ++ (crlf ++ (crlf ++ (d ++ s)))))))))))))))))) := by
  simp only [List.append_assoc, List.nil_append]

/-- The text of an upload, without parentheses. -/
theorem upload_append (t b t₁ f t₂ t₃ t₄ t₅ d t₆ t₇ : LuaString) :
    t ++ b ++ t₁ ++ f ++ t₂ ++ t₃ ++ f ++ t₄ ++ f ++ t₅ ++ d ++ t₆ ++ b ++ t₇ =
      t ++ (b ++ (t₁ ++ (f ++ (t₂ ++ (t₃ ++ (f ++ (t₄ ++ (f ++ (t₅ ++ (d ++ (t₆ ++
        (b ++ t₇)))))))))))) := by
  simp only [List.append_assoc]

theorem makeUploadBody_eq : Lines.crlf ++ makeUploadBody b fname data =
    delimiter b ++ (Lines.crlf ++ (uploadPart fname data ++ (delimiter b ++ "--\r\n".toList))) := by
  have hbody := congrArg (Lines.crlf ++ ·) (upload_append "--".toList b
    "\r\nContent-Type: application/octet-stream; name=".toList fname
    "\r\nContent-Transfer-Encoding: binary\r\n".toList
    "Content-Disposition: form-data; name=\"".toList "\"; filename=\"".toList
    "\"\r\n\r\n".toList data "\r\n--".toList "--\r\n".toList)
  have hpart := part_append ": ".toList "Content-Type".toList
    "application/octet-stream; name=".toList "Content-Transfer-Encoding".toList
    "binary".toList "Content-Disposition".toList "form-data; name=\"".toList
    "\"; filename=\"".toList fname ['"'] Lines.crlf data (delimiter b ++ "--\r\n".toList)
  have hpieces := congrArg (fun s => delimiter b ++ (Lines.crlf ++ s)) hpart
  refine (hbody.trans ?_).trans hpieces.symm
  rfl

@[simp] theorem readParams_nil (n : Nat) : readParams n [] = some [] := by
  cases n <;> rfl

theorem readParams_cons {key value s : LuaString} (hkey : '=' ∉ key) (hvalue : '"' ∉ value)
    (n : Nat) : readParams (n + 1) (';' :: ' ' :: (key ++ '=' :: '"' :: (value ++ '"' :: s))) =
      (readParams n s).map ((key, value) :: ·) := by
  rw [readParams, breakAt_append hkey]
  simp only [Option.bind_eq_bind, Option.bind_some, List.drop_succ_cons, List.drop_zero,
    breakAt_append hvalue]
  cases readParams n s <;> rfl

theorem readDisposition_eq (params : LuaString) :
    readDisposition ("form-data".toList ++ ';' :: params) =
      (readParams params.length (';' :: params)).bind (·.lookup "filename".toList) := by
  rw [readDisposition, breakAt_append (by decide)]
  rfl

/-- The name of the file is read as it is written. -/
theorem fileName_uploadFields (h : '"' ∉ fname) :
    (Part.mk (uploadFields fname) data).fileName = some fname := by
  have hvalue : (uploadFields fname).lookup "Content-Disposition".toList = some
      ("form-data".toList ++ ';' :: ' ' :: ("name".toList ++ '=' :: '"' :: (fname ++ '"' ::
        (';' :: ' ' :: ("filename".toList ++ '=' :: '"' :: (fname ++ '"' :: [])))))) := rfl
  have hparams : ∀ n, 2 ≤ n → readParams n (';' :: ' ' :: ("name".toList ++ '=' :: '"' ::
      (fname ++ '"' :: (';' :: ' ' :: ("filename".toList ++ '=' :: '"' ::
        (fname ++ '"' :: [])))))) = some [("name".toList, fname), ("filename".toList, fname)] := by
    intro n hn
    obtain ⟨n, rfl⟩ := Nat.exists_eq_add_of_le' hn
    rw [readParams_cons (by decide) h, readParams_cons (by decide) h, readParams_nil]
    rfl
  rw [Part.fileName, hvalue, Option.bind_some, readDisposition_eq, hparams]
  · rfl
  · rw [List.length_cons, List.length_append, List.length_cons]
    omega

theorem carriageReturn_not_mem (h : '\r' ∉ fname) {f : LuaString × LuaString}
    (hf : f ∈ uploadFields fname) : '\r' ∉ f.1 ∧ '\r' ∉ f.2 := by
  have happend : ∀ {s t : LuaString}, '\r' ∉ s → '\r' ∉ t → '\r' ∉ s ++ t := fun hs ht hmem =>
    (List.mem_append.1 hmem).elim hs ht
  have hnames : ∀ n ∈ (uploadFields []).map Prod.fst, '\r' ∉ n := by decide +kernel
  have hname : f.1 ∈ (uploadFields fname).map Prod.fst := List.mem_map_of_mem hf
  refine ⟨hnames _ hname, ?_⟩
  simp only [uploadFields, List.mem_cons, List.not_mem_nil, or_false] at hf
  rcases hf with rfl | rfl | rfl
  · exact happend (by decide) h
  · decide
  · exact happend (by decide) (happend h (happend (by decide) (happend h (by decide))))

/-- The delimiter does not occur in the part, if the boundary does not occur in the data. -/
theorem delimiter_absent (h : '\r' ∉ fname) (hdata : ¬ b <:+: data) :
    ¬ delimiter b <:+: uploadPart fname data := by
  have hempty : ¬ delimiter b <:+: [] ++ Lines.crlf ++ data := by
    intro hinfix
    rcases (Lines.infix_line_iff List.not_mem_nil).1 hinfix with hpre | hpre
    · exact hdata ((List.suffix_append "--".toList b).isInfix.trans hpre.isInfix)
    · exact hdata ((List.suffix_append ('\r' :: "\n--".toList) b).isInfix.trans hpre)
  have hdash : ¬ "--".toList ++ b <+: Lines.crlf ++ data := fun hpre =>
    absurd (List.cons_prefix_cons.1 hpre).1 (by decide)
  have hfirst : ∀ n ∈ (uploadFields []).map Prod.fst, ∃ x n', n = x :: n' ∧ '-' ≠ x := by
    intro n hn
    refine ⟨n.headD ' ', n.tail, ?_, ?_⟩ <;> revert n <;> decide +kernel
  have hlines : ∀ l ∈ (uploadFields fname).map fieldText,
      '\r' ∉ l ∧ ∃ x l', l = x :: l' ∧ '-' ≠ x := by
    intro l hl
    obtain ⟨f, hf, rfl⟩ := List.mem_map.1 hl
    obtain ⟨hname, hvalue⟩ := carriageReturn_not_mem h hf
    have hmem : f.1 ∈ (uploadFields fname).map Prod.fst := List.mem_map_of_mem hf
    obtain ⟨x, n, hn, hx⟩ := hfirst _ hmem
    refine ⟨?_, x, _, by rw [fieldText, hn]; rfl, hx⟩
    simp [fieldText, hname, hvalue]
  rw [uploadPart, List.append_assoc]
  exact (Lines.not_infix_unlines hlines ⟨hdash, hempty⟩).2

/-- The part is read as it is written. -/
theorem readPart_uploadPart (h : '\r' ∉ fname) :
    readPart (uploadPart fname data) = some ⟨uploadFields fname, data⟩ := by
  have hlines : ∀ l ∈ (uploadFields fname).map fieldText, Lines.Unbroken l ∧ l ≠ [] := by
    intro l hl
    obtain ⟨f, hf, rfl⟩ := List.mem_map.1 hl
    obtain ⟨hname, hvalue⟩ := carriageReturn_not_mem h hf
    refine ⟨Lines.unbroken_of_not_mem ?_, List.ne_nil_of_mem colon_mem_fieldText⟩
    simp [fieldText, hname, hvalue]
  have hnames : ∀ n ∈ (uploadFields []).map Prod.fst, ':' ∉ n := by decide +kernel
  have hfields : ((uploadFields fname).map fieldText).mapM readField = some (uploadFields fname) := by
    refine mapM_readField_iff.2 ⟨?_, ?_⟩
    · intro l hl
      obtain ⟨f, -, rfl⟩ := List.mem_map.1 hl
      exact colon_mem_fieldText
    · have hread : ∀ f ∈ uploadFields fname, (fieldOf ∘ fieldText) f = id f := fun f hf => by
        have hname : f.1 ∈ (uploadFields fname).map Prod.fst := List.mem_map_of_mem hf
        exact fieldOf_fieldText (hnames _ hname)
      rw [List.map_map, List.map_congr_left hread, List.map_id]
  rw [readPart, uploadPart, Lines.cut_unlines hlines]
  simp only [Option.bind_eq_bind, Option.bind_some, hfields, Option.pure_def]

theorem readParts_end (n : Nat) (s : LuaString) : readParts b n ('-' :: '-' :: s) = some [] := by
  cases n <;> rfl

/-- What `make_upload_body` writes is a multipart message with the file as its only part. -/
theorem readMultipart_makeUploadBody (hfname : '\r' ∉ fname) (hb : '\r' ∉ b)
    (hdata : ¬ b <:+: data) :
    readMultipart b (makeUploadBody b fname data) = some [⟨uploadFields fname, data⟩] := by
  have hdelimiter : '\r' ∉ "\n--".toList ++ b := by simp [hb]
  have hfirst : Lines.cutAt (delimiter b) (Lines.crlf ++ makeUploadBody b fname data) = some ([],
      '\r' :: '\n' :: (uploadPart fname data ++ (delimiter b ++ "--\r\n".toList))) := by
    rw [makeUploadBody_eq]
    exact Lines.cutAt_append (x := []) hdelimiter (by simp)
  have hsecond : Lines.cutAt (delimiter b) (uploadPart fname data ++
      (delimiter b ++ "--\r\n".toList)) = some (uploadPart fname data, "--\r\n".toList) :=
    Lines.cutAt_append hdelimiter (delimiter_absent hfname hdata)
  rw [readMultipart, hfirst]
  simp only [Option.bind_eq_bind, Option.bind_some, List.length_cons]
  rw [readParts, hsecond]
  simp only [Option.bind_eq_bind, Option.bind_some, readPart_uploadPart hfname, Option.pure_def]
  exact congrArg (Option.bind · _) (readParts_end _ _)

/-- What `make_upload_body` writes decodes to the file, as `Uploaded` asks for of the body of the
    request. -/
theorem fileName_readMultipart (hfname : '"' ∉ fname ∧ '\r' ∉ fname) (hb : '\r' ∉ b)
    (hdata : ¬ b <:+: data) : ∃ part, readMultipart b (makeUploadBody b fname data) = some [part] ∧
      part.fileName = some fname ∧ part.data = data :=
  ⟨_, readMultipart_makeUploadBody hfname.2 hb hdata, fileName_uploadFields hfname.1, rfl⟩

end Mistress
