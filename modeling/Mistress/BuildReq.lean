import Mathlib.Data.List.Perm.Basic
import Mistress.HandleCookies
import Mistress.Lines

/-!
# Requests

`build_req` writes a request: the request line, the fields of its own and the headers of the
caller, an empty line, and the body. A reader cuts it at the first empty line and each line at
the first colon (`parse`), and should find what the caller asked for (`Serialized`).

`serialized_iff` says when it does. No check is made on the headers of the caller but for
`Accept`: any other header that `build_req` writes itself is then there twice, as are two
headers that differ by case only, and a `Content-Length` is taken as it is.
-/

namespace Mistress

open Utils

/-- The option `upload`. -/
structure Upload where
  fname : Option LuaString
  data : Option LuaString
  boundary : Option LuaString

/-- The options of `build_req`. What is missing, or `false`, is `none`. -/
structure ReqOptions where
  method : Option LuaString := none
  httpVsn : Option LuaString := none
  host : Option LuaString := none
  body : Option LuaString := none
  keepalive : Option Bool := none
  userAgent : Option LuaString := none
  basicAuth : Option (LuaString × LuaString) := none
  cookies : Option (List (LuaString × LuaString)) := none
  referer : Option LuaString := none
  headers : Option (Table LuaString LuaString) := none
  upload : Option Upload := none

/-- An option merged with the default `false`. -/
inductive OrFalse (α : Type)
  | false
  | value (a : α)

/-- `merge_defaults`, for an option whose default is `false`. -/
def orFalse {α : Type} : Option α → OrFalse α
  | none => .false
  | some a => .value a

/-- Neither `false` nor a value is `nil`. -/
def OrFalse.isNil {α : Type} : OrFalse α → Bool := fun _ => Bool.false

namespace ReqOptions

/-- `boundary`, the default one. -/
def boundary : LuaString := "HURRDURRBOUNDARY".toList

/-- `make_upload_body` -/
def makeUploadBody (boundary fname data : LuaString) : LuaString :=
  "--".toList ++ boundary ++ "\r\nContent-Type: application/octet-stream; name=".toList ++ fname ++
    "\r\nContent-Transfer-Encoding: binary\r\n".toList ++
    "Content-Disposition: form-data; name=\"".toList ++ fname ++ "\"; filename=\"".toList ++ fname ++
    "\"\r\n\r\n".toList ++ data ++ "\r\n--".toList ++ boundary ++ "--\r\n".toList

/-- `assert` on a value that is to be there. -/
def assertSome {α : Type} : Option α → Except LuaError α
  | none => .error .assertion
  | some a => .ok a

variable (b64 : LuaString → LuaString) (upload : Option Upload) (o : ReqOptions)

/-- The method and the body. `upload` is the global variable of this name, which the source
    reads where `opts.upload` is meant. -/
def methodBody : Except LuaError (LuaString × LuaString) :=
  match o.upload with
  | some u => do
    let global ← match upload with
      | none => .error .indexNil
      | some global => pure global
    let fname ← assertSome global.fname
    let data ← assertSome global.data
    let body := makeUploadBody (u.boundary.getD boundary) fname data
    if (orFalse o.body).isNil then .ok (o.method.getD "POST".toList, body)
    else .error .assertion
  | none => .ok (o.method.getD "GET".toList, o.body.getD [])

/-- `opts.headers` -/
def header : List (LuaString × LuaString) :=
  (o.headers.getD ∅).entries.map fun e => (e.1, e.2)

/-- The lines of the head. -/
def lines (method path body host : LuaString) (cookie : Option LuaString) : List LuaString :=
  [method ++ " ".toList ++ path ++ " HTTP/".toList ++ o.httpVsn.getD "1.1".toList,
    "Connection: ".toList ++ (if o.keepalive.getD true then "Keep-Alive" else "close").toList,
    "Accept-Encoding: gzip, deflate".toList,
    "User-Agent: ".toList ++ o.userAgent.getD "Mistress/0.1".toList,
    "Accept-Language: en-us,en;q=0.5".toList] ++
  (o.header.map fun h => h.1 ++ ": ".toList ++ h.2) ++
  (match o.upload with
    | some u => ["Content-Type: multipart/form-data; boundary=".toList ++ u.boundary.getD boundary]
    | none => []) ++
  (if ((o.headers.getD ∅).lookup "Accept".toList).isNone then ["Accept: */*".toList] else []) ++
  ["Host: ".toList ++ host] ++
  (if 0 < body.length then ["Content-Length: ".toList ++ Nat.toDigits 10 body.length] else []) ++
  (o.referer.toList.map ("Referer: ".toList ++ ·)) ++
  (o.basicAuth.toList.map fun a => "Authorization: Basic ".toList ++ b64 (a.1 ++ ':' :: a.2)) ++
  cookie.toList

/-- `build_req`; `b64` is `mime.b64`. -/
def buildReq (path : LuaString) : Except LuaError LuaString := do
  let (method, body) ← o.methodBody upload
  if o.upload.isSome ∧ ((o.headers.getD ∅).lookup "Content-Type".toList).isSome then
    .error .assertion
  let host ← assertSome o.host
  let cookie ← cookieLine ((o.cookies.getD []).map fun c => (c.1, some c.2))
  return Lines.crlf.intercalate (o.lines b64 method path body host cookie) ++
    "\r\n\r\n".toList ++ body

end ReqOptions

/-! ## Reading a request -/

/-- What is before and after the first `c`. -/
def breakAt (c : Char) (s : LuaString) : Option (LuaString × LuaString) :=
  match s.dropWhile (· ≠ c) with
  | [] => none
  | _ :: rest => some (s.takeWhile (· ≠ c), rest)

/-- A header: what is before and after the first colon, up to a space. -/
def readField (line : LuaString) : Option (LuaString × LuaString) :=
  (breakAt ':' line).map fun f => (f.1, match f.2 with
    | ' ' :: value => value
    | value => value)

/-- A decimal number. -/
def readNumber (s : LuaString) : Option Nat :=
  if s ≠ [] ∧ s.all Char.isDigit then some (Nat.ofDigitChars 10 s 0) else none

/-- A request, as it is read. -/
structure ReadRequest where
  method : LuaString
  path : LuaString
  fields : List (LuaString × LuaString)
  rest : LuaString

/-- A request is read: it is cut at the first empty line. -/
def readRequest (s : LuaString) : Option ReadRequest := do
  let (lines, rest) ← Lines.cut [] s
  let first ← lines.head?
  let (method, line) ← breakAt ' ' first
  let (path, _) ← breakAt ' ' line
  let fields ← lines.tail.mapM readField
  return ⟨method, path, fields, rest⟩

/-- The name of a field, compared case-insensitively. -/
def lowerName (f : LuaString × LuaString) : LuaString := f.1.map Char.toLower

/-- Whether a field is a `Content-Length`. -/
abbrev IsLength (f : LuaString × LuaString) : Prop := lowerName f = "content-length".toList

/-- `build_req` **serializes** a request: what is read is what has been asked for. -/
def Serialized (b64 : LuaString → LuaString) (upload : Option Upload) (o : ReqOptions)
    (path : LuaString) : Prop :=
  ∃ s r, o.buildReq b64 upload path = .ok s ∧ readRequest s = some r ∧
    r.method = o.method.getD "GET".toList ∧ r.path = path ∧ r.rest = o.body.getD [] ∧
    (∀ f ∈ o.header, r.fields.count f = 1) ∧ (r.fields.map lowerName).Nodup ∧
    ((∃ f ∈ r.fields, IsLength f) ↔ o.body.getD [] ≠ [] ∨ ∃ f ∈ o.header, IsLength f) ∧
    ∀ f ∈ r.fields, IsLength f → readNumber f.2 = some (o.body.getD []).length

section breakAt

variable {c : Char} {s t : LuaString}

theorem breakAt_append (h : c ∉ s) : breakAt c (s ++ c :: t) = some (s, t) := by
  have hs : ∀ x ∈ s, decide (x ≠ c) = true := fun x hx => by
    simpa using ne_of_mem_of_not_mem hx h
  rw [breakAt, List.dropWhile_append_of_pos hs, List.takeWhile_append_of_pos hs]
  simp

theorem breakAt_eq_some {p : LuaString × LuaString} (h : breakAt c s = some p) :
    s = p.1 ++ c :: p.2 ∧ c ∉ p.1 := by
  unfold breakAt at h
  split at h
  · cases h
  · next x rest hdrop =>
    cases h
    have hx : x = c := by
      have hhead := List.head?_dropWhile_not (· ≠ c) s
      rw [hdrop] at hhead
      simpa using hhead
    subst hx
    refine ⟨List.takeWhile_append_dropWhile.symm.trans (congrArg _ hdrop), ?_⟩
    intro hmem
    simpa using List.mem_takeWhile_imp hmem

theorem breakAt_isSome_iff : (breakAt c s).isSome ↔ c ∈ s := by
  constructor
  · intro h
    obtain ⟨p, hp⟩ := Option.isSome_iff_exists.1 h
    rw [(breakAt_eq_some hp).1]
    simp
  · intro h
    obtain ⟨s, t, rfl, hs⟩ := List.eq_append_cons_of_mem h
    rw [breakAt_append hs]
    rfl

end breakAt

theorem readNumber_toDigits (n : Nat) : readNumber (Nat.toDigits 10 n) = some n := by
  rw [readNumber, if_pos, Nat.ofDigitChars_ten_toDigits]
  exact ⟨Nat.toDigits_ne_nil, List.all_eq_true.2 fun c hc =>
    Nat.isDigit_of_mem_toDigits (by decide) (by decide) hc⟩

namespace ReqOptions

variable (b64 : LuaString → LuaString) (o : ReqOptions) (path : LuaString)

/-! ## The lines of a request -/

/-- The fields `build_req` writes before the headers of the caller. -/
def before : List (LuaString × LuaString) :=
  [("Connection".toList, (if o.keepalive.getD true then "Keep-Alive" else "close").toList),
    ("Accept-Encoding".toList, "gzip, deflate".toList),
    ("User-Agent".toList, o.userAgent.getD "Mistress/0.1".toList),
    ("Accept-Language".toList, "en-us,en;q=0.5".toList)]

/-- The fields `build_req` writes after the headers of the caller. -/
def after : List (LuaString × LuaString) :=
  (if ((o.headers.getD ∅).lookup "Accept".toList).isNone then [("Accept".toList, "*/*".toList)]
    else []) ++
  [("Host".toList, o.host.getD [])] ++
  (if 0 < (o.body.getD []).length then
    [("Content-Length".toList, Nat.toDigits 10 (o.body.getD []).length)] else []) ++
  (o.referer.toList.map fun v => ("Referer".toList, v)) ++
  (o.basicAuth.toList.map fun a =>
    ("Authorization".toList, "Basic ".toList ++ b64 (a.1 ++ ':' :: a.2))) ++
  (if o.cookies.getD [] = [] then [] else
    [("Cookie".toList, "; ".toList.intercalate
      ((o.cookies.getD []).map fun c => c.1 ++ '=' :: c.2))])

/-- The text of a field. -/
def fieldText (f : LuaString × LuaString) : LuaString := f.1 ++ ": ".toList ++ f.2

/-- The request line, up to the version. -/
def requestStart : LuaString := o.method.getD "GET".toList ++ ' ' :: (path ++ " HTTP/".toList)

/-- All fields, in the order in which they are written. -/
def fields : List (LuaString × LuaString) := o.before ++ (o.header ++ o.after b64)

variable {b64 o path} {upload : Option Upload} {host : LuaString}

theorem cookieLine_eq : cookieLine ((o.cookies.getD []).map fun c => (c.1, some c.2)) =
    .ok (if o.cookies.getD [] = [] then none else some ("Cookie: ".toList ++ "; ".toList.intercalate
      ((o.cookies.getD []).map fun c => c.1 ++ '=' :: c.2))) := by
  rw [cookieLine]
  simp only [List.map_eq_nil_iff]
  split_ifs with h
  · rfl
  · rw [mapM_makeValue, bind_ok, List.map_map]
    · rfl
    · intro pair hpair
      obtain ⟨c, -, rfl⟩ := List.mem_map.1 hpair
      rfl

theorem lines_eq (hhost : o.host = some host) (hupload : o.upload = none) :
    o.lines b64 (o.method.getD "GET".toList) path (o.body.getD []) host
      (if o.cookies.getD [] = [] then none else some ("Cookie: ".toList ++
        "; ".toList.intercalate ((o.cookies.getD []).map fun c => c.1 ++ '=' :: c.2))) =
      (o.requestStart path ++ o.httpVsn.getD "1.1".toList) :: (o.fields b64).map fieldText := by
  have hrequest : o.method.getD "GET".toList ++ " ".toList ++ path ++ " HTTP/".toList =
      o.requestStart path := by
    simp [requestStart]
  have haccept : (if ((o.headers.getD ∅).lookup "Accept".toList).isNone then
      ["Accept: */*".toList] else []) = (if ((o.headers.getD ∅).lookup "Accept".toList).isNone
      then [("Accept".toList, "*/*".toList)] else []).map fieldText := by
    split_ifs <;> rfl
  have hlength : (if 0 < (o.body.getD []).length then
      ["Content-Length: ".toList ++ Nat.toDigits 10 (o.body.getD []).length] else []) =
      (if 0 < (o.body.getD []).length then [("Content-Length".toList,
        Nat.toDigits 10 (o.body.getD []).length)] else []).map fieldText := by
    split_ifs <;> rfl
  have hreferer : o.referer.toList.map ("Referer: ".toList ++ ·) =
      (o.referer.toList.map fun v => ("Referer".toList, v)).map fieldText := by
    rw [List.map_map]
    rfl
  have hauth : (o.basicAuth.toList.map fun a =>
      "Authorization: Basic ".toList ++ b64 (a.1 ++ ':' :: a.2)) =
      (o.basicAuth.toList.map fun a =>
        ("Authorization".toList, "Basic ".toList ++ b64 (a.1 ++ ':' :: a.2))).map fieldText := by
    rw [List.map_map]
    rfl
  have hcookie : (if o.cookies.getD [] = [] then none else some ("Cookie: ".toList ++
      "; ".toList.intercalate ((o.cookies.getD []).map fun c => c.1 ++ '=' :: c.2))).toList =
      (if o.cookies.getD [] = [] then [] else [("Cookie".toList, "; ".toList.intercalate
        ((o.cookies.getD []).map fun c => c.1 ++ '=' :: c.2))]).map fieldText := by
    split_ifs <;> rfl
  have hheader : (o.header.map fun h => h.1 ++ ": ".toList ++ h.2) = o.header.map fieldText := rfl
  rw [lines, hrequest, hheader, haccept, hlength, hreferer, hauth, hcookie, hupload, fields, after,
    hhost]
  simp only [List.map_append, List.append_assoc, List.nil_append]
  rfl

/-- The request `build_req` writes. -/
theorem buildReq_eq (hhost : o.host = some host) (hupload : o.upload = none) :
    o.buildReq b64 upload path = .ok (Lines.unlines
      ((o.requestStart path ++ o.httpVsn.getD "1.1".toList) :: (o.fields b64).map fieldText) ++
        Lines.crlf ++ o.body.getD []) := by
  have hmethod : o.methodBody upload = .ok (o.method.getD "GET".toList, o.body.getD []) := by
    rw [methodBody, hupload]
  have hbreaks : "\r\n\r\n".toList = Lines.crlf ++ Lines.crlf := rfl
  rw [← Lines.intercalate_append_crlf, ← lines_eq hhost hupload, buildReq, hmethod, bind_ok]
  simp only [hupload, Option.isSome_none, Bool.false_eq_true, false_and, if_false, hhost,
    assertSome, bind_ok, cookieLine_eq, hbreaks]
  simp only [List.append_assoc]
  rfl

/-! ## The lines that are read -/

/-- The first line of a value. -/
def firstLine (v : LuaString) : LuaString := (Lines.split v).headD []

/-- The lines that a value with line breaks smuggles in. -/
def moreLines (v : LuaString) : List LuaString := (Lines.split v).tail

/-- A field without the lines its value smuggles in. -/
def firstField (f : LuaString × LuaString) : LuaString × LuaString := (f.1, firstLine f.2)

/-- What a line is read as. -/
def fieldOf (line : LuaString) : LuaString × LuaString := (readField line).getD ([], [])

variable (b64 o path)

/-- The lines smuggled in by the version or by the fields `build_req` writes itself. -/
def smuggled : List LuaString :=
  moreLines (o.httpVsn.getD "1.1".toList) ++ (o.before ++ o.after b64).flatMap (moreLines ·.2)

/-- The lines after the first one. -/
def fieldLines : List LuaString :=
  moreLines (o.httpVsn.getD "1.1".toList) ++
    (o.fields b64).flatMap fun f => fieldText (firstField f) :: moreLines f.2

/-- The path and the headers of the caller contain no end of a line. -/
structure Clean : Prop where
  path : '\r' ∉ path ∧ '\n' ∉ path
  name : ∀ f ∈ o.header, '\r' ∉ f.1 ∧ '\n' ∉ f.1
  value : ∀ f ∈ o.header, '\r' ∉ f.2 ∧ '\n' ∉ f.2

variable {b64 o path}

theorem split_eq (v : LuaString) : Lines.split v = firstLine v :: moreLines v := by
  cases h : Lines.split v with
  | nil => exact absurd h (Lines.split_ne_nil v)
  | cons l ls => rw [firstLine, moreLines, h]; rfl

theorem split_append_eq {p v : LuaString} (h : Lines.Unbroken (p ++ ['\n'])) :
    Lines.split (p ++ v) = (p ++ firstLine v) :: moreLines v := by
  rw [Lines.split_append h, split_eq v]
  rfl

/-- A value without line breaks is its first line. -/
theorem split_of_not_mem {v : LuaString} (h : '\r' ∉ v) : firstLine v = v ∧ moreLines v = [] := by
  have hsplit : Lines.split (v ++ []) = [v ++ []] :=
    Lines.split_append (Lines.unbroken_of_not_mem (by simpa using h))
  rw [List.append_nil] at hsplit
  simp [firstLine, moreLines, hsplit]

/-- The names of the fields `build_req` writes itself, if it writes them all. -/
def names : List LuaString :=
  ["Connection".toList, "Accept-Encoding".toList, "User-Agent".toList, "Accept-Language".toList,
    "Accept".toList, "Host".toList, "Content-Length".toList, "Referer".toList,
    "Authorization".toList, "Cookie".toList]

theorem name_ite (p : Prop) [Decidable p] (f : LuaString × LuaString) :
    ((if p then [f] else []).map Prod.fst).Sublist [f.1] := by
  split_ifs
  · exact .refl _
  · exact List.nil_sublist _

theorem name_option {α : Type} (x : Option α) (n : LuaString) (v : α → LuaString) :
    ((x.toList.map fun a => (n, v a)).map Prod.fst).Sublist [n] := by
  cases x with
  | none => exact List.nil_sublist _
  | some a => exact .refl _

theorem name_cookie : ((if o.cookies.getD [] = [] then [] else
    [("Cookie".toList, "; ".toList.intercalate ((o.cookies.getD []).map fun c =>
      c.1 ++ '=' :: c.2))]).map Prod.fst).Sublist ["Cookie".toList] := by
  rw [← ite_not]
  exact name_ite _ _

theorem names_sublist : ((o.before ++ o.after b64).map Prod.fst).Sublist names := by
  rw [after]
  simp only [List.map_append]
  exact (List.Sublist.refl (o.before.map Prod.fst)).append
    ((((((name_ite _ _).append (.refl _)).append (name_ite _ _)).append
      (name_option _ _ _)).append (name_option _ _ _)).append name_cookie)

theorem name_mem {f : LuaString × LuaString} (h : f ∈ o.before ++ o.after b64) : f.1 ∈ names :=
  names_sublist.subset (List.mem_map_of_mem h)

/-- `build_req` writes the length of the body, if there is one, and no other one. -/
theorem isLength_iff {f : LuaString × LuaString} (h : f ∈ o.before ++ o.after b64) :
    IsLength f ↔ f.1 = "Content-Length".toList := by
  have hnames : ∀ n ∈ names, n.map Char.toLower = "content-length".toList ↔
      n = "Content-Length".toList := by decide +kernel
  exact hnames _ (name_mem h)

theorem mem_length_iff {v : LuaString} :
    ("Content-Length".toList, v) ∈ o.before ++ o.after b64 ↔
      o.body.getD [] ≠ [] ∧ v = Nat.toDigits 10 (o.body.getD []).length := by
  -- The other fields have other names.
  have hother : ∀ {l : List (LuaString × LuaString)} (ns : List LuaString),
      (l.map Prod.fst).Sublist ns → "Content-Length".toList ∉ ns →
        (("Content-Length".toList, v) ∈ l ↔ False) := fun _ hl hns =>
    iff_false_intro fun h => hns (hl.subset (List.mem_map_of_mem (f := Prod.fst) h))
  have hbefore : ("Content-Length".toList, v) ∈ o.before ↔ False :=
    hother (names.take 4) (.refl _) (by decide)
  have haccept := hother _ (name_ite ((o.headers.getD ∅).lookup "Accept".toList).isNone
    ("Accept".toList, "*/*".toList)) (by decide)
  have hhost : ("Content-Length".toList, v) ∈ [("Host".toList, o.host.getD [])] ↔ False :=
    hother ["Host".toList] (.refl _) (by decide)
  have hreferer := hother _ (name_option o.referer "Referer".toList fun v => v) (by decide)
  have hauth := hother _ (name_option o.basicAuth "Authorization".toList fun a =>
    "Basic ".toList ++ b64 (a.1 ++ ':' :: a.2)) (by decide)
  have hcookie := hother _ (name_cookie (o := o)) (by decide)
  have hlength : ("Content-Length".toList, v) ∈ (if 0 < (o.body.getD []).length then
      [("Content-Length".toList, Nat.toDigits 10 (o.body.getD []).length)] else []) ↔
      o.body.getD [] ≠ [] ∧ v = Nat.toDigits 10 (o.body.getD []).length := by
    simp only [List.length_pos_iff]
    split_ifs with h
    · rw [List.mem_singleton, Prod.mk.injEq, and_iff_right rfl, and_iff_right h]
    · exact iff_of_false List.not_mem_nil fun hv => h hv.1
  rw [after]
  simp only [List.mem_append, hbefore, haccept, hhost, hlength, hreferer, hauth, hcookie, false_or,
    or_false]

theorem mem_fields {f : LuaString × LuaString} :
    f ∈ o.fields b64 ↔ f ∈ o.before ++ o.after b64 ∨ f ∈ o.header := by
  simp only [fields, List.mem_append]
  tauto

theorem Clean.not_mem_name (h : o.Clean path) {f : LuaString × LuaString}
    (hf : f ∈ o.fields b64) : '\r' ∉ f.1 := by
  have hnames : ∀ n ∈ names, '\r' ∉ n := by decide +kernel
  rcases mem_fields.1 hf with hf | hf
  · exact hnames _ (name_mem hf)
  · exact (h.name f hf).1

theorem split_fieldText {f : LuaString × LuaString} (h : '\r' ∉ f.1) :
    Lines.split (fieldText f) = fieldText (firstField f) :: moreLines f.2 := by
  refine split_append_eq (Lines.unbroken_of_not_mem ?_)
  simp [h]

/-- The lines of the fields, as they are written and as they are read. -/
theorem Clean.flatMap_split (h : o.Clean path) : ((o.fields b64).map fieldText).flatMap Lines.split =
    (o.fields b64).flatMap fun f => fieldText (firstField f) :: moreLines f.2 := by
  rw [List.flatMap_map]
  exact List.flatMap_congr fun f hf => split_fieldText (h.not_mem_name hf)

theorem Clean.firstField_eq (h : o.Clean path) {f : LuaString × LuaString} (hf : f ∈ o.header) :
    firstField f = f := by
  rw [firstField, (split_of_not_mem (h.value f hf).1).1]

/-- The lines after the first one are the ones smuggled in and the ones of the fields. -/
theorem Clean.fieldLines_perm (h : o.Clean path) : (o.fieldLines b64).Perm
    (o.smuggled b64 ++ (o.fields b64).map fun f => fieldText (firstField f)) := by
  have hheader : o.header.flatMap (moreLines ·.2) = [] :=
    List.flatMap_eq_nil_iff.2 fun f hf => (split_of_not_mem (h.value f hf).1).2
  have hmore : (o.fields b64).flatMap (moreLines ·.2) =
      (o.before ++ o.after b64).flatMap (moreLines ·.2) := by
    rw [fields, List.flatMap_append, List.flatMap_append, hheader, List.nil_append,
      List.flatMap_append]
  have hlines := List.map_append_flatMap_perm (o.fields b64)
    (fun f => fieldText (firstField f)) (moreLines ·.2)
  rw [hmore] at hlines
  rw [smuggled, List.append_assoc]
  exact (hlines.symm.trans List.perm_append_comm).append_left _

/-! ## What is read -/

theorem readField_isSome_iff {l : LuaString} : (readField l).isSome ↔ ':' ∈ l := by
  rw [readField, Option.isSome_map, breakAt_isSome_iff]

theorem mapM_readField_iff {ls : List LuaString} {fs : List (LuaString × LuaString)} :
    ls.mapM readField = some fs ↔ (∀ l ∈ ls, ':' ∈ l) ∧ fs = ls.map fieldOf := by
  induction ls generalizing fs with
  | nil => simp [eq_comm]
  | cons l ls ih =>
    rw [List.forall_mem_cons, ← readField_isSome_iff, List.mapM_cons, List.map_cons]
    cases hl : readField l with
    | none => simp
    | some f =>
      have hf : fieldOf l = f := by rw [fieldOf, hl, Option.getD_some]
      simp only [Option.bind_eq_bind, Option.bind_some, Option.isSome_some, true_and, hf,
        Option.bind_eq_some_iff, ih, Option.pure_def, Option.some.injEq]
      constructor
      · rintro ⟨fs', ⟨h, rfl⟩, rfl⟩
        exact ⟨h, rfl⟩
      · rintro ⟨h, rfl⟩
        exact ⟨_, ⟨h, rfl⟩, rfl⟩

/-- A name that is read has no colon. -/
theorem not_mem_fieldOf {l : LuaString} (h : ':' ∈ l) : ':' ∉ (fieldOf l).1 := by
  obtain ⟨f, hf⟩ := Option.isSome_iff_exists.1 (readField_isSome_iff.2 h)
  rw [fieldOf, hf, Option.getD_some]
  obtain ⟨p, hp, rfl⟩ := Option.map_eq_some_iff.1 hf
  exact (breakAt_eq_some hp).2

/-- A field is read as it is written. -/
theorem fieldOf_fieldText {f : LuaString × LuaString} (h : ':' ∉ f.1) :
    fieldOf (fieldText f) = f := by
  have htext : fieldText f = f.1 ++ ':' :: ' ' :: f.2 := by simp [fieldText]
  rw [fieldOf, readField, htext, breakAt_append h]
  rfl

theorem colon_mem_fieldText {f : LuaString × LuaString} : ':' ∈ fieldText f := by
  simp [fieldText]

theorem colon_not_mem {f : LuaString × LuaString} (h : ∀ f ∈ o.header, ':' ∉ f.1)
    (hf : f ∈ o.fields b64) : ':' ∉ f.1 := by
  have hnames : ∀ n ∈ names, ':' ∉ n := by decide +kernel
  rcases mem_fields.1 hf with hf | hf
  · exact hnames _ (name_mem hf)
  · exact h f hf

/-- The lines after the first one can all be read if the ones smuggled in can. -/
theorem Clean.forall_fieldLines (h : o.Clean path) :
    (∀ l ∈ o.fieldLines b64, ':' ∈ l) ↔ ∀ l ∈ o.smuggled b64, ':' ∈ l := by
  constructor
  · exact fun hl l hmem => hl l (h.fieldLines_perm.mem_iff.2 (List.mem_append_left _ hmem))
  · intro hl l hmem
    rcases List.mem_append.1 (h.fieldLines_perm.mem_iff.1 hmem) with hmem | hmem
    · exact hl l hmem
    · obtain ⟨f, -, rfl⟩ := List.mem_map.1 hmem
      exact colon_mem_fieldText

/-- The fields that are read: the ones smuggled in, and the ones that are written. -/
theorem Clean.map_fieldOf_perm (h : o.Clean path) (hname : ∀ f ∈ o.header, ':' ∉ f.1) :
    ((o.fieldLines b64).map fieldOf).Perm
      ((o.smuggled b64).map fieldOf ++ (o.fields b64).map firstField) := by
  have hfields : ((o.fields b64).map fun f => fieldText (firstField f)).map fieldOf =
      (o.fields b64).map firstField := by
    rw [List.map_map]
    refine List.map_congr_left fun f hf => ?_
    have hcolon : ':' ∉ f.1 := colon_not_mem hname hf
    exact fieldOf_fieldText (f := firstField f) hcolon
  have hperm : ((o.fieldLines b64).map fieldOf).Perm _ := h.fieldLines_perm.map fieldOf
  rwa [List.map_append, hfields] at hperm

/-- The lines of the head. -/
theorem Clean.head_eq (h : o.Clean path) :
    ((o.requestStart path ++ o.httpVsn.getD "1.1".toList) ::
      (o.fields b64).map fieldText).flatMap Lines.split =
    Lines.split (o.requestStart path ++ o.httpVsn.getD "1.1".toList) ++
      (o.fields b64).flatMap fun f => fieldText (firstField f) :: moreLines f.2 := by
  rw [List.flatMap_cons, h.flatMap_split]

theorem Clean.unbroken_start (h : o.Clean path) :
    Lines.Unbroken (o.requestStart path ++ ['\n']) ↔
      Lines.Unbroken (o.method.getD "GET".toList) := by
  have hstart : o.requestStart path ++ ['\n'] =
      o.method.getD "GET".toList ++ ' ' :: (path ++ " HTTP/\n".toList) := by
    simp [requestStart]
  have hrest : Lines.Unbroken (' ' :: (path ++ " HTTP/\n".toList)) :=
    Lines.unbroken_of_not_mem (by simp [h.path.1])
  rw [hstart, Lines.unbroken_append (by simp), and_iff_left hrest]

/-- The head, if no line break is in the method. -/
theorem Clean.head_of_unbroken (h : o.Clean path)
    (hmethod : Lines.Unbroken (o.method.getD "GET".toList)) :
    ((o.requestStart path ++ o.httpVsn.getD "1.1".toList) ::
      (o.fields b64).map fieldText).flatMap Lines.split =
    (o.requestStart path ++ firstLine (o.httpVsn.getD "1.1".toList)) :: o.fieldLines b64 := by
  rw [h.head_eq, split_append_eq (h.unbroken_start.2 hmethod)]
  rfl

theorem readRequest_eq_some_iff {s : LuaString} {r : ReadRequest} : readRequest s = some r ↔
    ∃ first lines line v, Lines.cut [] s = some (first :: lines, r.rest) ∧
      breakAt ' ' first = some (r.method, line) ∧ breakAt ' ' line = some (r.path, v) ∧
      lines.mapM readField = some r.fields := by
  obtain ⟨method, path, fields, rest⟩ := r
  constructor
  · intro h
    simp only [readRequest, Option.bind_eq_bind, Option.bind_eq_some_iff, Option.pure_def,
      Option.some.injEq, ReadRequest.mk.injEq] at h
    obtain ⟨⟨lines, rest⟩, hcut, first, hfirst, ⟨method, line⟩, hmethod, ⟨path, v⟩, hpath, fields,
      hfields, rfl, rfl, rfl, rfl⟩ := h
    obtain ⟨lines, rfl⟩ := List.head?_eq_some_iff.1 hfirst
    exact ⟨first, lines, line, v, hcut, hmethod, hpath, hfields⟩
  · rintro ⟨first, lines, line, v, hcut, hmethod, hpath, hfields⟩
    simp [readRequest, hcut, hmethod, hpath, hfields]

/-- The lines of the head have no line breaks. -/
theorem unbroken_of_mem_head {ss : List LuaString} {l : LuaString}
    (h : l ∈ ss.flatMap Lines.split) : Lines.Unbroken l := by
  obtain ⟨s, -, hl⟩ := List.mem_flatMap.1 h
  exact Lines.unbroken_of_mem_split hl

/-- The first line of the head. -/
theorem start_eq (v : LuaString) : o.requestStart path ++ v =
    o.method.getD "GET".toList ++ ' ' :: (path ++ ' ' :: ("HTTP/".toList ++ v)) := by
  simp [requestStart]

/-- What is read, if the request line and the lines smuggled in are well formed. -/
theorem Clean.readRequest_eq (h : o.Clean path)
    (hmethod : ' ' ∉ o.method.getD "GET".toList ∧ Lines.Unbroken (o.method.getD "GET".toList))
    (hpath : ' ' ∉ path) (hsmuggled : ∀ l ∈ o.smuggled b64, ':' ∈ l) :
    readRequest (Lines.unlines ((o.requestStart path ++ o.httpVsn.getD "1.1".toList) ::
      (o.fields b64).map fieldText) ++ Lines.crlf ++ o.body.getD []) =
    some ⟨o.method.getD "GET".toList, path, (o.fieldLines b64).map fieldOf, o.body.getD []⟩ := by
  have hlines : ∀ l ∈ (o.requestStart path ++ firstLine (o.httpVsn.getD "1.1".toList)) ::
      o.fieldLines b64, Lines.Unbroken l ∧ l ≠ [] := by
    intro l hl
    refine ⟨unbroken_of_mem_head ((h.head_of_unbroken hmethod.2).symm ▸ hl), ?_⟩
    rcases List.mem_cons.1 hl with rfl | hl
    · rw [start_eq]
      exact List.append_ne_nil_of_right_ne_nil _ (List.cons_ne_nil _ _)
    · exact List.ne_nil_of_mem (h.forall_fieldLines.2 hsmuggled l hl)
  rw [← Lines.unlines_flatMap_split, h.head_of_unbroken hmethod.2, readRequest_eq_some_iff]
  exact ⟨_, _, _, _, Lines.cut_unlines hlines, by rw [start_eq, breakAt_append hmethod.1],
    breakAt_append hpath, mapM_readField_iff.2 ⟨h.forall_fieldLines.2 hsmuggled, rfl⟩⟩

/-- What is read is what is asked for only if the request line and the lines smuggled in are
    well formed. -/
theorem Clean.of_readRequest {r : ReadRequest} (h : o.Clean path)
    (hr : readRequest (Lines.unlines ((o.requestStart path ++ o.httpVsn.getD "1.1".toList) ::
      (o.fields b64).map fieldText) ++ Lines.crlf ++ o.body.getD []) = some r)
    (hmethod : r.method = o.method.getD "GET".toList) (hpath : r.path = path)
    (hrest : r.rest = o.body.getD []) :
    (' ' ∉ o.method.getD "GET".toList ∧ Lines.Unbroken (o.method.getD "GET".toList)) ∧
      ' ' ∉ path ∧ ∀ l ∈ o.smuggled b64, ':' ∈ l := by
  obtain ⟨first, lines, line, v, hcut, hfirst, hline, hfields⟩ := readRequest_eq_some_iff.1 hr
  rw [← Lines.unlines_flatMap_split] at hcut
  have hunbroken : ∀ l ∈ ((o.requestStart path ++ o.httpVsn.getD "1.1".toList) ::
      (o.fields b64).map fieldText).flatMap Lines.split, Lines.Unbroken l := fun _ =>
    unbroken_of_mem_head
  -- With an empty line in the head, more than the body would be left.
  by_cases hnil : [] ∈ ((o.requestStart path ++ o.httpVsn.getD "1.1".toList) ::
      (o.fields b64).map fieldText).flatMap Lines.split
  · obtain ⟨r', hr', hlt⟩ := Lines.cut_unlines_of_mem (s := o.body.getD []) hunbroken hnil
    rw [hcut] at hr'
    obtain rfl := Option.some.inj hr'
    rw [hrest] at hlt
    exact absurd hlt (lt_irrefl _)
  · rw [Lines.cut_unlines fun l hl => ⟨hunbroken l hl, fun heq => hnil (heq ▸ hl)⟩] at hcut
    have hhead := (Prod.mk.inj (Option.some.inj hcut)).1
    obtain ⟨hfirst, hspace⟩ := breakAt_eq_some hfirst
    rw [hmethod] at hfirst hspace
    have hbroken : Lines.Unbroken (o.method.getD "GET".toList) := by
      refine (hunbroken first (hhead ▸ List.mem_cons_self)).of_isPrefix ?_
      rw [hfirst]
      exact List.prefix_append _ _
    rw [h.head_of_unbroken hbroken, start_eq] at hhead
    obtain ⟨heq, rfl⟩ := List.cons.inj hhead
    obtain ⟨-, hspacePath⟩ := breakAt_eq_some hline
    rw [hpath] at hspacePath
    exact ⟨⟨hspace, hbroken⟩, hspacePath,
      h.forall_fieldLines.1 (mapM_readField_iff.1 hfields).1⟩

/-! ## Serialization -/

variable (b64 o path)

/-- The options from which `build_req` makes an unambiguous request. -/
structure Regular : Prop where
  method : ' ' ∉ o.method.getD "GET".toList ∧ Lines.Unbroken (o.method.getD "GET".toList)
  path : ' ' ∉ path
  name : ∀ f ∈ o.header, ':' ∉ f.1
  smuggled : ∀ l ∈ o.smuggled b64, ':' ∈ l
  distinct : (((o.smuggled b64).map fieldOf ++ (o.before ++ o.after b64 ++ o.header)).map
    lowerName).Nodup
  length : o.body.getD [] = [] → (∀ l ∈ o.smuggled b64, ¬ IsLength (fieldOf l)) ∧
    ∀ f ∈ o.header, IsLength f → readNumber f.2 = some 0

/-- The fields that are read account for what has been asked for. -/
structure Accounts (fs : List (LuaString × LuaString)) : Prop where
  header : ∀ f ∈ o.header, fs.count f = 1
  distinct : (fs.map lowerName).Nodup
  length_iff : (∃ f ∈ fs, IsLength f) ↔ o.body.getD [] ≠ [] ∨ ∃ f ∈ o.header, IsLength f
  length : ∀ f ∈ fs, IsLength f → readNumber f.2 = some (o.body.getD []).length

variable {b64 o path} {fs : List (LuaString × LuaString)}

/-- The number of the body's length, as it is read. -/
theorem firstField_length (n : Nat) : firstField ("Content-Length".toList, Nat.toDigits 10 n) =
    ("Content-Length".toList, Nat.toDigits 10 n) := by
  have hdigits : '\r' ∉ Nat.toDigits 10 n := fun hmem =>
    absurd (Nat.isDigit_of_mem_toDigits (by decide) (by decide) hmem) (by decide)
  rw [firstField, (split_of_not_mem hdigits).1]

theorem fields_perm : (o.fields b64).Perm (o.before ++ o.after b64 ++ o.header) := by
  rw [fields, List.append_assoc]
  exact List.perm_append_comm.append_left _

section Accounts

variable (h : o.Clean path)
  (hfs : fs.Perm ((o.smuggled b64).map fieldOf ++ (o.fields b64).map firstField))
include h hfs

theorem Clean.mem_read {f : LuaString × LuaString} : f ∈ fs ↔ (∃ l ∈ o.smuggled b64, fieldOf l = f) ∨
    (∃ g ∈ o.before ++ o.after b64, firstField g = f) ∨ f ∈ o.header := by
  have hheader : (∃ g ∈ o.header, firstField g = f) ↔ f ∈ o.header := by
    constructor
    · rintro ⟨g, hg, rfl⟩
      rwa [h.firstField_eq hg]
    · exact fun hf => ⟨f, hf, h.firstField_eq hf⟩
  rw [hfs.mem_iff, List.mem_append, List.mem_map, List.mem_map, ← hheader]
  simp only [mem_fields, or_and_right, exists_or]

omit h in
theorem nodup_read : (fs.map lowerName).Nodup ↔
    (((o.smuggled b64).map fieldOf ++ (o.before ++ o.after b64 ++ o.header)).map
      lowerName).Nodup := by
  have hfirst : ((o.fields b64).map firstField).map lowerName = (o.fields b64).map lowerName := by
    rw [List.map_map]
    rfl
  have hperm := hfs.map lowerName
  rw [List.map_append, hfirst] at hperm
  rw [List.map_append]
  exact (hperm.trans ((fields_perm.map lowerName).append_left _)).nodup_iff

theorem Accounts.of_regular (hr : o.Regular b64 path) : o.Accounts fs := by
  have hmem := fun {f} => h.mem_read hfs (f := f)
  have hnodup := (nodup_read hfs).2 hr.distinct
  refine ⟨?_, hnodup, ⟨?_, ?_⟩, ?_⟩
  · intro f hf
    exact List.count_eq_one_of_mem hnodup.of_map (hmem.2 (.inr (.inr hf)))
  · rintro ⟨f, hf, hlength⟩
    by_contra hor
    obtain ⟨hbody, hheader⟩ := not_or.1 hor
    rcases hmem.1 hf with ⟨l, hl, rfl⟩ | ⟨g, hg, rfl⟩ | hf
    · exact (hr.length (not_not.1 hbody)).1 l hl hlength
    · obtain ⟨n, v⟩ := g
      obtain rfl : n = _ := (isLength_iff hg).1 hlength
      exact hbody (mem_length_iff.1 hg).1
    · exact hheader ⟨f, hf, hlength⟩
  · rintro (hbody | ⟨f, hf, hlength⟩)
    · have hg : ("Content-Length".toList, Nat.toDigits 10 (o.body.getD []).length) ∈
          o.before ++ o.after b64 := mem_length_iff.2 ⟨hbody, rfl⟩
      exact ⟨_, hmem.2 (.inr (.inl ⟨_, hg, rfl⟩)), (isLength_iff hg).2 rfl⟩
    · exact ⟨f, hmem.2 (.inr (.inr hf)), hlength⟩
  · intro f hf hlength
    by_cases hbody : o.body.getD [] = []
    · rcases hmem.1 hf with ⟨l, hl, rfl⟩ | ⟨g, hg, rfl⟩ | hf
      · exact absurd hlength ((hr.length hbody).1 l hl)
      · obtain ⟨n, v⟩ := g
        obtain rfl : n = _ := (isLength_iff hg).1 hlength
        exact absurd hbody (mem_length_iff.1 hg).1
      · rw [hbody]
        exact (hr.length hbody).2 f hf hlength
    · -- It is the one `build_req` writes.
      have hg : ("Content-Length".toList, Nat.toDigits 10 (o.body.getD []).length) ∈
          o.before ++ o.after b64 := mem_length_iff.2 ⟨hbody, rfl⟩
      have hwritten := hmem.2 (.inr (.inl ⟨_, hg, firstField_length _⟩))
      obtain rfl := List.inj_on_of_nodup_map hnodup hf hwritten
        (hlength.trans ((isLength_iff hg).2 rfl).symm)
      exact readNumber_toDigits _

theorem Accounts.length_of (ha : o.Accounts fs) (hbody : o.body.getD [] = []) :
    (∀ l ∈ o.smuggled b64, ¬ IsLength (fieldOf l)) ∧
      ∀ f ∈ o.header, IsLength f → readNumber f.2 = some 0 := by
  have hmem := fun {f} => h.mem_read hfs (f := f)
  constructor
  · intro l hl hlength
    -- The caller has given one as well.
    obtain hne | ⟨f, hf, hlength'⟩ := ha.length_iff.1 ⟨_, hmem.2 (.inl ⟨l, hl, rfl⟩), hlength⟩
    · exact hne hbody
    · have hnodup := (nodup_read hfs).1 ha.distinct
      rw [List.map_append, List.nodup_append] at hnodup
      exact hnodup.2.2 _ (List.mem_map_of_mem (List.mem_map_of_mem hl)) _
        (List.mem_map_of_mem (List.mem_append_right _ hf)) (hlength.trans hlength'.symm)
  · intro f hf hlength
    have hnumber := ha.length f (hmem.2 (.inr (.inr hf))) hlength
    rwa [hbody] at hnumber

end Accounts

theorem Regular.serialized (hhost : o.host = some host) (hupload : o.upload = none)
    (h : o.Clean path) (hr : o.Regular b64 path) : Serialized b64 upload o path := by
  have ha := Accounts.of_regular h (h.map_fieldOf_perm hr.name) hr
  exact ⟨_, _, buildReq_eq hhost hupload, h.readRequest_eq hr.method hr.path hr.smuggled, rfl, rfl,
    rfl, ha.header, ha.distinct, ha.length_iff, ha.length⟩

theorem regular_of_serialized (hhost : o.host = some host) (hupload : o.upload = none)
    (h : o.Clean path) (hs : Serialized b64 upload o path) : o.Regular b64 path := by
  obtain ⟨s, r, hbuild, hread, hmethod, hpath, hrest, hheader, hdistinct, hiff, hlength⟩ := hs
  rw [buildReq_eq hhost hupload] at hbuild
  obtain rfl := Except.ok.inj hbuild
  obtain ⟨hm, hp, hsmuggled⟩ := h.of_readRequest hread hmethod hpath hrest
  obtain rfl := Option.some.inj ((h.readRequest_eq hm hp hsmuggled).symm.trans hread)
  -- A name with a colon is never read.
  have hname : ∀ f ∈ o.header, ':' ∉ f.1 := by
    intro f hf
    have hmem : f ∈ (o.fieldLines b64).map fieldOf :=
      List.one_le_count_iff.1 (hheader f hf).ge
    obtain ⟨l, hl, rfl⟩ := List.mem_map.1 hmem
    exact not_mem_fieldOf (h.forall_fieldLines.2 hsmuggled l hl)
  have hfs : ((o.fieldLines b64).map fieldOf).Perm _ := h.map_fieldOf_perm hname
  have ha : o.Accounts ((o.fieldLines b64).map fieldOf) := ⟨hheader, hdistinct, hiff, hlength⟩
  exact ⟨hm, hp, hname, hsmuggled, (nodup_read hfs).1 hdistinct, ha.length_of h hfs⟩

/-- A request is **serialized** if and only if its options are regular. -/
theorem serialized_iff (hhost : o.host = some host) (hupload : o.upload = none)
    (h : o.Clean path) : Serialized b64 upload o path ↔ o.Regular b64 path :=
  ⟨regular_of_serialized hhost hupload h, Regular.serialized hhost hupload h⟩

/-- The options of a `POST`, with a body, two cookies and two headers of the caller. -/
def posting : ReqOptions where
  method := some "POST".toList
  host := some "example.com".toList
  body := some "a: b\r\n\r\nc".toList
  keepalive := some true
  cookies := some [("k".toList, "1".toList), ("l".toList, "2".toList)]
  headers := some (AList.insert "X-A".toList "x: y".toList
    (AList.insert "Content-Type".toList "text/plain".toList ∅))

theorem serialized_posting : Serialized id none posting "/p?q".toList :=
  (serialized_iff rfl rfl ⟨by decide, by decide +kernel, by decide +kernel⟩).2
    ⟨by decide +kernel, by decide, by decide +kernel, by decide +kernel, by decide +kernel,
      fun _ => ⟨by decide +kernel, by decide +kernel⟩⟩

/-- The options for a host, with a header of the caller. -/
def withHeader (name : LuaString) : ReqOptions where
  host := some ['h']
  headers := some (AList.insert name ['x'] ∅)

/-- A `Host` header of the caller is there twice. -/
theorem not_serialized : ¬ ∀ (b64 : LuaString → LuaString) upload (o : ReqOptions) path host,
    o.host = some host → o.upload = none → o.Clean path → Serialized b64 upload o path := by
  intro hall
  have hclean : (withHeader "Host".toList).Clean ['/'] :=
    ⟨by decide, by decide +kernel, by decide +kernel⟩
  have hregular : (withHeader "Host".toList).Regular id ['/'] :=
    regular_of_serialized rfl rfl hclean
      (hall id none _ ['/'] ['h'] rfl rfl hclean)
  exact absurd hregular.distinct (by decide +kernel)

end ReqOptions

end Mistress
