import Mistress.HandleCookies

/-!
# Echoing a cookie

A `Set-Cookie` header (`SetCookie`) gives a name, a value and attributes, each
surrounded by white space, with more semicolons between and after them than
needed. A session *echoes* it (`Echoes`) if `handle_cookies` reads it without
raising and the next request to the same host and a matching path carries the
cookie, name and value byte for byte.

`echoes_iff` says which headers are echoed. Both splitters of `handle_cookies`
drop empty fields and know nothing of the number of fields there is to be:

* a value with an equality sign is cut off there, an empty one is a missing one,
  on which `handle_cookies` raises, and so is a path cut off;
* white space alone between two semicolons is an attribute without a name.

Moreover, a domain that covers the host is only looked up with a leading dot.
-/

namespace Mistress

open Utils LuaPattern

/-! ## Headers -/

/-- A character of a token. -/
def isTokenChar (c : Char) : Bool :=
  33 ≤ c.toNat && c.toNat ≤ 126 && c ∉ "()<>@,;:\\\"/[]?=\x7b\x7d".toList

/-- A character of an unquoted cookie value. -/
def isCookieOctet (c : Char) : Bool :=
  33 ≤ c.toNat && c.toNat ≤ 126 && c ∉ ['"', ',', ';', '\\']

/-- A character of the value of an attribute. -/
def isAttrChar (c : Char) : Bool := 33 ≤ c.toNat && c.toNat ≤ 126 && c ≠ ';'

abbrev Token := { s : LuaString // s ≠ [] ∧ ∀ c ∈ s, isTokenChar c }

abbrev CookieValue := { s : LuaString // ∀ c ∈ s, isCookieOctet c }

abbrev AttrValue := { s : LuaString // ∀ c ∈ s, isAttrChar c }

abbrev PathValue := { s : LuaString // s.head? = some '/' ∧ ∀ c ∈ s, isAttrChar c }

abbrev DomainValue := { s : LuaString // s ≠ [] ∧ ∀ c ∈ s, isAttrChar c ∧ c ≠ '=' }

abbrev Space := { s : LuaString // ∀ c ∈ s, isSpace c }

/-- An attribute; the ones the source knows with two spellings may be capitalised. -/
inductive Attr where
  | path (capital : Bool) (v : PathValue)
  | expires (capital : Bool) (date : HttpDate)
  | domain (capital : Bool) (v : DomainValue)
  | httpOnly
  | maxAge (v : AttrValue)

namespace Attr

/-- The name of an attribute. -/
def name : Attr → LuaString
  | .path capital _ => if capital then "Path".toList else "path".toList
  | .expires capital _ => if capital then "Expires".toList else "expires".toList
  | .domain capital _ => if capital then "Domain".toList else "domain".toList
  | .httpOnly => "HttpOnly".toList
  | .maxAge _ => "Max-Age".toList

/-- The text of an attribute. -/
def text : Attr → LuaString
  | .path capital v => (path capital v).name ++ '=' :: v
  | .expires capital date => (expires capital date).name ++ '=' :: date.text
  | .domain capital v => (domain capital v).name ++ '=' :: v
  | .httpOnly => httpOnly.name
  | .maxAge v => (maxAge v).name ++ '=' :: v

def path? : Attr → Option PathValue
  | .path _ v => some v
  | _ => none

def expires? : Attr → Option HttpDate
  | .expires _ date => some date
  | _ => none

def domain? : Attr → Option DomainValue
  | .domain _ v => some v
  | _ => none

end Attr

/-- What stands between two semicolons: an attribute or nothing, with white space
    around it. -/
structure Segment where
  before : Space
  attr : Option Attr
  after : Space

namespace Segment

/-- The segment without the white space around it. -/
def content (seg : Segment) : LuaString := (seg.attr.map Attr.text).getD []

def text (seg : Segment) : LuaString := seg.before ++ seg.content ++ seg.after

end Segment

/-- A `Set-Cookie` header. -/
structure SetCookie where
  before : Space
  name : Token
  value : CookieValue
  after : Space
  segments : List Segment

namespace SetCookie

/-- The name and the value, as in a `Cookie` header. -/
def pair (c : SetCookie) : LuaString := c.name ++ '=' :: c.value

/-- The text of the header. -/
def text (c : SetCookie) : LuaString :=
  [';'].intercalate ((c.before ++ c.pair ++ c.after) :: c.segments.map Segment.text)

def attrs (c : SetCookie) : List Attr := c.segments.filterMap Segment.attr

/-- The path: the last one given. -/
def path (c : SetCookie) : LuaString :=
  ((c.attrs.filterMap Attr.path?).getLast?.map Subtype.val).getD "/".toList

/-- The domain given, if any. -/
def domain? (c : SetCookie) : Option LuaString :=
  (c.attrs.filterMap Attr.domain?).getLast?.map Subtype.val

/-- The domain of the cookie in a response from `host`. -/
def domain (c : SetCookie) (host : LuaString) : LuaString := c.domain?.getD host

/-- The time of the expiry, if there is one. -/
def expires (c : SetCookie) : Option Int :=
  (c.attrs.filterMap Attr.expires?).getLast?.bind HttpDate.time

/-- What identifies the cookie. -/
def key (c : SetCookie) (host : LuaString) : Cookie.Key := ⟨c.domain host, c.path, c.name⟩

/-- Whether the cookie may be sent to the host: the domain given, if any, is the
    host itself or a domain of at least two parts the host belongs to, a leading
    dot being ignored. -/
def Covers (c : SetCookie) (host : LuaString) : Prop :=
  ∀ d ∈ c.domain?, let d' := if d.head? = some '.' then d.tail else d
    d' = host ∨ '.' ∈ d' ∧ '.' :: d' <:+ host

open Session in
/-- A session **echoes** the header of a response from `host`: whatever the
    store, `handle_cookies` does not raise and, if the store held no such cookie,
    a request to the host for a matching path, with other cookies or not, carries
    the cookie until it expires. -/
def Echoes (c : SetCookie) (host : LuaString) : Prop :=
  ∀ (s : Cookies) (now : Int), s.Sound →
    ∃ s', handleCookies s [c.text] host now = .ok s' ∧
      (c.value.1 ≠ [] → c.Covers host → s.get (c.key host) = none →
        ∀ path cookies later, now ≤ later → c.expires.all (later < ·) → startswith path c.path →
          ∃ pairs, cookieHeader s' host path cookies later =
            .ok (some ("Cookie: ".toList ++ "; ".toList.intercalate pairs)) ∧ c.pair ∈ pairs)

/-- `handle_cookies` does not raise on the header: its value is made of more than
    equality signs, and what has white space only is empty. -/
def Readable (c : SetCookie) : Prop :=
  (∃ x ∈ c.value.1, x ≠ '=') ∧ ∀ seg ∈ c.segments, seg.attr = none → seg.text = []

/-- The value is kept whole, the domain is looked up, and the path is kept whole,
    unless there is no expiry by which the cookie could be taken for one removed. -/
def Kept (c : SetCookie) (host : LuaString) : Prop :=
  '=' ∉ c.value.1 ∧ c.domain host ∈ Cookies.masks host ∧ ('=' ∈ c.path → c.expires = none)

end SetCookie

/-! ## Reading a header -/

/-- The first field of a string, between equality signs. -/
def field (s : LuaString) : LuaString := (split s '=').head?.getD []

theorem field_of_not_mem {s : LuaString} (h : '=' ∉ s) : field s = s := by
  rcases s.eq_nil_or_concat with rfl | ⟨r, x, rfl⟩
  · simp [field]
  · rw [field, split_of_not_mem (by simp) h]
    rfl

theorem head_split_eq_field {s : LuaString} (h : split s '=' ≠ []) :
    (split s '=').head? = some (field s) := by
  cases hs : split s '=' with
  | nil => exact absurd hs h
  | cons f fs => rw [field, hs]; rfl

theorem isSpace_of_visible {c : Char} (hc : 33 ≤ c.toNat) : isSpace c = false := by
  have hne : c ≠ ' ' := by
    rintro rfl
    exact absurd hc (by decide)
  simp only [isSpace, hne, decide_false, Bool.false_or, Bool.and_eq_false_iff, decide_eq_false_iff_not]
  omega

/-- What names are made of. -/
abbrev Plain (n : LuaString) : Prop :=
  n ≠ [] ∧ ∀ x ∈ n, x ≠ '=' ∧ x ≠ ';' ∧ isSpace x = false

theorem plain_of_all {n : LuaString} (hne : n ≠ [])
    (h : n.all (fun x => x != '=' && x != ';' && !isSpace x) = true) : Plain n :=
  ⟨hne, by simpa [and_assoc] using h⟩

/-- A name, followed by a value or not, has no semicolon and no white space at its
    ends. -/
theorem plain_chars {n s : LuaString} (hn : Plain n)
    (hs : s = n ∨ ∃ v, s = n ++ '=' :: v ∧ ';' ∉ v ∧ ∀ x ∈ v.getLast?, isSpace x = false) :
    s ≠ [] ∧ ';' ∉ s ∧ Trimmed s := by
  obtain ⟨hne, hname⟩ := hn
  have hsemi : ';' ∉ n := fun h => (hname _ h).2.1 rfl
  have hhead : ∀ r, ∀ x ∈ (n ++ r).head?, isSpace x = false := fun r x hx =>
    (hname x (List.mem_of_mem_head? (by rwa [List.head?_append_of_ne_nil _ hne] at hx))).2.2
  rcases hs with rfl | ⟨v, rfl, hv, hlast⟩
  · exact ⟨hne, hsemi, by simpa using hhead [],
      fun x hx => (hname x (List.mem_of_getLast? hx)).2.2⟩
  · refine ⟨by simp, by simp [hsemi, hv], hhead _, ?_⟩
    rw [List.getLast?_append_of_ne_nil _ (List.cons_ne_nil _ _), List.getLast?_cons]
    rintro _ ⟨⟩
    cases hx : v.getLast? with
    | none => decide
    | some x => exact hlast x hx

namespace Attr

/-- What an attribute says about a cookie. -/
def apply (cookie : Session.RawCookie) : Attr → Session.RawCookie
  | .path _ v => { cookie with path := some (field v) }
  | .expires _ date => { cookie with expires := date.time }
  | .domain _ v => { cookie with domain := some v }
  | .httpOnly => cookie
  | .maxAge _ => cookie

/-- The name of an attribute is made of letters and dashes. -/
theorem plain_name (a : Attr) : Plain a.name := by
  have hpath : ∀ b : Bool, Plain (if b then "Path".toList else "path".toList) := fun b =>
    plain_of_all (by decide +revert) (by decide +revert)
  have hexpires : ∀ b : Bool, Plain (if b then "Expires".toList else "expires".toList) := fun b =>
    plain_of_all (by decide +revert) (by decide +revert)
  have hdomain : ∀ b : Bool, Plain (if b then "Domain".toList else "domain".toList) := fun b =>
    plain_of_all (by decide +revert) (by decide +revert)
  have hhttpOnly : Plain "HttpOnly".toList := plain_of_all (by decide) (by decide)
  have hmaxAge : Plain "Max-Age".toList := plain_of_all (by decide) (by decide)
  cases a with
  | path b _ => exact hpath b
  | expires b _ => exact hexpires b
  | domain b _ => exact hdomain b
  | httpOnly => exact hhttpOnly
  | maxAge _ => exact hmaxAge

theorem split_path_ne_nil (v : PathValue) : split v.1 '=' ≠ [] := by
  intro h
  have hslash := split_eq_nil_iff.1 h '/' (List.mem_of_mem_head? v.2.1)
  exact absurd hslash (by decide)

theorem text_date_ne_nil (date : HttpDate) : date.text ≠ [] := by simp [HttpDate.text]

theorem not_mem_date (date : HttpDate) : '=' ∉ date.text ∧ ';' ∉ date.text := by
  constructor <;> intro h <;> rcases date.text_chars _ h with h | h | h | h | h <;>
    exact absurd h (by decide)

/-- `handle_cookies` understands the attributes. -/
theorem setAttribute_text (now : Int) (cookie : Session.RawCookie) (a : Attr) :
    Session.setAttribute now cookie (split a.text '=') = .ok (a.apply cookie) := by
  have hname := a.plain_name.1
  have hsep : '=' ∉ a.name := fun h => (a.plain_name.2 _ h).1 rfl
  cases a with
  | path capital v =>
    rw [text, split_append_sep hname hsep, Session.setAttribute,
      head_split_eq_field (split_path_ne_nil v)]
    cases capital <;> rfl
  | expires capital date =>
    rw [text, split_append_sep hname hsep,
      split_of_not_mem (text_date_ne_nil date) (not_mem_date date).1]
    have hset : Session.setAttribute now cookie [(expires capital date).name, date.text] =
        expiresToTimestamp date.text now >>= fun e => .ok { cookie with expires := e } := by
      cases capital <;> rfl
    rw [hset, HttpDate.expiresToTimestamp_text]
    rfl
  | domain capital v =>
    have hv : '=' ∉ v.1 := fun h => (v.2.2 _ h).2 rfl
    rw [text, split_append_sep hname hsep, Session.setAttribute, split_of_not_mem v.2.1 hv]
    cases capital <;> rfl
  | httpOnly =>
    rw [text, split_of_not_mem hname hsep]
    rfl
  | maxAge v =>
    rw [text, split_append_sep hname hsep]
    rfl

theorem isAttrChar_iff {c : Char} (h : isAttrChar c) : c ≠ ';' ∧ isSpace c = false := by
  simp only [isAttrChar, Bool.and_eq_true, decide_eq_true_eq] at h
  exact ⟨h.2, isSpace_of_visible h.1.1⟩

/-- What follows the name of an attribute. -/
theorem text_eq (a : Attr) : a.text = a.name ∨ ∃ v, a.text = a.name ++ '=' :: v ∧ ';' ∉ v ∧
    ∀ x ∈ v.getLast?, isSpace x = false := by
  have hchars : ∀ v : LuaString, (∀ x ∈ v, isAttrChar x) →
      ';' ∉ v ∧ ∀ x ∈ v.getLast?, isSpace x = false := fun v hv =>
    ⟨fun h => (isAttrChar_iff (hv _ h)).1 rfl,
      fun x hx => (isAttrChar_iff (hv x (List.mem_of_getLast? hx))).2⟩
  cases a with
  | path b v => exact .inr ⟨v, rfl, hchars v v.2.2⟩
  | expires b date =>
    refine .inr ⟨date.text, rfl, (not_mem_date date).2, ?_⟩
    have hlast : date.text.getLast? = some 'T' := by
      simp [HttpDate.text, List.getLast?_append, List.getLast?_cons]
    rw [hlast]
    rintro _ ⟨⟩
    decide
  | domain b v => exact .inr ⟨v, rfl, hchars v fun x hx => (v.2.2 x hx).1⟩
  | httpOnly => exact .inl rfl
  | maxAge v => exact .inr ⟨v, rfl, hchars v v.2⟩

/-- The text of an attribute has no semicolon, and no white space at its ends. -/
theorem text_chars (a : Attr) : a.text ≠ [] ∧ ';' ∉ a.text ∧ Trimmed a.text :=
  plain_chars a.plain_name a.text_eq

end Attr

theorem semicolon_not_mem_space (ws : Space) : ';' ∉ ws.1 := fun h =>
  absurd (ws.2 _ h) (by decide)

namespace Segment

theorem content_chars (seg : Segment) : ';' ∉ seg.content ∧ Trimmed seg.content := by
  cases h : seg.attr with
  | none => simp [content, h, Trimmed]
  | some a => simpa [content, h] using a.text_chars.2

theorem semicolon_not_mem (seg : Segment) : ';' ∉ seg.text := by
  simp [text, seg.content_chars.1, semicolon_not_mem_space]

theorem trim_text (seg : Segment) : trim seg.text = seg.content :=
  trim_pad seg.before.2 seg.content_chars.2 seg.after.2

theorem text_ne_nil {seg : Segment} {a : Attr} (h : seg.attr = some a) : seg.text ≠ [] := by
  simp [text, content, h, a.text_chars.1]

end Segment

/-- The attributes of a header, one after the other: the last of each kind counts. -/
theorem foldl_apply (as : List Attr) (cookie : Session.RawCookie) : as.foldl Attr.apply cookie =
    { cookie with
      path := ((as.filterMap Attr.path?).getLast?.map (field ·.1)).or cookie.path
      domain := ((as.filterMap Attr.domain?).getLast?.map Subtype.val).or cookie.domain
      expires := ((as.filterMap Attr.expires?).getLast?.map HttpDate.time).getD cookie.expires } := by
  induction as generalizing cookie with
  | nil => rfl
  | cons a as ih =>
    rw [List.foldl_cons, ih]
    cases a with
    | path b v =>
      simp only [Attr.apply, Attr.path?, Attr.domain?, Attr.expires?, List.filterMap_cons,
        List.getLast?_cons]
      cases (as.filterMap Attr.path?).getLast? <;> rfl
    | expires b date =>
      simp only [Attr.apply, Attr.path?, Attr.domain?, Attr.expires?, List.filterMap_cons,
        List.getLast?_cons]
      cases (as.filterMap Attr.expires?).getLast? <;> rfl
    | domain b v =>
      simp only [Attr.apply, Attr.path?, Attr.domain?, Attr.expires?, List.filterMap_cons,
        List.getLast?_cons]
      cases (as.filterMap Attr.domain?).getLast? <;> rfl
    | httpOnly => rfl
    | maxAge v => rfl

namespace SetCookie

/-- The cookie `handle_cookies` makes of a header: its value and its path are cut
    off at an equality sign. -/
def stored (c : SetCookie) (host : LuaString) : Cookie where
  name := c.name
  value := some (field c.value)
  path := field c.path
  domain := c.domain host
  expires := c.expires

variable {c : SetCookie} {host : LuaString} {now : Int}

theorem isTokenChar_iff {x : Char} (h : isTokenChar x) :
    x ≠ '=' ∧ x ≠ ';' ∧ isSpace x = false := by
  simp only [isTokenChar, Bool.and_eq_true, decide_eq_true_eq] at h
  refine ⟨?_, ?_, isSpace_of_visible h.1.1⟩
  · rintro rfl
    exact absurd h.2 (by decide)
  · rintro rfl
    exact absurd h.2 (by decide)

theorem isCookieOctet_iff {x : Char} (h : isCookieOctet x) :
    x ≠ '"' ∧ x ≠ ';' ∧ isSpace x = false := by
  simp only [isCookieOctet, Bool.and_eq_true, decide_eq_true_eq] at h
  refine ⟨?_, ?_, isSpace_of_visible h.1.1⟩
  · rintro rfl
    exact absurd h.2 (by decide)
  · rintro rfl
    exact absurd h.2 (by decide)

theorem plain_token (c : SetCookie) : Plain c.name.1 :=
  ⟨c.name.2.1, fun x hx => isTokenChar_iff (c.name.2.2 x hx)⟩

theorem pair_chars (c : SetCookie) : c.pair ≠ [] ∧ ';' ∉ c.pair ∧ Trimmed c.pair :=
  plain_chars c.plain_token (.inr ⟨c.value, rfl, fun h => (isCookieOctet_iff (c.value.2 _ h)).2.1 rfl,
    fun x hx => (isCookieOctet_iff (c.value.2 x (List.mem_of_getLast? hx))).2.2⟩)

/-- The parts of a header, trimmed: what is not empty between two semicolons. -/
theorem map_trim_split (c : SetCookie) : (split c.text ';').map trim =
    c.pair :: (c.segments.filter (·.text ≠ [])).map Segment.content := by
  obtain ⟨hne, hsemi, htrim⟩ := c.pair_chars
  have hsep : ∀ f ∈ (c.before ++ c.pair ++ c.after) :: c.segments.map Segment.text, ';' ∉ f := by
    intro f hf
    rcases List.mem_cons.1 hf with rfl | hf
    · simp [hsemi, semicolon_not_mem_space]
    · obtain ⟨seg, _, rfl⟩ := List.mem_map.1 hf
      exact seg.semicolon_not_mem
  rw [text, split_intercalate hsep, List.filter_cons_of_pos (by simp [hne]), List.map_cons,
    trim_pad c.before.2 htrim c.after.2, List.filter_map, List.map_map]
  refine congrArg _ (List.map_congr_left fun seg _ => seg.trim_text)

theorem foldlM_attrs (as : List Attr) (cookie : Session.RawCookie) :
    (as.map fun a => split a.text '=').foldlM (Session.setAttribute now) cookie =
      .ok (as.foldl Attr.apply cookie) := by
  induction as generalizing cookie with
  | nil => rfl
  | cons a as ih => rw [List.map_cons, List.foldlM_cons, Attr.setAttribute_text, bind_ok, ih]; rfl

/-- A segment of white space makes `handle_cookies` raise. -/
theorem blank_of_foldlM {segs : List Segment} {cookie cookie' : Session.RawCookie}
    (h : ((segs.filter (·.text ≠ [])).map fun seg => split seg.content '=').foldlM
      (Session.setAttribute now) cookie = .ok cookie') :
    ∀ seg ∈ segs, seg.attr = none → seg.text = [] := by
  induction segs generalizing cookie with
  | nil => simp
  | cons seg segs ih =>
    by_cases htext : seg.text = []
    · rw [List.filter_cons_of_neg (by simp [htext])] at h
      exact List.forall_mem_cons.2 ⟨fun _ => htext, ih h⟩
    · rw [List.filter_cons_of_pos (by simp [htext]), List.map_cons, List.foldlM_cons] at h
      obtain ⟨_, hseg, h⟩ := bind_eq_ok.1 h
      refine List.forall_mem_cons.2 ⟨fun hattr => ?_, ih h⟩
      simp [Segment.content, hattr, Session.setAttribute] at hseg

/-- Without such segments, there are the attributes. -/
theorem contents_eq {segs : List Segment} (h : ∀ seg ∈ segs, seg.attr = none → seg.text = []) :
    (segs.filter (·.text ≠ [])).map Segment.content =
      (segs.filterMap Segment.attr).map Attr.text := by
  induction segs with
  | nil => rfl
  | cons seg segs ih =>
    obtain ⟨hseg, hsegs⟩ := List.forall_mem_cons.1 h
    cases ha : seg.attr with
    | none => simpa [hseg ha, ha] using ih hsegs
    | some a => simpa [Segment.text_ne_nil ha, ha, Segment.content] using ih hsegs

theorem quoted_of_not_mem {v : LuaString} (h : '"' ∉ v) : Session.quoted v = false := by
  cases v with
  | nil => rfl
  | cons x v =>
    have hx : x ≠ '"' := fun e => h (e ▸ List.mem_cons_self)
    simp [Session.quoted, matchAt, go, Cls.test, hx]

/-- The first part of a header: the first field of the value counts. -/
theorem nameValue_pair (c : SetCookie) : Session.nameValue (split c.pair '=') =
    if split c.value '=' = [] then .error .indexNil
    else .ok ⟨c.name, field c.value, none, none, none⟩ := by
  obtain ⟨hne, hname⟩ := c.plain_token
  rw [pair, split_append_sep hne fun h => (hname _ h).1 rfl]
  cases hv : split c.value.1 '=' with
  | nil => rfl
  | cons v vs =>
    have hquot : '"' ∉ v := fun h =>
      (isCookieOctet_iff (c.value.2 _ ((head_split (by rw [hv]; rfl)).2.subset h))).1 rfl
    simp [Session.nameValue, quoted_of_not_mem hquot, field, hv]

theorem parseCookie_eq (c : SetCookie) : Session.parseCookie c.text host now = (do
    let cookie ← ((c.segments.filter (·.text ≠ [])).map fun seg => split seg.content '=').foldlM
      (Session.setAttribute now) (← Session.nameValue (split c.pair '='))
    return ⟨cookie.name, some cookie.value, cookie.path.getD "/".toList, cookie.domain.getD host,
      cookie.expires⟩) := by
  rw [Session.parseCookie, map_trim_split, List.map_cons, List.map_map]
  rfl

theorem split_value_ne_nil_iff : split c.value.1 '=' ≠ [] ↔ ∃ x ∈ c.value.1, x ≠ '=' := by
  rw [Ne, split_eq_nil_iff]
  push Not
  rfl

/-- A readable header is read. -/
theorem parseCookie_text (hc : c.Readable) :
    Session.parseCookie c.text host now = .ok (c.stored host) := by
  have hparts : ((c.segments.filter (·.text ≠ [])).map fun seg => split seg.content '=') =
      c.attrs.map fun a => split a.text '=' := by
    have hsplit := congrArg (List.map (split · '=')) (contents_eq hc.2)
    rwa [List.map_map, List.map_map] at hsplit
  rw [parseCookie_eq, nameValue_pair, if_neg (split_value_ne_nil_iff.2 hc.1), hparts, bind_ok,
    foldlM_attrs, bind_ok, foldl_apply]
  have hpath : ((c.attrs.filterMap Attr.path?).getLast?.map (field ·.1)).getD "/".toList =
      field c.path := by
    rw [path]
    cases (c.attrs.filterMap Attr.path?).getLast? <;> rfl
  have hexpires : ((c.attrs.filterMap Attr.expires?).getLast?.map HttpDate.time).getD none =
      c.expires := by
    rw [expires]
    cases (c.attrs.filterMap Attr.expires?).getLast? <;> rfl
  simp only [Option.or_none, hpath, hexpires]
  rfl

/-- A header that is not readable makes `handle_cookies` raise. -/
theorem readable_of_parseCookie {cookie : Cookie}
    (h : Session.parseCookie c.text host now = .ok cookie) : c.Readable := by
  rw [parseCookie_eq, nameValue_pair] at h
  obtain ⟨_, h₁, h⟩ := bind_eq_ok.1 h
  obtain ⟨_, h₂, _⟩ := bind_eq_ok.1 h
  split_ifs at h₁ with hv
  exact ⟨split_value_ne_nil_iff.1 hv, blank_of_foldlM h₂⟩

/-! ## Echoes -/

theorem field_sublist {s : LuaString} : (field s).Sublist s := by
  cases h : (split s '=').head? with
  | none => simp [field, h]
  | some f => simpa [field, h] using (head_split h).2

/-- A request carries a cookie of the store that is looked up and has not expired. -/
theorem mem_cookieHeader {s : Cookies} {cookie : Cookie} {path : LuaString}
    (cookies : List (LuaString × LuaString)) (hs : s.Sound)
    (hmem : cookie ∈ s.found host path now) : ∃ pairs,
      Session.cookieHeader s host path cookies now =
        .ok (some ("Cookie: ".toList ++ "; ".toList.intercalate pairs)) ∧
      pairText cookie.pair ∈ pairs := by
  have hcarried : pairText cookie.pair ∈ Session.carried s host path cookies now :=
    List.mem_map_of_mem (List.mem_append_left _ (List.mem_map_of_mem hmem))
  refine ⟨_, ?_, hcarried⟩
  rw [Session.cookieHeader_eq hs, if_neg (List.ne_nil_of_mem hcarried)]

theorem length_le_intercalate {sep f : LuaString} {fs : List LuaString} (h : f ∈ fs) :
    f.length ≤ (sep.intercalate fs).length := by
  induction fs with
  | nil => cases h
  | cons g gs ih =>
    cases gs with
    | nil =>
      rw [List.mem_singleton.1 h, List.intercalate_singleton]
    | cons g' gs =>
      rw [List.intercalate_cons_cons, List.length_append, List.length_append]
      rcases List.mem_cons.1 h with rfl | h
      · omega
      · have := ih h
        omega

/-- If a store with a single key makes a request carry a pair, it has a cookie
    under that key, which is looked up and is no shorter. -/
theorem length_le_of_carried {s : Cookies} {k : Cookie.Key} {path p : LuaString}
    {pairs : List LuaString} (hs : s.Sound) (hk : ∀ k', k' ≠ k → s.get k' = none)
    (h : Session.cookieHeader s host path [] now =
      .ok (some ("Cookie: ".toList ++ "; ".toList.intercalate pairs))) (hp : p ∈ pairs) :
    Cookies.InScope k host path ∧
      ∃ cookie, s.get k = some cookie ∧ p.length ≤ (pairText cookie.pair).length := by
  rw [Session.cookieHeader_eq hs, Session.carried, Cookies.getBy,
    Cookies.found_of_single hs.keyed hk] at h
  by_cases hscope : Cookies.InScope k host path
  swap
  · simp [hscope] at h
  refine ⟨hscope, ?_⟩
  rw [if_pos hscope] at h
  cases hget : (s.get k).filter (·.unexpired now) with
  | none => simp [hget] at h
  | some cookie =>
    refine ⟨cookie, (Option.filter_eq_some_iff.1 hget).1, ?_⟩
    have hline : pairText cookie.pair = "; ".toList.intercalate pairs := by
      simpa [hget] using h
    rw [hline]
    exact length_le_intercalate hp

theorem not_mem_field {s : LuaString} : '=' ∉ field s := by
  cases h : (split s '=').head? with
  | none => simp [field, h]
  | some f => simpa [field, h] using (head_split h).1

theorem head_path (c : SetCookie) : c.path.head? = some '/' := by
  rw [path]
  cases (c.attrs.filterMap Attr.path?).getLast? with
  | none => rfl
  | some v => exact v.2.1

/-- A request for a path that matches the one given matches the one stored. -/
theorem startswith_field {path : LuaString} (h : startswith path c.path) :
    startswith path (field c.path) := by
  refine startswith_iff.2 (List.IsPrefix.trans ?_ (startswith_iff.1 h))
  obtain ⟨w, hw⟩ := List.head?_eq_some_iff.1 c.head_path
  rw [hw, field, split_cons_of_ne (by decide)]
  exact List.cons_prefix_cons.2 ⟨rfl, List.takeWhile_prefix _⟩

theorem write_eq_self {old : Option Cookie} {cookie : Cookie} (hblank : cookie.blank = false)
    (hexp : cookie.expires = none) : Cookies.write old cookie now = some cookie := by
  cases old <;> simp [Cookies.write, hblank, hexp]

/-- The header's cookie is stored as it is, unless it is taken for one removed. -/
theorem get_update_stored {s : Cookies} (hv : c.value.1 ≠ []) (hk : c.Kept host)
    (hs : s.get (c.key host) = none) :
    (s.update (c.stored host) now).get (c.stored host).key = some (c.stored host) := by
  obtain ⟨hvalue, _, hpath⟩ := hk
  have hblank : (c.stored host).blank = false := by
    simp [Cookie.blank, stored, field_of_not_mem hvalue, hv]
  rw [Cookies.get_update, if_pos rfl]
  by_cases hp : '=' ∈ c.path
  · exact write_eq_self hblank (hpath hp)
  · have hkey : (c.stored host).key = c.key host := by
      simp [Cookie.key, stored, key, field_of_not_mem hp]
    rw [hkey, hs]
    rfl

/-- What `handle_cookies` does if it does not raise. -/
theorem handleCookies_eq_ok {s s' : Cookies}
    (h : Session.handleCookies s [c.text] host now = .ok s') :
    c.Readable ∧ s' = s.update (c.stored host) now := by
  rw [Session.handleCookies_singleton] at h
  cases hp : Session.parseCookie c.text host now with
  | error e =>
    rw [hp] at h
    cases h
  | ok cookie =>
    have hr := readable_of_parseCookie hp
    rw [parseCookie_text hr] at h
    cases h
    exact ⟨hr, rfl⟩

/-- A header is echoed if it is readable and kept. -/
theorem echoes_of_kept (hr : c.Readable) (hk : c.Covers host → c.Kept host) : c.Echoes host := by
  intro s now hs
  refine ⟨s.update (c.stored host) now, ?_, ?_⟩
  · rw [Session.handleCookies_singleton, parseCookie_text hr]
    rfl
  intro hv hcov hnone path cookies later _ hexp hpath
  have hkept := hk hcov
  have hs' : (s.update (c.stored host) now).Sound := hs.update rfl
  have hmem := (Cookies.mem_found_iff hs'.keyed).2
    ⟨get_update_stored hv hkept hnone, ⟨hkept.2.1, startswith_field hpath⟩, hexp⟩
  obtain ⟨pairs, hline, hpair⟩ := mem_cookieHeader cookies hs' hmem
  refine ⟨pairs, hline, ?_⟩
  have htext : pairText (c.stored host).pair = c.pair := by
    simp [pairText, Cookie.pair, stored, pair, field_of_not_mem hkept.1]
  rwa [htext] at hpair

/-- The store of an echo has the cookie, when it had nothing else before: the
    request is made at the time of the response, for the path of the cookie. -/
theorem of_echoes {s : Cookies} (he : c.Echoes host) (hr : c.Readable) (hcov : c.Covers host)
    (hs : s.Sound) (hk : ∀ k, k ≠ (c.stored host).key → s.get k = none)
    (hnone : s.get (c.key host) = none) (hexp : c.expires.all (now < ·)) :
    Cookies.InScope (c.stored host).key host c.path ∧ ∃ cookie,
      (s.update (c.stored host) now).get (c.stored host).key = some cookie ∧
        c.pair.length ≤ (pairText cookie.pair).length := by
  obtain ⟨x, hx, _⟩ := hr.1
  obtain ⟨s', hs', hsent⟩ := he s now hs
  obtain ⟨pairs, hline, hpair⟩ := hsent (List.ne_nil_of_mem hx) hcov hnone c.path [] now
    (Int.le_refl _) hexp (startswith_iff.2 (List.prefix_refl _))
  rw [(handleCookies_eq_ok hs').2] at hline
  refine length_le_of_carried (hs.update rfl) (fun k hne => ?_) hline hpair
  rw [Cookies.get_update, if_neg hne, hk k hne]

/-- An echoed header is kept: it is read into the empty store, and into one with
    its own cookie if the path is cut off. -/
theorem kept_of_echoes (he : c.Echoes host) (hr : c.Readable) (hcov : c.Covers host) :
    c.Kept host := by
  obtain ⟨now, hexp⟩ : ∃ now, c.expires.all (now < ·) := by
    cases c.expires with
    | none => exact ⟨0, rfl⟩
    | some x => exact ⟨x - 1, decide_eq_true (Int.sub_one_lt_of_le (Int.le_refl x))⟩
  obtain ⟨hscope, cookie, hget, hlen⟩ := of_echoes (s := ∅) he hr hcov Cookies.sound_empty
    (fun _ _ => rfl) rfl hexp
  refine ⟨fun heq => ?_, hscope.1, fun hpath => ?_⟩
  · -- The value stored is shorter than the one given.
    rw [Cookies.get_update, if_pos rfl] at hget
    cases hget
    have hlen' : c.value.1.length ≤ (field c.value.1).length := by
      simpa [pair, pairText, Cookie.pair, stored] using hlen
    rw [← field_sublist.eq_of_length_le hlen'] at heq
    exact not_mem_field heq
  · -- The cookie stored under the path cut off has the same expiry.
    by_contra hne
    obtain ⟨x, hx⟩ := Option.ne_none_iff_exists'.1 hne
    have hother : ∀ k, k ≠ (c.stored host).key →
        (Cookies.update ∅ (c.stored host) now).get k = none := fun k hk => by
      rw [Cookies.get_update, if_neg hk]
      rfl
    have hkey : c.key host ≠ (c.stored host).key := fun h => by
      have hcut : c.path = field c.path := congrArg Cookie.Key.path h
      rw [hcut] at hpath
      exact not_mem_field hpath
    obtain ⟨_, cookie, hget, _⟩ := of_echoes he hr hcov (Cookies.sound_empty.update rfl) hother
      (hother _ hkey) hexp
    have hexpires : (c.stored host).expires = some x := hx
    rw [Cookies.get_update, if_pos rfl, Cookies.get_update, if_pos rfl, Cookies.get_empty] at hget
    simp [Cookies.write, hexpires] at hget

/-- Which headers are **echoed**. -/
theorem echoes_iff (c : SetCookie) (host : LuaString) :
    c.Echoes host ↔ c.Readable ∧ (c.Covers host → c.Kept host) := by
  constructor
  · intro he
    obtain ⟨s', hs', _⟩ := he ∅ 0 Cookies.sound_empty
    have hr := (handleCookies_eq_ok hs').1
    exact ⟨hr, kept_of_echoes he hr⟩
  · rintro ⟨hr, hk⟩
    exact echoes_of_kept hr hk

/-- The header `id=YQ==`, with a value in base 64. -/
def base64 : SetCookie where
  before := ⟨[], by simp⟩
  name := ⟨"id".toList, by decide, List.all_eq_true.mp (by decide)⟩
  value := ⟨"YQ==".toList, List.all_eq_true.mp (by decide)⟩
  after := ⟨[], by simp⟩
  segments := []

/-- A value in base 64 is not echoed. -/
theorem base64_not_echoed : ¬ ∀ (c : SetCookie) host, c.Echoes host := by
  intro hall
  have hr : base64.Readable := ⟨⟨'Y', by decide, by decide⟩, fun _ h => nomatch h⟩
  have hk := kept_of_echoes (hall base64 ['h']) hr fun _ h => nomatch h
  exact hk.1 (by decide)

end SetCookie

end Mistress
