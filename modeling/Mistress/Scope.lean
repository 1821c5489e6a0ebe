import Mistress.HandleCookies

/-!
# The scope of a cookie

A cookie is meant for the requests in its scope: to the host that set it or, if it has a
`Domain` attribute, to the hosts within that domain, and for the paths under its path.
`getBy` decides by masks made from the labels of the host, and by the prefixes of the path.

A host looks up itself and the domains it is within, behind a dot (`mem_masks_iff`).
`scoped_iff` says for which requests this comes to the scope. It does not

* when the path of the request goes on from the one of the cookie inside a segment;
* when the `Domain` attribute has no leading dot: the hosts below the domain do not find
  the cookie, and the host itself does even if the domain is a single label.
-/

namespace Mistress

open Utils Cookies

/-- A host name. -/
structure HostName where
  labels : List LuaString
  label : ∀ l ∈ labels, l ≠ [] ∧ '.' ∉ l

namespace HostName

/-- The text of a host name. -/
def text (h : HostName) : LuaString := ['.'].intercalate h.labels

/-- The host is **within** a domain of at least two labels: it is the domain, or ends with a
    dot and the domain. -/
def Within (h : HostName) (domain : LuaString) : Prop :=
  2 ≤ (split domain '.').length ∧ (h.text = domain ∨ '.' :: domain <:+ h.text)

/-! ## Labels -/

/-- A dot before each label. -/
def dotted (labels : List LuaString) : LuaString := labels.flatMap ('.' :: ·)

theorem dotted_eq {labels : List LuaString} (h : labels ≠ []) :
    dotted labels = '.' :: ['.'].intercalate labels := by
  induction labels with
  | nil => exact absurd rfl h
  | cons l labels ih =>
    cases labels with
    | nil => simp [dotted, List.intercalate]
    | cons l' labels =>
      have hcons : dotted (l :: l' :: labels) = '.' :: l ++ dotted (l' :: labels) := rfl
      rw [hcons, ih (List.cons_ne_nil _ _)]
      simp [List.intercalate, List.intersperse]

/-- A part that begins with a dot does not begin inside a label. -/
theorem dot_suffix_append {s l t : LuaString} (hl : '.' ∉ l) :
    '.' :: s <:+ l ++ t ↔ '.' :: s <:+ t := by
  induction l with
  | nil => rfl
  | cons x l ih =>
    obtain ⟨hx, hl⟩ := not_or.1 fun hor => hl (List.mem_cons.2 hor)
    rw [List.cons_append, List.suffix_cons_iff, ih hl]
    exact or_iff_right fun h => hx (List.cons.inj h).1

/-- The parts that begin with a dot are made of the last labels. -/
theorem dot_suffix_dotted {s : LuaString} {labels : List LuaString}
    (h : ∀ l ∈ labels, '.' ∉ l) : '.' :: s <:+ dotted labels ↔
      ∃ ls, ls <:+ labels ∧ '.' :: s = dotted ls := by
  induction labels with
  | nil =>
    simp [dotted]
  | cons l labels ih =>
    obtain ⟨hl, h⟩ := List.forall_mem_cons.1 h
    have hcons : dotted (l :: labels) = '.' :: (l ++ dotted labels) := rfl
    rw [hcons, List.suffix_cons_iff, dot_suffix_append hl, ih h, ← hcons]
    constructor
    · rintro (heq | ⟨ls, hls, heq⟩)
      · exact ⟨_, List.suffix_rfl, heq⟩
      · exact ⟨ls, hls.trans (List.suffix_cons _ _), heq⟩
    · rintro ⟨ls, hls, heq⟩
      rcases List.suffix_cons_iff.1 hls with rfl | hls
      · exact .inl heq
      · exact .inr ⟨ls, hls, heq⟩

variable {h : HostName} {d : LuaString}

theorem split_intercalate_labels {ls : List LuaString} (hls : ls <:+ h.labels) :
    split (['.'].intercalate ls) '.' = ls := by
  rw [split_intercalate fun l hl => (h.label l (hls.subset hl)).2, List.filter_eq_self]
  intro l hl
  exact decide_eq_true (h.label l (hls.subset hl)).1

/-- The domains a host is within are made of its last labels. -/
theorem within_iff : h.Within d ↔
    ∃ ls, ls <:+ h.labels ∧ 2 ≤ ls.length ∧ d = ['.'].intercalate ls := by
  constructor
  · rintro ⟨hd, hmatch⟩
    have hne : h.labels ≠ [] := by
      intro hnil
      -- Such a host has no text, nor has its domain.
      have htext : h.text = [] := by rw [text, hnil, List.intercalate_nil]
      rcases hmatch with rfl | hsuffix
      · simp [htext] at hd
      · rw [htext] at hsuffix
        cases List.suffix_nil.1 hsuffix
    have hdot : '.' :: d <:+ dotted h.labels := by
      rw [dotted_eq hne]
      exact List.suffix_cons_iff.2 (hmatch.imp (fun heq => congrArg _ heq.symm) id)
    obtain ⟨ls, hls, heq⟩ := (dot_suffix_dotted fun l hl => (h.label l hl).2).1 hdot
    have hls' : ls ≠ [] := by
      rintro rfl
      cases heq
    rw [dotted_eq hls'] at heq
    obtain rfl := (List.cons.inj heq).2
    rw [split_intercalate_labels hls] at hd
    exact ⟨ls, hls, hd, rfl⟩
  · rintro ⟨ls, hls, hlength, rfl⟩
    have hls' : ls ≠ [] := by
      rintro rfl
      simp at hlength
    have hne : h.labels ≠ [] := fun hnil => hls' (List.suffix_nil.1 (hnil ▸ hls))
    refine ⟨by rwa [split_intercalate_labels hls], ?_⟩
    have hdot := (dot_suffix_dotted fun l hl => (h.label l hl).2).2
      ⟨ls, hls, (dotted_eq hls').symm⟩
    rw [dotted_eq hne, List.suffix_cons_iff] at hdot
    exact hdot.imp (fun heq => (List.cons.inj heq).2.symm) id

/-- A host looks up itself and, behind a dot, the domains it is within. -/
theorem mem_masks_iff : d ∈ masks h.text ↔ d = h.text ∨ ∃ d', d = '.' :: d' ∧ h.Within d' := by
  have hsplit : split h.text '.' = h.labels := split_intercalate_labels List.suffix_rfl
  rw [masks, List.mem_dedup, List.mem_cons, hsplit]
  refine or_congr_right ?_
  simp only [List.mem_map, List.mem_filter, List.mem_tails, decide_eq_true_eq, within_iff]
  constructor
  · rintro ⟨ls, ⟨hls, hlength⟩, rfl⟩
    exact ⟨_, rfl, ls, hls, hlength, rfl⟩
  · rintro ⟨_, rfl, ls, hls, hlength, rfl⟩
    exact ⟨ls, ⟨hls, hlength⟩, rfl⟩

/-- A host name does not begin with a dot. -/
theorem text_ne_cons : h.text ≠ '.' :: d := by
  intro htext
  cases hlabels : h.labels with
  | nil =>
    rw [text, hlabels, List.intercalate_nil] at htext
    cases htext
  | cons l ls =>
    obtain ⟨hne, hdot⟩ := h.label l (hlabels ▸ List.mem_cons_self)
    obtain ⟨x, l, rfl⟩ := List.exists_cons_of_ne_nil hne
    have hx : h.text.head? = some x := by
      cases ls <;> simp [text, hlabels, List.intercalate]
    rw [htext] at hx
    exact hdot (Option.some.inj hx ▸ List.mem_cons_self)

end HostName

namespace Session

/-- The attributes of a `Set-Cookie` header, as `handle_cookies` reads them. -/
def attributes (raw : LuaString) (now : Int) : Except LuaError RawCookie :=
  match ((split raw ';').map trim).map (split · '=') with
  | [] => .error .nilKey
  | part :: parts => do parts.foldlM (setAttribute now) (← nameValue part)

/-- The cookie made of the attributes, in a response of a host. -/
def RawCookie.cookie (r : RawCookie) (host : LuaString) : Cookie :=
  ⟨r.name, some r.value, r.path.getD "/".toList, r.domain.getD host, r.expires⟩

theorem parseCookie_eq_attributes {raw host : LuaString} {now : Int} :
    parseCookie raw host now = (attributes raw now).map (·.cookie host) := by
  unfold parseCookie attributes
  cases ((split raw ';').map trim).map (split · '=') with
  | nil => rfl
  | cons part parts =>
    cases hname : nameValue part with
    | error e => simp only [hname, bind_error, Except.map]
    | ok r =>
      simp only [hname, bind_ok]
      cases parts.foldlM (setAttribute now) r <;> rfl

/-- The updates of `handle_cookies` continue a history of the store. -/
theorem handleCookies_exec {calls : List Cookies.Op} {s : Cookies} {raws : List LuaString}
    {host : LuaString} {now : Int} (h : handleCookies (exec calls) raws host now = .ok s) :
    ∃ cookies, raws.mapM (parseCookie · host now) = .ok cookies ∧
      s = exec ((cookies.map (Cookies.Op.update · now)).reverse ++ calls) := by
  induction raws generalizing calls with
  | nil =>
    cases h
    exact ⟨[], rfl, rfl⟩
  | cons raw raws ih =>
    obtain ⟨_, hcookie, hrest⟩ := bind_eq_ok.1 h
    obtain ⟨cookie, hparse, hcookie⟩ := bind_eq_ok.1 hcookie
    cases hcookie
    have hexec : handleCookies (exec (Cookies.Op.update cookie now :: calls)) raws host now =
        .ok s := hrest
    obtain ⟨cookies, hcookies, rfl⟩ := ih hexec
    refine ⟨cookie :: cookies, ?_, ?_⟩
    · rw [List.mapM_cons, hparse, bind_ok, hcookies]
      rfl
    · rw [List.map_cons, List.reverse_cons, List.append_assoc]
      rfl

end Session

/-- A cookie in the store: `handle_cookies` has put it there, and none of the later calls has
    written its key. -/
structure StoredCookie where
  /-- The calls on the store, the latest first, and the time. -/
  calls : List Cookies.Op
  now : Int
  /-- The header, the host of the response, and the time it is handled. -/
  raw : LuaString
  host : HostName
  time : Int
  attrs : Session.RawCookie
  before : List Cookies.Op
  chronological : Chronological now calls
  parsed : Session.attributes raw time = .ok attrs
  last : lastUpdate (attrs.cookie host.text).key calls =
    some ⟨attrs.cookie host.text, time, before⟩
  put : write ((exec before).get (attrs.cookie host.text).key) (attrs.cookie host.text) time =
    some (attrs.cookie host.text)
  unexpired : (attrs.cookie host.text).unexpired now

namespace StoredCookie

variable (c : StoredCookie) (h : HostName) (p : LuaString)

def cookie : Cookie := c.attrs.cookie c.host.text

/-- How often the cookie is among the ones `getBy` finds for a request. (In its result, it
    may look like another cookie of the same name and value.) -/
def times : Nat := ((exec c.calls).found h.text p c.now).count c.cookie

/-- A domain without its leading dot. -/
def stripDot (d : LuaString) : LuaString := if d.head? = some '.' then d.tail else d

/-- The host is in the scope of the cookie: it is the one that set the cookie, or within the
    domain of the `Domain` attribute. -/
def DomainScope : Prop :=
  match c.attrs.domain with
  | none => h.text = c.host.text
  | some d => h.Within (stripDot d)

/-- The path is in the scope of the cookie. -/
def PathScope : Prop :=
  p = c.cookie.path ∨ ∃ rest, p = c.cookie.path ++ rest ∧
    (c.cookie.path.getLast? = some '/' ∨ rest.head? = some '/' ∨ rest.head? = some '?')

/-- A request finds the cookie once if it is in its scope, and not at all otherwise. -/
def Scoped : Prop :=
  (c.DomainScope h ∧ c.PathScope p → c.times h p = 1) ∧
    (¬ (c.DomainScope h ∧ c.PathScope p) → c.times h p = 0)

/-- The path does not go on from the one of the cookie inside a segment. -/
def Segmented : Prop := startswith p c.cookie.path → c.PathScope p

/-- The requests for which the masks come to the scope. -/
def Regular : Prop :=
  match c.attrs.domain with
  | none => h.text = c.host.text → c.Segmented p
  | some d =>
    if d.head? = some '.' then h.Within d.tail → c.Segmented p
    else if h.text = d then startswith p c.cookie.path → 2 ≤ (split d '.').length ∧ c.PathScope p
    else c.PathScope p → ¬ h.Within d

variable {c h p}

theorem get_exec : ((exec c.calls).get c.cookie.key).filter (·.unexpired c.now) =
    some c.cookie := by
  rw [filter_get_exec c.chronological, cookie, c.last, Option.bind_some, c.put,
    Option.filter_some, if_pos c.unexpired]

/-- The cookie is found once if the request looks up its key, whatever else is stored. -/
theorem times_eq : c.times h p = if InScope c.cookie.key h.text p then 1 else 0 := by
  have hfound : ((exec c.calls).found h.text p c.now).filter (·.key = c.cookie.key) = _ :=
    found_filter (keyed_exec c.calls)
  rw [get_exec] at hfound
  have hcount := List.count_filter (l := (exec c.calls).found h.text p c.now)
    (p := fun c' => decide (c'.key = c.cookie.key)) (a := c.cookie) (decide_eq_true rfl)
  rw [times, ← hcount, hfound]
  split_ifs
  · simp
  · rfl

theorem startswith_of_pathScope (hp : c.PathScope p) : startswith p c.cookie.path := by
  rcases hp with rfl | ⟨rest, rfl, -⟩
  · exact startswith_iff.2 List.prefix_rfl
  · exact startswith_iff.2 (List.prefix_append _ _)

theorem scoped_iff_inScope : c.Scoped h p ↔
    (InScope c.cookie.key h.text p ↔ c.DomainScope h ∧ c.PathScope p) := by
  rw [Scoped, times_eq]
  by_cases hk : InScope c.cookie.key h.text p
  · rw [if_pos hk, iff_true_left hk]
    exact ⟨fun hs => by_contra fun hn => absurd (hs.2 hn) Nat.one_ne_zero,
      fun hs => ⟨fun _ => rfl, fun hn => absurd hs hn⟩⟩
  · rw [if_neg hk, iff_false_left hk]
    exact ⟨fun hs hp => absurd (hs.1 hp) Nat.zero_ne_one, fun hs => ⟨fun hp => absurd hp hs,
      fun _ => rfl⟩⟩

/-- The hosts that look up the cookie. -/
theorem mem_masks_cookie : c.cookie.key.domain ∈ masks h.text ↔
    match c.attrs.domain with
    | none => h.text = c.host.text
    | some d => if d.head? = some '.' then h.Within d.tail else h.text = d := by
  have hdomain : c.cookie.key.domain = c.attrs.domain.getD c.host.text := rfl
  rw [hdomain, HostName.mem_masks_iff]
  cases c.attrs.domain with
  | none =>
    rw [Option.getD_none, eq_comm]
    refine or_iff_left ?_
    rintro ⟨d, heq, -⟩
    exact HostName.text_ne_cons heq
  | some d =>
    change (d = h.text ∨ ∃ d', d = '.' :: d' ∧ h.Within d') ↔
      if d.head? = some '.' then h.Within d.tail else h.text = d
    by_cases hdot : d.head? = some '.'
    · obtain ⟨d, rfl⟩ := List.head?_eq_some_iff.1 hdot
      rw [if_pos hdot, List.tail_cons]
      constructor
      · rintro (heq | ⟨d', heq, hwithin⟩)
        · exact absurd heq.symm HostName.text_ne_cons
        · exact (List.cons.inj heq).2 ▸ hwithin
      · exact fun hwithin => .inr ⟨d, rfl, hwithin⟩
    · rw [if_neg hdot, eq_comm]
      refine or_iff_left ?_
      rintro ⟨d', rfl, -⟩
      exact hdot rfl

/-- A request finds the cookie **in its scope** if and only if it is regular. -/
theorem scoped_iff (c : StoredCookie) (h : HostName) (p : LuaString) :
    c.Scoped h p ↔ c.Regular h p := by
  have hpath : c.PathScope p → startswith p c.cookie.key.path := startswith_of_pathScope
  -- Where the host looks the cookie up as it should, the paths decide.
  have hsegmented : ∀ D : Prop, (D ∧ startswith p c.cookie.key.path ↔ D ∧ c.PathScope p) ↔
      (D → c.Segmented p) := by
    intro D
    constructor
    · intro hiff hD hstart
      exact (hiff.1 ⟨hD, hstart⟩).2
    · intro hseg
      exact ⟨fun hD => ⟨hD.1, hseg hD.1 hD.2⟩, fun hD => ⟨hD.1, hpath hD.2⟩⟩
  rw [scoped_iff_inScope, InScope, mem_masks_cookie, DomainScope, Regular]
  cases c.attrs.domain with
  | none => exact hsegmented _
  | some d =>
    by_cases hdot : d.head? = some '.'
    · simp only [stripDot, hdot, if_true]
      exact hsegmented _
    · simp only [stripDot, hdot, if_false]
      by_cases hhost : h.text = d
      · have hwithin : h.Within d ↔ 2 ≤ (split d '.').length :=
          and_iff_left (.inl hhost)
        rw [if_pos hhost, hwithin]
        constructor
        · intro hiff hstart
          exact hiff.1 ⟨hhost, hstart⟩
        · intro hreg
          exact ⟨fun hlook => hreg hlook.2, fun hscope => ⟨hhost, hpath hscope.2⟩⟩
      · rw [if_neg hhost]
        constructor
        · intro hiff hp hwithin
          exact hhost (hiff.2 ⟨hwithin, hp⟩).1
        · intro hreg
          exact ⟨fun hlook => absurd hlook.1 hhost, fun hscope => absurd hscope.1 (hreg hscope.2)⟩

/-- The cookie of `a=1; path=/a`, set by a host. -/
def underPath : StoredCookie where
  calls := [Cookies.Op.update ⟨['a'], some ['1'], "/a".toList, ['h'], none⟩ 1]
  now := 2
  raw := "a=1; path=/a".toList
  host := ⟨[['h']], by decide⟩
  time := 1
  attrs := ⟨['a'], ['1'], some "/a".toList, none, none⟩
  before := []
  chronological := by decide
  parsed := rfl
  last := rfl
  put := by decide +kernel
  unexpired := by decide

/-- A path that goes on from the one of the cookie finds it. -/
theorem not_scoped : ¬ ∀ (c : StoredCookie) h p, c.Scoped h p := by
  intro hall
  have hiff := scoped_iff_inScope.1 (hall underPath underPath.host "/ab".toList)
  have hfound : InScope underPath.cookie.key underPath.host.text "/ab".toList := by
    decide +kernel
  obtain heq | ⟨rest, hrest, hboundary⟩ := (hiff.1 hfound).2
  · exact absurd heq (by decide +kernel)
  · have hpath : "/a".toList ++ ['b'] = "/a".toList ++ rest := hrest
    obtain rfl := List.append_cancel_left hpath
    revert hboundary
    decide +kernel

end StoredCookie

end Mistress
