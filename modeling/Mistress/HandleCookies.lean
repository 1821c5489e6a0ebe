import Mistress.Cookies
import Mistress.Expires

/-!
# The cookies of a session

`handle_cookies` reads the `Set-Cookie` headers of a response into the cookie
store, and `http` adds a `Cookie` header with the cookies of the store to the
next requests.

The stores `handle_cookies` and `getBy` work on are `Sound`: each cookie is under
its own key and has a value, without which no header can be made of it.
-/

namespace Mistress

open Utils LuaPattern

/-- `build_req`: what it puts into the `Cookie` header for a cookie. -/
def makeValue (pair : LuaString × Option LuaString) : Except LuaError LuaString :=
  match pair.2 with
  | some value => .ok (pair.1 ++ '=' :: value)
  | none => .error .concatNil

/-- `build_req`: the `Cookie` header, if there are cookies. -/
def cookieLine (cookies : List (LuaString × Option LuaString)) :
    Except LuaError (Option LuaString) :=
  if cookies = [] then .ok none
  else do
    let values ← cookies.mapM makeValue
    return some ("Cookie: ".toList ++ "; ".toList.intercalate values)

/-- The text of a pair in a `Cookie` header. -/
def pairText (pair : LuaString × Option LuaString) : LuaString := pair.1 ++ '=' :: pair.2.getD []

theorem mapM_makeValue {pairs : List (LuaString × Option LuaString)}
    (h : ∀ pair ∈ pairs, pair.2.isSome) : pairs.mapM makeValue = .ok (pairs.map pairText) := by
  induction pairs with
  | nil => rfl
  | cons pair pairs ih =>
    obtain ⟨hpair, hpairs⟩ := List.forall_mem_cons.1 h
    obtain ⟨v, hv⟩ := Option.isSome_iff_exists.1 hpair
    have hvalue : makeValue pair = .ok (pairText pair) := by simp [makeValue, pairText, hv]
    rw [List.mapM_cons, hvalue, bind_ok, ih hpairs, bind_ok]
    rfl

namespace Session

/-- The table `cookie` of `handle_cookies`, while its attributes are read. -/
structure RawCookie where
  name : LuaString
  value : LuaString
  path : Option LuaString
  domain : Option LuaString
  expires : Option Int

/-- Whether a value matches `^"[^"]+"$`. -/
def quoted (v : LuaString) : Bool :=
  (matchAt [.one (.char '"'), .plus (.compl ['"']), .one (.char '"'), .stop] v).isSome

/-- The first part of a header: the name and the value. -/
def nameValue : List LuaString → Except LuaError RawCookie
  | k :: v :: _ => if quoted v then .error .assertion else .ok ⟨k, v, none, none, none⟩
  | _ => .error .indexNil

/-- Any other part of a header: an attribute. -/
def setAttribute (now : Int) (cookie : RawCookie) : List LuaString → Except LuaError RawCookie
  | [] => .error .concatNil
  | k :: vs =>
    let v := vs.head?
    if k = "path".toList ∨ k = "Path".toList then .ok { cookie with path := v }
    else if k = "expires".toList ∨ k = "Expires".toList then
      match v with
      | some v => do return { cookie with expires := ← expiresToTimestamp v now }
      | none => .error .indexNil
    else if k = "domain".toList ∨ k = "Domain".toList then .ok { cookie with domain := v }
    else if k = "HttpOnly".toList then .ok cookie
    else if k = "Max-Age".toList then .ok cookie
    else .error (.message ("handling cookie '".toList ++ k ++
      "' part is not implemented, value: ".toList ++ v.getD "nil".toList))

/-- The cookie of a `Set-Cookie` header of a response from `host`. -/
def parseCookie (raw host : LuaString) (now : Int) : Except LuaError Cookie :=
  match ((split raw ';').map trim).map (split · '=') with
  | [] => .error .nilKey -- raised by `update`, for want of a name
  | part :: parts => do
    let cookie ← parts.foldlM (setAttribute now) (← nameValue part)
    return ⟨cookie.name, some cookie.value, cookie.path.getD "/".toList, cookie.domain.getD host,
      cookie.expires⟩

/-- `Session:handle_cookies`. -/
def handleCookies (s : Cookies) (rawCookies : List LuaString) (host : LuaString) (now : Int) :
    Except LuaError Cookies :=
  rawCookies.foldlM (fun s raw => do return s.update (← parseCookie raw host now) now) s

/-- The `Cookie` header of a request, in `Session:http`: the cookies of the store
    and the ones of the options. -/
def cookieHeader (s : Cookies) (host path : LuaString) (cookies : List (LuaString × LuaString))
    (now : Int) : Except LuaError (Option LuaString) :=
  cookieLine ((s.getBy host path now).2 ++ cookies.map fun c => (c.1, some c.2))

end Session

namespace Cookies

/-- Every cookie is stored under its own key, and has a value. -/
structure Sound (s : Cookies) : Prop where
  keyed : s.Keyed
  value : ∀ k c, s.get k = some c → c.value.isSome

theorem sound_empty : Sound ∅ where
  keyed := keyed_empty
  value _ _ h := by cases h

theorem Sound.update {s : Cookies} {cookie : Cookie} {now : Int} (hs : s.Sound)
    (hc : cookie.value.isSome) : (s.update cookie now).Sound where
  keyed := hs.keyed.update
  value k c h := by
    rw [get_update] at h
    split_ifs at h
    · rw [write_eq_some h]
      exact hc
    · exact hs.value k c h

theorem Sound.purge {s : Cookies} {domain path : LuaString} {now : Int} (hs : s.Sound) :
    (s.purge domain path now).Sound where
  keyed := hs.keyed.purge
  value k c h := by
    rw [get_purge] at h
    split_ifs at h
    · exact hs.value k c (Option.filter_eq_some_iff.1 h).1
    · exact hs.value k c h

/-- The cookies found are the ones stored that are looked up and have not expired. -/
theorem mem_found_iff {s : Cookies} {domain path : LuaString} {now : Int} {c : Cookie}
    (hs : s.Keyed) : c ∈ s.found domain path now ↔
      s.get c.key = some c ∧ InScope c.key domain path ∧ c.unexpired now := by
  have hmem : c ∈ s.found domain path now ↔
      c ∈ (s.found domain path now).filter (·.key = c.key) := by simp
  rw [hmem, found_filter hs]
  split_ifs with hk
  · rw [Option.mem_toList, Option.filter_eq_some_iff]
    exact ⟨fun h => ⟨h.1, hk, h.2⟩, fun h => ⟨h.1, h.2.2⟩⟩
  · exact ⟨fun h => absurd h List.not_mem_nil, fun h => absurd h.2.1 hk⟩

/-- What is found when there is a single key. -/
theorem found_of_single {s : Cookies} {domain path : LuaString} {now : Int} {k : Cookie.Key}
    (hs : s.Keyed) (hk : ∀ k', k' ≠ k → s.get k' = none) : s.found domain path now =
      if InScope k domain path then ((s.get k).filter (·.unexpired now)).toList else [] := by
  rw [← found_filter hs, eq_comm, List.filter_eq_self]
  intro c hc
  by_contra hne
  have hget := ((mem_found_iff hs).1 hc).1
  rw [hk c.key (by simpa using hne)] at hget
  cases hget

end Cookies

namespace Session

open Cookies

theorem value_of_parseCookie {raw host : LuaString} {now : Int} {c : Cookie}
    (h : parseCookie raw host now = .ok c) : c.value.isSome := by
  unfold parseCookie at h
  split at h
  · cases h
  · obtain ⟨_, _, h⟩ := bind_eq_ok.1 h
    obtain ⟨_, _, h⟩ := bind_eq_ok.1 h
    cases h
    rfl

/-- `handle_cookies` for one header. -/
theorem handleCookies_singleton {s : Cookies} {raw host : LuaString} {now : Int} :
    handleCookies s [raw] host now =
      (parseCookie raw host now).map fun c => s.update c now := by
  cases h : parseCookie raw host now <;> simp [handleCookies, h] <;> rfl

/-- `handle_cookies` keeps the store sound. -/
theorem sound_handleCookies {s s' : Cookies} {raws : List LuaString} {host : LuaString} {now : Int}
    (hs : s.Sound) (h : handleCookies s raws host now = .ok s') : s'.Sound := by
  induction raws generalizing s with
  | nil =>
    cases h
    exact hs
  | cons raw raws ih =>
    obtain ⟨_, h₁, h₂⟩ := bind_eq_ok.1 h
    obtain ⟨c, hc, h₁⟩ := bind_eq_ok.1 h₁
    cases h₁
    exact ih (hs.update (value_of_parseCookie hc)) h₂

/-- The texts of the cookies a request carries. -/
def carried (s : Cookies) (host path : LuaString) (cookies : List (LuaString × LuaString))
    (now : Int) : List LuaString :=
  ((s.getBy host path now).2 ++ cookies.map fun c => (c.1, some c.2)).map pairText

/-- A `Cookie` header can be made of the cookies of a sound store. -/
theorem cookieHeader_eq {s : Cookies} {host path : LuaString}
    {cookies : List (LuaString × LuaString)} {now : Int} (hs : s.Sound) :
    cookieHeader s host path cookies now = .ok (if carried s host path cookies now = [] then none
      else some ("Cookie: ".toList ++ "; ".toList.intercalate (carried s host path cookies now))) := by
  rw [cookieHeader, cookieLine, carried]
  simp only [List.map_eq_nil_iff]
  split_ifs with h
  · rfl
  · rw [mapM_makeValue, bind_ok]
    · rfl
    · intro pair hpair
      rcases List.mem_append.1 hpair with hpair | hpair
      · obtain ⟨c, hc, rfl⟩ := List.mem_map.1 hpair
        exact hs.value _ c ((mem_found_iff hs.keyed).1 hc).1
      · obtain ⟨_, _, rfl⟩ := List.mem_map.1 hpair
        rfl

end Session

end Mistress
