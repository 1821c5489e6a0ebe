import Mathlib.Data.List.Dedup
import Mistress.Table
import Mistress.Utils

/-!
# The cookie store

`Cookies` stores the cookies of a virtual user by domain mask, path prefix and
name, the *key* of a cookie. `update` writes a cookie, which may remove the one
stored; `getBy` gives the cookies for a request and removes those of them that
have expired.

A key is to behave as a register: what `getBy` yields for it should be what its
last update wrote (`LastWriteWins`). `lastWriteWins_iff` says when it does. It
does not

* after an update with an expiry that is no later than the expiry stored, e.g.,
  the same one: `update` takes it for a removal, whatever the time is;
* after an update without a value when nothing is stored, which is then stored
  as it is.

At the level of a single key, the store is a cell holding at most one cookie
(`get`); `get_update` and `get_purge` say what the operations do to it.
-/

namespace Mistress

open Utils

/-- A cookie. -/
structure Cookie where
  name : LuaString
  value : Option LuaString
  path : LuaString
  domain : LuaString
  /-- The time of the expiry, if there is one. -/
  expires : Option Int
  deriving DecidableEq

namespace Cookie

/-- The value is `nil` or empty. -/
def blank (c : Cookie) : Bool := c.value == none || c.value == some []

/-- The cookie has not expired at the time `now`. -/
def unexpired (now : Int) (c : Cookie) : Bool := c.expires.all (now < ·)

/-- What identifies a cookie in the store. -/
structure Key where
  domain : LuaString
  path : LuaString
  name : LuaString
  deriving DecidableEq

/-- The key of a cookie. -/
def key (c : Cookie) : Key := ⟨c.domain, c.path, c.name⟩

/-- The pair `getBy` gives for a cookie. -/
def pair (c : Cookie) : LuaString × Option LuaString := (c.name, c.value)

theorem unexpired_mono {c : Cookie} {t now : Int} (h : t ≤ now) (hc : c.unexpired now) :
    c.unexpired t := by
  unfold unexpired at hc ⊢
  cases hx : c.expires with
  | none => rfl
  | some x =>
    simp only [hx, Option.all_some, decide_eq_true_eq] at hc ⊢
    omega

end Cookie

/-- The store, `_cookies`: by domain mask, path prefix and name. -/
abbrev Cookies := Table LuaString (Table LuaString (Table LuaString Cookie))

namespace Cookies

/-- `Cookies:update`, at the time `now`. -/
def update (s : Cookies) (cookie : Cookie) (now : Int) : Cookies :=
  let paths := (s.lookup cookie.domain).getD ∅
  let data := (paths.lookup cookie.path).getD ∅
  let data :=
    match data.lookup cookie.name with
    | some oldCookie =>
      if cookie.expires.any (· ≤ oldCookie.expires.getD now) || cookie.blank then
        data.erase cookie.name
      else data.insert cookie.name cookie
    | none => data.insert cookie.name cookie
  s.insert cookie.domain (paths.insert cookie.path data)

/-- The masks `getBy` looks up: the domain itself and the wildcards of its
    suffixes of at least two parts. -/
def masks (domain : LuaString) : List LuaString :=
  (domain :: ((split domain '.').tails.filter (2 ≤ ·.length)).map
    fun buf => '.' :: ['.'].intercalate buf).dedup

theorem nodup_masks {domain : LuaString} : (masks domain).Nodup := List.nodup_dedup _

/-- The cookies `getBy` finds under one path prefix. -/
def foundUnder (path : LuaString) (now : Int) (pfx : LuaString) (data : Table LuaString Cookie) :
    List Cookie :=
  if startswith path pfx then (data.entries.map Sigma.snd).filter (·.unexpired now) else []

/-- The cookies `getBy` finds. -/
def found (s : Cookies) (domain path : LuaString) (now : Int) : List Cookie :=
  (masks domain).flatMap fun mask =>
    ((s.lookup mask).getD ∅).entries.flatMap fun e => foundUnder path now e.1 e.2

/-- What `getBy` leaves of the store: it removes the expired cookies it comes across. -/
def purge (s : Cookies) (domain path : LuaString) (now : Int) : Cookies :=
  s.mapVals fun mask paths => paths.mapVals fun pfx data =>
    if mask ∈ masks domain ∧ startswith path pfx then data.filter fun _ c => c.unexpired now else data

/-- `Cookies:get_by`, at the time `now`: the store it leaves and its result. -/
def getBy (s : Cookies) (domain path : LuaString) (now : Int) :
    Cookies × List (LuaString × Option LuaString) :=
  (s.purge domain path now, (s.found domain path now).map Cookie.pair)

/-! ## A single key -/

open Cookie (Key)

/-- The cookie stored under a key. -/
def get (s : Cookies) (k : Key) : Option Cookie :=
  ((((s.lookup k.domain).getD ∅).lookup k.path).getD ∅).lookup k.name

/-- What an update leaves in a cell holding `old`. -/
def write (old : Option Cookie) (cookie : Cookie) (now : Int) : Option Cookie :=
  match old with
  | some oldCookie =>
    if cookie.expires.any (· ≤ oldCookie.expires.getD now) || cookie.blank then none else some cookie
  | none => some cookie

/-- Whether a request for `path` on `domain` looks up the key. -/
abbrev InScope (k : Key) (domain path : LuaString) : Prop :=
  k.domain ∈ masks domain ∧ startswith path k.path

variable {s : Cookies} {k : Key} {cookie : Cookie} {now : Int} {domain path : LuaString}

@[simp] theorem get_empty : get ∅ k = none := rfl

/-- An update writes the cell of its key, and no other one. -/
theorem get_update : (s.update cookie now).get k =
    if k = cookie.key then write (s.get k) cookie now else s.get k := by
  obtain ⟨d, p, n⟩ := k
  simp only [get, update, Cookie.key, Key.mk.injEq]
  by_cases hd : d = cookie.domain
  · subst hd
    rw [AList.lookup_insert, Option.getD_some]
    generalize (s.lookup cookie.domain).getD ∅ = paths
    by_cases hp : p = cookie.path
    · subst hp
      rw [AList.lookup_insert, Option.getD_some]
      generalize (paths.lookup cookie.path).getD ∅ = data
      by_cases hn : n = cookie.name
      · subst hn
        cases data.lookup cookie.name with
        | none => simp [write]
        | some old =>
          simp only [write, and_self, if_true]
          split <;> simp
      · simp only [hn, and_false, if_false]
        split
        · split
          · exact AList.lookup_erase_ne hn
          · exact AList.lookup_insert_ne hn
        · exact AList.lookup_insert_ne hn
    · rw [AList.lookup_insert_ne hp, if_neg fun h => hp h.2.1]
  · rw [AList.lookup_insert_ne hd, if_neg fun h => hd h.1]

/-- `getBy` removes what has expired from the cells it looks up. -/
theorem get_purge : (s.purge domain path now).get k =
    if InScope k domain path then (s.get k).filter (·.unexpired now) else s.get k := by
  simp only [get, purge]
  rw [Table.getD_lookup_mapVals _ _ ∅ ∅ rfl,
    Table.getD_lookup_mapVals _ _ ∅ ∅ (by split <;> rfl)]
  split
  · rw [Table.lookup_filter]
  · rfl

/-- Every cookie is stored under its own key. -/
def Keyed (s : Cookies) : Prop := ∀ k c, s.get k = some c → c.key = k

theorem keyed_empty : Keyed ∅ := fun _ _ h => by cases h

theorem write_eq_some {old : Option Cookie} {c : Cookie} (h : write old cookie now = some c) :
    c = cookie := by
  unfold write at h
  split at h
  · split at h
    · cases h
    · exact (Option.some.inj h).symm
  · exact (Option.some.inj h).symm

theorem Keyed.update (hs : s.Keyed) : (s.update cookie now).Keyed := by
  intro k c h
  rw [get_update] at h
  split_ifs at h with hk
  · rw [write_eq_some h, hk]
  · exact hs k c h

theorem Keyed.purge (hs : s.Keyed) : (s.purge domain path now).Keyed := by
  intro k c h
  rw [get_purge] at h
  split_ifs at h
  · exact hs k c (Option.filter_eq_some_iff.1 h).1
  · exact hs k c h

/-- A cookie found under a mask and a prefix has them in its key. -/
theorem Keyed.of_mem (hs : s.Keyed) {mask : LuaString}
    {e : Σ _ : LuaString, Table LuaString Cookie} (he : e ∈ ((s.lookup mask).getD ∅).entries)
    {c : Cookie} (hc : c ∈ foundUnder path now e.1 e.2) : c.domain = mask ∧ c.path = e.1 := by
  unfold foundUnder at hc
  split at hc
  · obtain ⟨e', he', rfl⟩ := List.mem_map.1 (List.mem_filter.1 hc).1
    have hkey := hs ⟨mask, e.1, e'.1⟩ e'.2 (by
      rw [get, Table.lookup_eq_some_iff.2 he, Option.getD_some]
      exact Table.lookup_eq_some_iff.2 he')
    exact ⟨congrArg Key.domain hkey, congrArg Key.path hkey⟩
  · exact absurd hc List.not_mem_nil

/-- The cookies found for a key: the one stored, if the key is looked up and it
    has not expired. -/
theorem found_filter (hs : s.Keyed) : (s.found domain path now).filter (·.key = k) =
    if InScope k domain path then ((s.get k).filter (·.unexpired now)).toList else [] := by
  rw [found, Table.filter_flatMap_of_nodup nodup_masks k.domain]
  swap
  · intro mask _ hmask
    refine List.filter_eq_nil_iff.2 fun c hc hck => hmask ?_
    obtain ⟨e, he, hc⟩ := List.mem_flatMap.1 hc
    rw [← (hs.of_mem he hc).1, ← of_decide_eq_true hck]
    rfl
  by_cases hd : k.domain ∈ masks domain
  swap
  · rw [if_neg hd, if_neg fun h => hd h.1]
  rw [if_pos hd, Table.filter_flatMap_entries _ k.path (foundUnder path now)]
  swap
  · intro pfx data hdata hpfx
    refine List.filter_eq_nil_iff.2 fun c hc hck => hpfx ?_
    have hpath := (hs.of_mem (e := ⟨pfx, data⟩) (Table.lookup_eq_some_iff.1 hdata) hc).2
    exact hpath.symm.trans (congrArg Key.path (of_decide_eq_true hck))
  by_cases hp : startswith path k.path
  swap
  · rw [if_neg fun h => hp h.2]
    simp only [foundUnder, hp]
    cases ((s.lookup k.domain).getD ∅).lookup k.path <;> rfl
  rw [if_pos ⟨hd, hp⟩, get]
  simp only [foundUnder, hp, if_true, List.filter_filter]
  cases hdata : ((s.lookup k.domain).getD ∅).lookup k.path with
  | none => rfl
  | some data =>
    rw [Option.map_some, Option.getD_some, Option.getD_some, Table.filter_values data k.name]
    · cases hc : data.lookup k.name with
      | none => rfl
      | some c =>
        have hkey : c.key = k := hs k c (by rw [get, hdata]; exact hc)
        simp [Option.filter, hkey]
    · intro name c hc hname
      have hkey := hs ⟨k.domain, k.path, name⟩ c (by rw [get, hdata]; exact hc)
      have hne : c.key ≠ k := fun h => hname (congrArg Key.name (hkey.symm.trans h))
      simp [hne]

/-! ## Histories -/

/-- A call on the store, with its time. -/
inductive Op where
  | update (cookie : Cookie) (now : Int)
  | getBy (domain path : LuaString) (now : Int)

/-- The time of a call. -/
def Op.time : Op → Int
  | .update _ now => now
  | .getBy _ _ now => now

/-- The store a call leaves. -/
def Op.exec : Op → Cookies → Cookies
  | .update cookie now, s => s.update cookie now
  | .getBy domain path now, s => (s.getBy domain path now).1

/-- The store after the calls of a history, whose latest call comes first. -/
def exec : List Op → Cookies
  | [] => ∅
  | op :: h => op.exec (exec h)

/-- The calls are made at non-decreasing times, the last of them not after `now`. -/
def Chronological (now : Int) (h : List Op) : Prop :=
  (now :: h.map Op.time).Pairwise (· ≥ ·)

/-- An update in a history, with the calls before it. -/
structure Update where
  cookie : Cookie
  time : Int
  before : List Op

/-- The last update of a key. -/
def lastUpdate (k : Key) : List Op → Option Update
  | [] => none
  | .update cookie t :: h => if k = cookie.key then some ⟨cookie, t, h⟩ else lastUpdate k h
  | .getBy _ _ _ :: h => lastUpdate k h

/-- What a key is to yield at the time `now` after the update `u`. -/
def Update.yields (u : Update) (now : Int) : List (LuaString × Option LuaString) :=
  if !u.cookie.blank && u.cookie.unexpired now then [u.cookie.pair] else []

/-- What the store yields for a key is what its last update wrote. -/
def LastWriteWins (h : List Op) (k : Key) (now : Int) : Prop :=
  ∀ domain path, InScope k domain path →
    (((exec h).found domain path now).filter (·.key = k)).map Cookie.pair =
      ((lastUpdate k h).map (·.yields now)).getD []

/-- `update` handles a cookie as an assignment, as far as the time `now` can tell:
    over another cookie, it has no value, has expired or expires later than that
    one; in an empty cell, it has a value or has expired. -/
def Assigns (now : Int) : Option Cookie → Cookie → Prop
  | some oldCookie, cookie =>
    ∀ x ∈ cookie.expires, ∀ e ∈ oldCookie.expires, x ≤ e → cookie.blank ∨ x ≤ now
  | none, cookie => cookie.blank → ∃ x ∈ cookie.expires, x ≤ now

instance {now : Int} {h : List Op} : Decidable (Chronological now h) :=
  inferInstanceAs (Decidable (List.Pairwise _ _))

instance : {now : Int} → {old : Option Cookie} → {c : Cookie} → Decidable (Assigns now old c)
  | _, some oldCookie, c => inferInstanceAs (Decidable (∀ x ∈ c.expires,
      ∀ e ∈ oldCookie.expires, x ≤ e → c.blank ∨ x ≤ _))
  | _, none, c => inferInstanceAs (Decidable (c.blank → ∃ x ∈ c.expires, x ≤ _))

theorem keyed_exec (h : List Op) : (exec h).Keyed := by
  induction h with
  | nil => exact keyed_empty
  | cons op h ih =>
    cases op with
    | update => exact ih.update
    | getBy => exact ih.purge

theorem Chronological.tail {op : Op} {h : List Op} (hc : Chronological now (op :: h)) :
    op.time ≤ now ∧ Chronological now h := by
  obtain ⟨hnow, hh⟩ := List.pairwise_cons.1 hc
  exact ⟨hnow _ List.mem_cons_self, List.pairwise_cons.2
    ⟨fun t ht => hnow t (List.mem_cons_of_mem _ ht), (List.pairwise_cons.1 hh).2⟩⟩

/-- Purging does not change what is left of a cell at a later time. -/
theorem filter_get_purge {t : Int} (ht : t ≤ now) :
    ((s.purge domain path t).get k).filter (·.unexpired now) =
      (s.get k).filter (·.unexpired now) := by
  rw [get_purge]
  split_ifs
  · rw [Option.filter_filter]
    congr 1
    funext c
    cases h : c.unexpired now with
    | false => simp
    | true => simp [Cookie.unexpired_mono ht h]
  · rfl

/-- What is left of a cell is what is left of the write of its last update. -/
theorem filter_get_exec {h : List Op} (hc : Chronological now h) :
    ((exec h).get k).filter (·.unexpired now) = (lastUpdate k h).bind fun u =>
      (write ((exec u.before).get k) u.cookie u.time).filter (·.unexpired now) := by
  induction h with
  | nil => rfl
  | cons op h ih =>
    have ⟨ht, hc'⟩ := hc.tail
    cases op with
    | update cookie t =>
      rw [exec, Op.exec, get_update, lastUpdate]
      split_ifs
      · rfl
      · exact ih hc'
    | getBy domain path t =>
      rw [lastUpdate, ← ih hc']
      exact filter_get_purge ht

theorem time_le_of_lastUpdate {h : List Op} {u : Update} (hc : Chronological now h)
    (hu : lastUpdate k h = some u) : u.time ≤ now := by
  induction h with
  | nil => cases hu
  | cons op h ih =>
    have ⟨ht, hc'⟩ := hc.tail
    cases op with
    | update cookie t =>
      rw [lastUpdate] at hu
      split_ifs at hu
      · cases hu
        exact ht
      · exact ih hc' hu
    | getBy domain path t => exact ih hc' hu

theorem unexpired_iff {c : Cookie} : c.unexpired now ↔ ∀ x ∈ c.expires, now < x := by
  simp [Cookie.unexpired, Option.all_eq_true]

theorem assigns_none_iff : Assigns now none cookie ↔
    (cookie.blank → cookie.unexpired now = false) := by
  have hneg : cookie.unexpired now = false ↔ ∃ x ∈ cookie.expires, x ≤ now := by
    rw [← Bool.not_eq_true, unexpired_iff]
    simp
  rw [Assigns, hneg]

/-- That the stored cookie expires earlier only matters when it has an expiry:
    the update itself is not after `now`. -/
theorem assigns_some_iff {oldCookie : Cookie} {t : Int} (ht : t ≤ now) :
    Assigns now (some oldCookie) cookie ↔ (cookie.blank = false → cookie.unexpired now →
      cookie.expires.any (· ≤ oldCookie.expires.getD t) = false) := by
  rw [Assigns, unexpired_iff]
  cases cookie.expires with
  | none => simp
  | some x =>
    cases oldCookie.expires with
    | none =>
      simp
      omega
    | some e =>
      simp
      grind

/-- What is left of a write is what it is to yield if and only if `update`
    handles the cookie as an assignment. -/
theorem write_eq_yields_iff {old : Option Cookie} {u : Update} (hu : u.time ≤ now) :
    ((write old u.cookie u.time).filter (·.unexpired now)).toList.map Cookie.pair =
      u.yields now ↔ Assigns now old u.cookie := by
  obtain ⟨cookie, t, before⟩ := u
  cases old with
  | none =>
    rw [assigns_none_iff]
    simp only [write, Update.yields]
    cases cookie.blank <;> cases hu : cookie.unexpired now <;> simp [Option.filter, hu]
  | some oldCookie =>
    rw [assigns_some_iff hu]
    simp only [write, Update.yields]
    cases cookie.blank <;> cases hu : cookie.unexpired now <;>
      cases cookie.expires.any (· ≤ oldCookie.expires.getD t) <;> simp [Option.filter, hu]

theorem lastWriteWins_iff_get {h : List Op} : LastWriteWins h k now ↔
    (((exec h).get k).filter (·.unexpired now)).toList.map Cookie.pair =
      ((lastUpdate k h).map (·.yields now)).getD [] := by
  constructor
  · intro hw
    -- The key's own domain and path look it up.
    have hk : InScope k k.domain k.path :=
      ⟨List.mem_dedup.2 List.mem_cons_self, startswith_iff.2 (List.prefix_refl _)⟩
    rw [← hw k.domain k.path hk, found_filter (keyed_exec h), if_pos hk]
  · intro hw domain path hk
    rw [found_filter (keyed_exec h), if_pos hk, hw]

/-- **Last write wins** for a key if and only if its last update was handled as
    an assignment. -/
theorem lastWriteWins_iff {h : List Op} (hc : Chronological now h) : LastWriteWins h k now ↔
    ∀ u ∈ lastUpdate k h, Assigns now ((exec u.before).get k) u.cookie := by
  rw [lastWriteWins_iff_get, filter_get_exec hc]
  cases hu : lastUpdate k h with
  | none => simp
  | some u => simpa using write_eq_yields_iff (time_le_of_lastUpdate hc hu)

/-- The session cookie `a=1` of a host. -/
def sessionCookie (expires : Option Int) : Cookie :=
  ⟨['a'], some ['1'], ['/'], ['h'], expires⟩

theorem lastWriteWins_iff_later :
    LastWriteWins [.getBy ['h'] ['/'] 4, .update (sessionCookie (some 20)) 2,
      .update (sessionCookie (some 10)) 1] (sessionCookie none).key 5 :=
  (lastWriteWins_iff (by decide)).2 (by decide)

/-- Repeating an update with the same expiry, which is still to come, removes the
    cookie. -/
theorem repeated_update_not_lastWriteWins :
    ¬ ∀ h k now, Chronological now h → LastWriteWins h k now := by
  intro hall
  have h := hall [.update (sessionCookie (some 10)) 2, .update (sessionCookie (some 10)) 1]
    (sessionCookie none).key 5 (by decide)
  exact absurd (lastWriteWins_iff_get.1 h) (by decide)

end Cookies

end Mistress
