import Mistress.Pattern

/-!
# Utilities

The string functions of `utils.lua`, on Lua strings as lists of characters. They
are Lua patterns, whose results are computed here once and for all:

* `trim` removes the white space at both ends of a string (`trim_eq`);
* `split` gives the maximal runs of characters other than the separator: the
  fields of the string, without the empty ones (`split_nil`, `split_sep_cons`,
  `split_run`).
-/

namespace Mistress

open LuaPattern

/-- A Lua string. -/
abbrev LuaString := List Char

instance : LawfulBEq LuaString := inferInstance

/-- What a Lua function raises. -/
inductive LuaError where
  /-- `attempt to index a nil value`. -/
  | indexNil
  /-- `attempt to concatenate a nil value`. -/
  | concatNil
  /-- `table index is nil`. -/
  | nilKey
  /-- `assertion failed!`. -/
  | assertion
  /-- The argument of `error`. -/
  | message (text : LuaString)
  deriving DecidableEq

section Except

variable {ε α β : Type}

theorem bind_ok (a : α) (f : α → Except ε β) : (Except.ok a >>= f) = f a := rfl

theorem bind_error (e : ε) (f : α → Except ε β) : (Except.error e >>= f) = .error e := rfl

/-- A sequence succeeds if and only if both of its parts do. -/
theorem bind_eq_ok {x : Except ε α} {f : α → Except ε β} {b : β} :
    (x >>= f) = .ok b ↔ ∃ a, x = .ok a ∧ f a = .ok b := by
  cases x with
  | error e => simp [bind_error]
  | ok a => simp [bind_ok]

end Except

namespace Utils

/-- `utils.trim`, with the pattern `^%s*(.*%S)`. -/
def trim (s : LuaString) : LuaString :=
  match matchAt [.star .space, .opn, .star .any, .one .nonspace, .cls] s with
  | some (r :: _) => r
  | _ => []

/-- `utils.split`, with the pattern `([^sep]+)`. -/
def split (s : LuaString) (sep : Char) : List LuaString :=
  (gsubMatches [.opn, .plus (.compl [sep]), .cls] s).filterMap List.head?

/-- `utils.startswith`. -/
def startswith (s pfx : LuaString) : Bool := s.take pfx.length == pfx

theorem startswith_iff {s pfx : LuaString} : startswith s pfx ↔ pfx <+: s := by
  rw [startswith, beq_iff_eq, List.prefix_iff_eq_take, eq_comm]

/-! ## Splitting -/

variable {s r rest : LuaString} {sep : Char}

/-- A run of characters other than the separator, up to the end or to a separator. -/
theorem go_split (hr : r ≠ []) (hsep : sep ∉ r) (hrest : ∀ c ∈ rest.head?, c = sep) :
    go [.opn, .plus (.compl [sep]), .cls] [] (r ++ rest) = some ([.closed r], rest) := by
  refine go_capture hr (fun x hx => ?_) (fun x hx => ?_) rfl
  · simpa [Cls.test] using fun e : x = sep => hsep (e ▸ hx)
  · simpa [Cls.test] using hrest x hx

theorem go_split_sep : go [.opn, .plus (.compl [sep]), .cls] [] (sep :: s) = none := by
  simp [go, Cls.test]

@[simp] theorem split_nil : split [] sep = [] := by
  simp [split, gsubMatches, gsubLoop, go]

/-- A separator is skipped. -/
@[simp] theorem split_sep_cons : split (sep :: s) sep = split s sep := by
  simp [split, gsubMatches, gsubLoop, go_split_sep]

/-- A run of other characters is a field. -/
theorem split_run (hr : r ≠ []) (hsep : sep ∉ r) (hrest : ∀ c ∈ rest.head?, c = sep) :
    split (r ++ rest) sep = r :: split rest sep := by
  have hlt : rest.length < (r ++ rest).length := by
    have := List.length_pos_iff.2 hr
    simp only [List.length_append]
    omega
  simp only [split, gsubMatches, gsubLoop, go_split hr hsep hrest, hlt, if_true]
  rw [gsubLoop_congr hlt (Nat.lt_succ_self _)]
  rfl

/-- A string without separators is one field. -/
theorem split_of_not_mem (hr : r ≠ []) (hsep : sep ∉ r) : split r sep = [r] := by
  have h : split (r ++ []) sep = r :: split [] sep := split_run hr hsep (by simp)
  rwa [List.append_nil, split_nil] at h

theorem not_mem_run {x : Char} (hx : x ≠ sep) : sep ∉ x :: s.takeWhile (· ≠ sep) := by
  intro h
  rcases List.mem_cons.1 h with rfl | h
  · exact hx rfl
  · simpa using List.mem_takeWhile_imp h

/-- The first field of a string that does not begin with a separator. -/
theorem split_cons_of_ne {x : Char} (hx : x ≠ sep) :
    split (x :: s) sep = (x :: s.takeWhile (· ≠ sep)) :: split (s.dropWhile (· ≠ sep)) sep := by
  have hsplit : x :: s = (x :: s.takeWhile (· ≠ sep)) ++ s.dropWhile (· ≠ sep) := by
    rw [List.cons_append, List.takeWhile_append_dropWhile]
  rw [hsplit, split_run (List.cons_ne_nil _ _) (not_mem_run hx)]
  intro c hc
  have hdrop := List.head?_dropWhile_not (· ≠ sep) s
  rw [Option.mem_def.1 hc] at hdrop
  simpa using hdrop

/-- The first field, before a separator. -/
theorem split_append_sep (hr : r ≠ []) (hsep : sep ∉ r) :
    split (r ++ sep :: s) sep = r :: split s sep := by
  rw [split_run hr hsep (by simp), split_sep_cons]

/-- A string has no field if and only if it is made of separators. -/
theorem split_eq_nil_iff : split s sep = [] ↔ ∀ c ∈ s, c = sep := by
  induction s with
  | nil => simp
  | cons x s ih =>
    by_cases hx : x = sep
    · subst hx
      simp [ih]
    · simp [split_cons_of_ne hx, hx]

/-- The first field is a part of the string without separators. -/
theorem head_split {f : LuaString} (hf : f ∈ (split s sep).head?) : sep ∉ f ∧ f.Sublist s := by
  induction s with
  | nil => simp at hf
  | cons x s ih =>
    by_cases hx : x = sep
    · subst hx
      rw [split_sep_cons] at hf
      exact ⟨(ih hf).1, (ih hf).2.cons x⟩
    · rw [split_cons_of_ne hx, List.head?_cons, Option.mem_some_iff] at hf
      subst hf
      exact ⟨not_mem_run hx, (s.takeWhile_sublist _).cons_cons x⟩

/-- The fields of strings without separators, joined by separators, are those of
    them that are not empty. -/
theorem split_intercalate {fs : List LuaString} (hfs : ∀ f ∈ fs, sep ∉ f) :
    split ([sep].intercalate fs) sep = fs.filter (· ≠ []) := by
  induction fs with
  | nil => simp [List.intercalate]
  | cons f fs ih =>
    have ih := ih fun g hg => hfs g (List.mem_cons_of_mem _ hg)
    have hf := hfs f List.mem_cons_self
    have hcons : ∀ t, split (f ++ sep :: t) sep = (if f ≠ [] then [f] else []) ++ split t sep := by
      intro t
      by_cases hne : f = []
      · simp [hne]
      · rw [split_append_sep hne hf, if_pos hne]
        rfl
    cases fs with
    | nil =>
      by_cases hne : f = []
      · simp [List.intercalate, hne]
      · simp [List.intercalate, split_of_not_mem hne hf, hne]
    | cons g gs =>
      have : [sep].intercalate (f :: g :: gs) = f ++ sep :: [sep].intercalate (g :: gs) := by
        simp [List.intercalate, List.intersperse]
      rw [this, hcons, ih]
      by_cases hne : f = [] <;> simp [hne]

/-! ## Trimming -/

/-- Whether a string neither begins nor ends with white space. -/
def Trimmed (s : LuaString) : Prop :=
  (∀ c ∈ s.head?, isSpace c = false) ∧ ∀ c ∈ s.getLast?, isSpace c = false

theorem go_lastNonspace_eq_none {caps : List Capture} (hs : ∀ c ∈ s, isSpace c) :
    maxExpand .any (go [.one .nonspace, .cls] caps) s = none := by
  refine maxExpand_eq_none fun t ht => ?_
  cases t with
  | nil => rfl
  | cons x t =>
    have hx : isSpace x = true := hs x (ht.subset List.mem_cons_self)
    simp [go, Cls.test, hx]

/-- The run before the last character that is no white space. -/
theorem go_lastNonspace {caps : List Capture} {x : Char} (hx : isSpace x = false)
    (hs : ∀ c ∈ s, isSpace c) :
    maxExpand .any (go [.one .nonspace, .cls] caps) (r ++ x :: s) = some (closeLast s caps, s) := by
  have hx' : go [.one .nonspace, .cls] caps (x :: s) = some (closeLast s caps, s) := by
    simp [go, Cls.test, hx]
  refine maxExpand_any_append ?_
  rw [maxExpand, go_lastNonspace_eq_none hs, hx']
  rfl

/-- `trim` removes the white space around a string. -/
theorem trim_pad {ws ws' : LuaString} (hws : ∀ c ∈ ws, isSpace c) (hs : Trimmed s)
    (hws' : ∀ c ∈ ws', isSpace c) : trim (ws ++ s ++ ws') = s := by
  rcases s.eq_nil_or_concat with rfl | ⟨r, x, rfl⟩
  · -- There is only white space, and the pattern does not match.
    have hall : ∀ c ∈ ws ++ ws', isSpace c := fun c hc =>
      (List.mem_append.1 hc).elim (hws c) (hws' c)
    have hgo : go [.star .space, .opn, .star .any, .one .nonspace, .cls] [] (ws ++ ws') = none := by
      rw [go]
      exact maxExpand_eq_none fun t ht => go_lastNonspace_eq_none fun c hc => hall c (ht.subset hc)
    simp [trim, matchAt, hgo]
  · rw [List.concat_eq_append] at hs ⊢
    have hx : isSpace x = false := hs.2 x (by simp)
    have hsplit : r ++ x :: ws' = r ++ [x] ++ ws' := by rw [List.append_assoc]; rfl
    have hclose : closeLast ws' [.opened (r ++ x :: ws')] = [.closed (r ++ [x])] := by
      rw [hsplit, closeLast_append]
    have hgo : go [.star .space, .opn, .star .any, .one .nonspace, .cls] []
        (ws ++ (r ++ [x] ++ ws')) = some ([.closed (r ++ [x])], ws') := by
      rw [go]
      refine maxExpand_append hws (fun c hc => hs.1 c ?_) ?_
      · cases r with
        | nil => simpa using hc
        | cons y r => simpa using hc
      · rw [go, go, ← hsplit, go_lastNonspace hx hws', hclose]
    rw [List.append_assoc, trim, matchAt, hgo]
    rfl

end Utils

end Mistress
