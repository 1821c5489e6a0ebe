import Mathlib.Data.List.DropRight
import Mathlib.Data.List.Infix

/-!
# Lua patterns

The pattern matching of Lua's string library (`lib_string.c`), on strings given
as lists of characters. A pattern is a list of items: a class of characters
matched once or repeatedly, the beginning or the end of a capture, or the end of
the subject. The matcher backtracks: a repetition is tried with the most
characters first, then with fewer (`maxExpand`).

* `strMatch`: `string.match`, the captures of the first match;
* `gsubMatches`: the captures of the successive matches `string.gsub` replaces.

A greedy repetition after which the rest of the pattern matches is done without
backtracking (`maxExpand_of_some`), which is how patterns whose items exclude
each other are evaluated.
-/

namespace LuaPattern

/-- A class of characters. -/
inductive Cls
  /-- The character itself. -/
  | char (c : Char)
  /-- `.`, any character. -/
  | any
  /-- `%a`, a letter. -/
  | alpha
  /-- `%d`, a digit. -/
  | digit
  /-- `%s`, a white space. -/
  | space
  /-- `%S`, anything but a white space. -/
  | nonspace
  /-- `[…]`, one of `cs`. -/
  | set (cs : List Char)
  /-- `[^…]`, none of `cs`. -/
  | compl (cs : List Char)

/-- A white space: a blank, or one of the control characters from tab to carriage return. -/
def isSpace (c : Char) : Bool := c = ' ' || (9 ≤ c.toNat && c.toNat ≤ 13)

/-- Whether a character belongs to a class (`singlematch`). -/
def Cls.test : Cls → Char → Bool
  | .char c, x => x == c
  | .any, _ => true
  | .alpha, x => x.isAlpha
  | .digit, x => x.isDigit
  | .space, x => isSpace x
  | .nonspace, x => !isSpace x
  | .set cs, x => x ∈ cs
  | .compl cs, x => x ∉ cs

/-- An item of a pattern. -/
inductive Item
  /-- A class, once. -/
  | one (c : Cls)
  /-- `*`, the longest possible run of a class. -/
  | star (c : Cls)
  /-- `+`, the longest possible run of a class, not empty. -/
  | plus (c : Cls)
  /-- `(`, the beginning of a capture. -/
  | opn
  /-- `)`, the end of the capture begun last. -/
  | cls
  /-- `$`, the end of the subject. -/
  | stop

/-- A capture: begun where `init` was left to match, or ended with its text. -/
inductive Capture
  | opened (init : List Char)
  | closed (text : List Char)

/-- Ending the capture begun last, where `s` is left to match; the captures are
    listed from the last one begun. -/
def closeLast (s : List Char) : List Capture → List Capture
  | [] => []
  | .opened init :: caps => .closed (init.take (init.length - s.length)) :: caps
  | .closed text :: caps => .closed text :: closeLast s caps

/-- The longest run of the class `c` after which `k` succeeds (`max_expand`). -/
def maxExpand {β : Type*} (c : Cls) (k : List Char → Option β) : List Char → Option β
  | [] => k []
  | x :: s => if c.test x then maxExpand c k s <|> k (x :: s) else k (x :: s)

/-- Matching the items `p` at the beginning of `s`: the captures and what is left
    of `s` (`match`). -/
def go : List Item → List Capture → List Char → Option (List Capture × List Char)
  | [], caps, s => some (caps, s)
  | .opn :: p, caps, s => go p (.opened s :: caps) s
  | .cls :: p, caps, s => go p (closeLast s caps) s
  | .stop :: p, caps, s => if s = [] then go p caps s else none
  | .one c :: p, caps, s =>
    match s with
    | [] => none
    | x :: s => if c.test x then go p caps s else none
  | .star c :: p, caps, s => maxExpand c (go p caps) s
  | .plus c :: p, caps, s =>
    match s with
    | [] => none
    | x :: s => if c.test x then maxExpand c (go p caps) s else none

/-- The text of a capture. -/
def Capture.text : Capture → List Char
  | .opened _ => []
  | .closed text => text

/-- The strings a match gives: its captures, or the whole match if there are none. -/
def results (s : List Char) : List Capture × List Char → List (List Char)
  | ([], rest) => [s.take (s.length - rest.length)]
  | (caps, _) => (caps.map Capture.text).reverse

/-- A match of `p` at the beginning of `s`. -/
def matchAt (p : List Item) (s : List Char) : Option (List (List Char)) :=
  (go p [] s).map (results s)

/-- `string.match` for a pattern that is not anchored: the first match. -/
def strMatch (p : List Item) (s : List Char) : Option (List (List Char)) :=
  s.tails.findSome? (matchAt p)

/-- The loop of `string.gsub`, for at most `n` rounds. -/
def gsubLoop (p : List Item) : Nat → List Char → List (List (List Char))
  | 0, _ => []
  | n + 1, s =>
    match go p [] s with
    | some (caps, e) =>
      results s (caps, e) ::
        if e.length < s.length then gsubLoop p n e else match s with
          | [] => []
          | _ :: s => gsubLoop p n s
    | none =>
      match s with
      | [] => []
      | _ :: s => gsubLoop p n s

/-- The successive matches that `string.gsub` replaces. -/
def gsubMatches (p : List Item) (s : List Char) : List (List (List Char)) :=
  gsubLoop p (s.length + 1) s

/-! ## Repetitions -/

variable {β : Type*} {c : Cls} {k : List Char → Option β} {s : List Char}

/-- If the rest of the pattern matches after the whole run, there is no backtracking. -/
theorem maxExpand_of_some {r : β} (h : k (s.dropWhile c.test) = some r) :
    maxExpand c k s = some r := by
  induction s with
  | nil => exact h
  | cons x s ih =>
    by_cases hx : c.test x = true
    · rw [List.dropWhile_cons_of_pos hx] at h
      simp [maxExpand, hx, ih h]
    · rw [List.dropWhile_cons_of_neg hx] at h
      simp [maxExpand, hx, h]

/-- If the rest of the pattern matches nowhere, neither does the repetition. -/
theorem maxExpand_eq_none (h : ∀ t, t <:+ s → k t = none) : maxExpand c k s = none := by
  induction s with
  | nil => exact h [] List.suffix_rfl
  | cons x s ih =>
    have hs := ih fun t ht => h t (ht.trans (List.suffix_cons x s))
    simp [maxExpand, hs, h (x :: s) List.suffix_rfl]

/-- A run of the class `c` before a string that does not begin with it. -/
theorem maxExpand_append {t : List Char} {r : β} (hs : ∀ x ∈ s, c.test x)
    (ht : ∀ x ∈ t.head?, c.test x = false) (h : k t = some r) :
    maxExpand c k (s ++ t) = some r := by
  apply maxExpand_of_some
  rw [List.dropWhile_append_of_pos hs]
  cases t with
  | nil => exact h
  | cons x t => rwa [List.dropWhile_cons_of_neg (by simpa using ht x rfl)]

/-- The run of any characters goes as far as the rest of the pattern matches. -/
theorem maxExpand_any_append {t : List Char} {r : β} (ht : maxExpand .any k t = some r) :
    maxExpand .any k (s ++ t) = some r := by
  induction s with
  | nil => exact ht
  | cons x s ih => simp [maxExpand, Cls.test, ih]

theorem go_one {p : List Item} {caps : List Capture} {x : Char} {m : List Capture × List Char}
    (hc : c.test x) (h : go p caps s = some m) : go (.one c :: p) caps (x :: s) = some m := by
  rw [go, if_pos hc, h]

theorem head_test {y : Char} (hy : c.test y = false) : ∀ x ∈ (y :: s).head?, c.test x = false := by
  rintro _ ⟨⟩
  exact hy

@[simp] theorem closeLast_append {r t : List Char} {caps : List Capture} :
    closeLast t (.opened (r ++ t) :: caps) = .closed r :: caps := by
  rw [closeLast, List.length_append, Nat.add_sub_cancel, List.take_left]

/-- A run of the class `c`, before a string that does not begin with it. -/
theorem go_plus {p : List Item} {caps : List Capture} {r t : List Char}
    {m : List Capture × List Char} (hr : r ≠ []) (hc : ∀ x ∈ r, c.test x)
    (ht : ∀ x ∈ t.head?, c.test x = false) (h : go p caps t = some m) :
    go (.plus c :: p) caps (r ++ t) = some m := by
  obtain ⟨x, r, rfl⟩ := List.exists_cons_of_ne_nil hr
  rw [List.cons_append, go, if_pos (hc x List.mem_cons_self)]
  exact maxExpand_append (fun y hy => hc y (List.mem_cons_of_mem _ hy)) ht h

/-- The capture of such a run. -/
theorem go_capture {p : List Item} {caps : List Capture} {r t : List Char}
    {m : List Capture × List Char} (hr : r ≠ []) (hc : ∀ x ∈ r, c.test x)
    (ht : ∀ x ∈ t.head?, c.test x = false) (h : go p (.closed r :: caps) t = some m) :
    go (.opn :: .plus c :: .cls :: p) caps (r ++ t) = some m := by
  rw [go]
  refine go_plus hr hc ht ?_
  rwa [go, closeLast_append]

/-- A match at the beginning of the subject is the first one. -/
theorem strMatch_of_go {p : List Item} {m : List Capture × List Char} (h : go p [] s = some m) :
    strMatch p s = some (results s m) := by
  cases s <;> simp [strMatch, matchAt, h]

/-! ## What a pattern matches -/

/-- A repetition matches if some run of its class is followed by a match of the rest:
    the backtracking tries all of them. -/
theorem maxExpand_isSome_iff : (maxExpand c k s).isSome ↔
    ∃ r t, s = r ++ t ∧ (∀ x ∈ r, c.test x) ∧ (k t).isSome := by
  induction s with
  | nil =>
    constructor
    · intro h
      exact ⟨[], [], rfl, by simp, h⟩
    · rintro ⟨r, t, hs, -, h⟩
      obtain ⟨rfl, rfl⟩ := List.append_eq_nil_iff.1 hs.symm
      exact h
  | cons x s ih =>
    by_cases hx : c.test x = true
    · rw [maxExpand, if_pos hx, Option.orElse_eq_orElse, Option.orElse_eq_or, Option.isSome_or,
        Bool.or_eq_true, ih]
      constructor
      · rintro (⟨r, t, rfl, hr, h⟩ | h)
        · exact ⟨x :: r, t, rfl, List.forall_mem_cons.2 ⟨hx, hr⟩, h⟩
        · exact ⟨[], x :: s, rfl, by simp, h⟩
      · rintro ⟨r, t, hs, hr, h⟩
        cases r with
        | nil =>
          obtain rfl : x :: s = t := hs
          exact .inr h
        | cons y r =>
          obtain ⟨rfl, rfl⟩ := List.cons.inj hs
          exact .inl ⟨r, t, rfl, (List.forall_mem_cons.1 hr).2, h⟩
    · rw [maxExpand, if_neg hx]
      constructor
      · intro h
        exact ⟨[], x :: s, rfl, by simp, h⟩
      · rintro ⟨r, t, hs, hr, h⟩
        cases r with
        | nil =>
          obtain rfl : x :: s = t := hs
          exact h
        | cons y r =>
          obtain ⟨rfl, -⟩ := List.cons.inj hs
          exact absurd (hr x List.mem_cons_self) hx

theorem go_one_isSome_iff {p : List Item} {caps : List Capture} :
    (go (.one c :: p) caps s).isSome ↔ ∃ x t, s = x :: t ∧ c.test x ∧ (go p caps t).isSome := by
  cases s with
  | nil => simp [go]
  | cons x s =>
    rw [go]
    split_ifs with hx
    · simp [hx]
    · simp [hx]

theorem go_plus_isSome_iff {p : List Item} {caps : List Capture} :
    (go (.plus c :: p) caps s).isSome ↔
      ∃ r t, s = r ++ t ∧ (r ≠ [] ∧ ∀ x ∈ r, c.test x) ∧ (go p caps t).isSome := by
  cases s with
  | nil =>
    simp only [go, Option.isSome_none, Bool.false_eq_true, false_iff]
    rintro ⟨r, t, hs, ⟨hr, -⟩, -⟩
    exact hr (List.append_eq_nil_iff.1 hs.symm).1
  | cons x s =>
    rw [go]
    split_ifs with hx
    · rw [maxExpand_isSome_iff]
      constructor
      · rintro ⟨r, t, rfl, hr, h⟩
        exact ⟨x :: r, t, rfl, ⟨List.cons_ne_nil _ _, List.forall_mem_cons.2 ⟨hx, hr⟩⟩, h⟩
      · rintro ⟨r, t, hs, ⟨hne, hr⟩, h⟩
        obtain ⟨y, r, rfl⟩ := List.exists_cons_of_ne_nil hne
        obtain ⟨rfl, rfl⟩ := List.cons.inj hs
        exact ⟨r, t, rfl, (List.forall_mem_cons.1 hr).2, h⟩
    · simp only [Option.isSome_none, Bool.false_eq_true, false_iff]
      rintro ⟨r, t, hs, ⟨hne, hr⟩, -⟩
      obtain ⟨y, r, rfl⟩ := List.exists_cons_of_ne_nil hne
      obtain ⟨rfl, -⟩ := List.cons.inj hs
      exact hx (hr x List.mem_cons_self)

/-- A pattern that is not anchored matches anywhere. -/
theorem strMatch_isSome_iff {p : List Item} :
    (strMatch p s).isSome ↔ ∃ t, t <:+ s ∧ (go p [] t).isSome := by
  simp [strMatch, matchAt, List.findSome?_isSome_iff]

/-! ## Successive matches -/

/-- The loop of `gsub` needs no more rounds than there are characters left. -/
theorem gsubLoop_congr {p : List Item} {n m : Nat} (hn : s.length < n) (hm : s.length < m) :
    gsubLoop p n s = gsubLoop p m s := by
  induction n generalizing m s with
  | zero => omega
  | succ n ih =>
    cases m with
    | zero => omega
    | succ m =>
      simp only [gsubLoop]
      split
      · split
        · rw [ih (m := m) (by omega) (by omega)]
        · split
          · rfl
          · simp only [List.length_cons] at hn hm
            rw [ih (m := m) (by omega) (by omega)]
      · split
        · rfl
        · simp only [List.length_cons] at hn hm
          rw [ih (m := m) (by omega) (by omega)]

end LuaPattern
