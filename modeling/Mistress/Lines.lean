import Mathlib.Data.List.Infix

/-!
# Lines

Texts made of lines, each ended by a line break, `crlf`.

* `split`: the lines of a text that may contain line breaks;
* `unlines`: the text of some lines;
* `cut`: the lines before the first empty one, and the text after it;
* `cutAt`: the text before and after a delimiter.

A head of lines without line breaks, none of them empty, can be cut off from any text
(`cut_unlines`); with an empty line in it, it is cut off too early (`cut_unlines_of_mem`).
A delimiter whose first symbol occurs in it once is found where it has been put
(`cutAt_append`).
-/

namespace Lines

/-- A line break. -/
def crlf : List Char := ['\r', '\n']

/-- The text does not contain a line break. -/
def Unbroken (l : List Char) : Prop := ¬ crlf <:+: l

instance {l : List Char} : Decidable (Unbroken l) := inferInstanceAs (Decidable (¬ _))

/-- The text of some lines. -/
def unlines (ls : List (List Char)) : List Char := ls.flatMap (· ++ crlf)

/-- The lines of a text, whose last line has no line break. -/
def split : List Char → List (List Char)
  | [] => [[]]
  | '\r' :: '\n' :: s => [] :: split s
  | c :: s => (split s).modifyHead (c :: ·)

/-- The lines up to the first empty line, and the text after it. `line` is what has been read
    of a line, in reverse. -/
def cut (line : List Char) : List Char → Option (List (List Char) × List Char)
  | [] => none
  | '\r' :: '\n' :: s =>
    if line = [] then some ([], s) else (cut [] s).map fun r => (line.reverse :: r.1, r.2)
  | c :: s => cut (c :: line) s

/-- The text before and after the first occurrence of a delimiter. -/
def cutAt (d : List Char) : List Char → Option (List Char × List Char)
  | [] => if d = [] then some ([], []) else none
  | c :: s =>
    if d <+: c :: s then some ([], (c :: s).drop d.length)
    else (cutAt d s).map fun r => (c :: r.1, r.2)

variable {c : Char} {l line s : List Char} {ls : List (List Char)}

/-! ## Texts without line breaks -/

/-- The text does not begin with a line break. -/
def Starts (c : Char) (s : List Char) : Prop := ¬ (c = '\r' ∧ s.head? = some '\n')

theorem crlf_prefix_cons : crlf <+: c :: s ↔ c = '\r' ∧ s.head? = some '\n' := by
  rw [crlf, List.cons_prefix_cons]
  refine and_congr eq_comm ?_
  cases s with
  | nil => simp
  | cons x s => simp [eq_comm]

theorem unbroken_cons : Unbroken (c :: s) ↔ Starts c s ∧ Unbroken s := by
  rw [Unbroken, List.infix_cons_iff, crlf_prefix_cons, not_or, Starts, Unbroken]

@[simp] theorem unbroken_nil : Unbroken [] := by
  rw [Unbroken, List.infix_nil]
  exact List.cons_ne_nil _ _

theorem unbroken_of_not_mem (h : '\r' ∉ l) : Unbroken l := fun hl =>
  h (hl.subset List.mem_cons_self)

/-- A line break does not end where another text begins, unless that begins with `'\n'`. -/
theorem unbroken_append (hs : s.head? ≠ some '\n') :
    Unbroken (l ++ s) ↔ Unbroken l ∧ Unbroken s := by
  induction l with
  | nil => simp
  | cons x l ih =>
    -- A line break at the end of the first text would end where the second one begins.
    have hstarts : Starts x (l ++ s) ↔ Starts x l := by
      cases l with
      | nil => simp [Starts, hs]
      | cons y l => rfl
    rw [List.cons_append, unbroken_cons, unbroken_cons, ih, hstarts, and_assoc]

theorem Unbroken.of_isPrefix {l' : List Char} (h : Unbroken l) (hl : l' <+: l) : Unbroken l' :=
  fun hbreak => h (hbreak.trans hl.isInfix)

/-! ## The lines of a text -/

theorem split_cons (h : Starts c s) : split (c :: s) = (split s).modifyHead (c :: ·) := by
  rw [split]
  rintro s' rfl rfl
  exact h ⟨rfl, rfl⟩

theorem split_ne_nil (s : List Char) : split s ≠ [] := by
  fun_induction split s with
  | case1 => exact List.cons_ne_nil _ _
  | case2 => exact List.cons_ne_nil _ _
  | case3 c s _ ih =>
    cases hs : split s with
    | nil => exact absurd hs ih
    | cons => exact List.cons_ne_nil _ _

/-- A text without line breaks becomes a part of the first line. -/
theorem split_append (h : Unbroken (l ++ ['\n'])) :
    split (l ++ s) = (split s).modifyHead (l ++ ·) := by
  induction l with
  | nil =>
    rw [List.nil_append]
    cases split s <;> rfl
  | cons x l ih =>
    rw [List.cons_append, unbroken_cons] at h
    -- The first character begins no line break, even at the end of the text.
    have hstarts : Starts x (l ++ s) := by
      cases l with
      | nil => exact fun hx => h.1 ⟨hx.1, rfl⟩
      | cons y l => exact h.1
    rw [List.cons_append, split_cons hstarts, ih h.2]
    cases split s <;> rfl

/-- The lines of a text make up the text. -/
theorem unlines_split (s : List Char) : unlines (split s) = s ++ crlf := by
  fun_induction split s with
  | case1 => rfl
  | case2 s ih => exact congrArg (crlf ++ ·) ih
  | case3 c s _ ih =>
    cases hs : split s with
    | nil => exact absurd hs (split_ne_nil s)
    | cons l ls =>
      rw [hs] at ih
      exact congrArg (c :: ·) ih

/-- A line has no line break. -/
theorem unbroken_of_mem_split (h : l ∈ split s) : Unbroken l := by
  fun_induction split s generalizing l with
  | case1 =>
    obtain rfl := List.mem_singleton.1 h
    exact unbroken_nil
  | case2 s ih =>
    rcases List.mem_cons.1 h with rfl | h
    · exact unbroken_nil
    · exact ih h
  | case3 c s hs ih =>
    cases hsplit : split s with
    | nil => exact absurd hsplit (split_ne_nil s)
    | cons l' ls =>
      rw [hsplit] at h ih
      rcases List.mem_cons.1 h with rfl | h
      · refine unbroken_cons.2 ⟨?_, ih List.mem_cons_self⟩
        rintro ⟨rfl, hl⟩
        -- The line begins as the text does.
        obtain ⟨l', rfl⟩ := List.head?_eq_some_iff.1 hl
        have htext := unlines_split s
        rw [hsplit] at htext
        cases s with
        | nil => cases htext
        | cons x s =>
          obtain rfl := (List.cons.inj htext).1
          exact hs s rfl rfl
      · exact ih (List.mem_cons_of_mem _ h)

theorem unlines_append (ls ls' : List (List Char)) :
    unlines (ls ++ ls') = unlines ls ++ unlines ls' := List.flatMap_append

/-- The text of texts is the text of their lines. -/
theorem unlines_flatMap_split (ss : List (List Char)) : unlines (ss.flatMap split) = unlines ss := by
  induction ss with
  | nil => rfl
  | cons s ss ih =>
    rw [List.flatMap_cons, unlines_append, unlines_split, ih]
    rfl

/-- Lines joined by line breaks, before another line break. -/
theorem intercalate_append_crlf (l : List Char) (ls : List (List Char)) :
    crlf.intercalate (l :: ls) ++ crlf = unlines (l :: ls) := by
  induction ls generalizing l with
  | nil => simp [List.intercalate, unlines]
  | cons l' ls ih =>
    have hcons : crlf.intercalate (l :: l' :: ls) = l ++ crlf ++ crlf.intercalate (l' :: ls) := by
      simp [List.intercalate, List.intersperse]
    rw [hcons, List.append_assoc, ih]
    rfl

/-- Translating the symbols of joined lines. -/
theorem map_intercalate {α β : Type*} (f : α → β) (sep : List α) (ls : List (List α)) :
    (sep.intercalate ls).map f = (sep.map f).intercalate (ls.map (List.map f)) := by
  induction ls with
  | nil => rfl
  | cons l ls ih =>
    cases ls with
    | nil => simp [List.intercalate]
    | cons l' ls =>
      simp only [List.intercalate, List.intersperse, List.map_cons, List.flatten_cons,
        List.map_append] at ih ⊢
      rw [ih]

/-! ## Cutting off a head -/

theorem cut_cons (h : Starts c s) : cut line (c :: s) = cut (c :: line) s := by
  rw [cut]
  rintro s' rfl rfl
  exact h ⟨rfl, rfl⟩

theorem cut_append_crlf (h : Unbroken l) : cut line (l ++ crlf ++ s) =
    if line.reverse ++ l = [] then some ([], s)
    else (cut [] s).map fun r => ((line.reverse ++ l) :: r.1, r.2) := by
  induction l generalizing line with
  | nil =>
    simp only [List.append_nil, List.reverse_eq_nil_iff]
    rfl
  | cons c l ih =>
    rw [unbroken_cons] at h
    have hstarts : Starts c (l ++ crlf ++ s) := by
      cases l with
      | nil => exact fun hc => by cases hc.2
      | cons x l => exact h.1
    rw [List.cons_append, List.cons_append, cut_cons hstarts, ih h.2]
    simp

/-- A head without empty lines is cut off as it is. -/
theorem cut_unlines (h : ∀ l ∈ ls, Unbroken l ∧ l ≠ []) :
    cut [] (unlines ls ++ crlf ++ s) = some (ls, s) := by
  induction ls with
  | nil => rfl
  | cons l ls ih =>
    obtain ⟨⟨hl, hne⟩, h⟩ := List.forall_mem_cons.1 h
    have hcons : unlines (l :: ls) ++ crlf ++ s = l ++ crlf ++ (unlines ls ++ crlf ++ s) := by
      simp [unlines]
    rw [hcons, cut_append_crlf hl, List.reverse_nil, List.nil_append, if_neg hne, ih h]
    rfl

/-- A head with an empty line is cut off too early. -/
theorem cut_unlines_of_mem (h : ∀ l ∈ ls, Unbroken l) (hnil : [] ∈ ls) :
    ∃ r, cut [] (unlines ls ++ crlf ++ s) = some r ∧ s.length < r.2.length := by
  induction ls with
  | nil => cases hnil
  | cons l ls ih =>
    obtain ⟨hl, h⟩ := List.forall_mem_cons.1 h
    have hcons : unlines (l :: ls) ++ crlf ++ s = l ++ crlf ++ (unlines ls ++ crlf ++ s) := by
      simp [unlines]
    rw [hcons, cut_append_crlf hl, List.reverse_nil, List.nil_append]
    by_cases hne : l = []
    · refine ⟨_, if_pos hne, ?_⟩
      simp [crlf]
      omega
    · obtain ⟨r, hr, hlt⟩ := ih h ((List.mem_cons.1 hnil).resolve_left (Ne.symm hne))
      rw [if_neg hne, hr]
      exact ⟨_, rfl, hlt⟩

/-! ## Delimiters -/

/-- A delimiter does not begin in a text before it, unless it is in this text. -/
theorem prefix_append_iff {d x y : List Char} (hd : c ∉ d) (hx : x ≠ []) :
    c :: d <+: x ++ (c :: d ++ y) ↔ c :: d <+: x := by
  constructor
  · rintro ⟨w, hw⟩
    rcases List.append_eq_append_iff.1 hw with ⟨a, rfl, -⟩ | ⟨a, hxa, ha⟩
    · exact List.prefix_append _ _
    · cases a with
      | nil =>
        rw [List.append_nil] at hxa
        rw [hxa]
      | cons c' a =>
        obtain rfl := (List.cons.inj ha).1
        obtain ⟨x₀, x, rfl⟩ := List.exists_cons_of_ne_nil hx
        rw [List.cons_append] at hxa
        exact absurd ((List.cons.inj hxa).2 ▸ List.mem_append_right x List.mem_cons_self) hd
  · exact fun h => h.trans (List.prefix_append _ _)

/-- A delimiter is found where it has been put. -/
theorem cutAt_append {d x y : List Char} (hd : c ∉ d) (hx : ¬ c :: d <:+: x) :
    cutAt (c :: d) (x ++ (c :: d ++ y)) = some (x, y) := by
  induction x with
  | nil =>
    have hpre : c :: d <+: c :: (d ++ y) := List.prefix_append (c :: d) y
    have hdrop : (c :: (d ++ y)).drop (c :: d).length = y := List.drop_left
    rw [List.nil_append, List.cons_append, cutAt, if_pos hpre, hdrop]
  | cons a x ih =>
    rw [List.infix_cons_iff, not_or] at hx
    have hpre : ¬ c :: d <+: a :: (x ++ (c :: d ++ y)) := fun h =>
      hx.1 ((prefix_append_iff (x := a :: x) hd (List.cons_ne_nil _ _)).1 h)
    rw [List.cons_append, cutAt, if_neg hpre, ih hx.2]
    rfl

/-- A delimiter that begins a line is not in a line before it. -/
theorem infix_line_iff {d x y : List Char} (hx : '\r' ∉ x) :
    '\r' :: '\n' :: d <:+: x ++ crlf ++ y ↔ d <+: y ∨ '\r' :: '\n' :: d <:+: y := by
  induction x with
  | nil =>
    have hlf : ¬ '\r' :: '\n' :: d <+: '\n' :: y := fun h =>
      absurd (List.cons_prefix_cons.1 h).1 (by decide)
    calc '\r' :: '\n' :: d <:+: '\r' :: '\n' :: y
        ↔ '\r' :: '\n' :: d <+: '\r' :: '\n' :: y ∨ '\r' :: '\n' :: d <:+: '\n' :: y :=
          List.infix_cons_iff
      _ ↔ d <+: y ∨ '\r' :: '\n' :: d <:+: y := by
          rw [List.infix_cons_iff, or_iff_right hlf, List.cons_prefix_cons, List.cons_prefix_cons]
          simp
  | cons a x ih =>
    rw [List.mem_cons, not_or] at hx
    rw [List.cons_append, List.cons_append, List.infix_cons_iff, ih hx.2]
    exact or_iff_right fun h => hx.1 (List.cons_prefix_cons.1 h).1

/-- A delimiter that begins a line is not in lines that begin in another way. -/
theorem not_infix_unlines {d t : List Char}
    (hls : ∀ l ∈ ls, '\r' ∉ l ∧ ∃ x l', l = x :: l' ∧ c ≠ x)
    (ht : ¬ c :: d <+: t ∧ ¬ '\r' :: '\n' :: c :: d <:+: t) :
    ¬ c :: d <+: unlines ls ++ t ∧ ¬ '\r' :: '\n' :: c :: d <:+: unlines ls ++ t := by
  induction ls with
  | nil => exact ht
  | cons l ls ih =>
    obtain ⟨⟨hl, x, l', rfl, hx⟩, hrest⟩ := List.forall_mem_cons.1 hls
    have hcons : unlines ((x :: l') :: ls) ++ t = x :: l' ++ crlf ++ (unlines ls ++ t) := by
      simp [unlines]
    rw [hcons, infix_line_iff hl]
    refine ⟨fun hpre => hx ?_, fun hor => hor.elim (ih hrest).1 (ih hrest).2⟩
    rw [List.cons_append, List.cons_append] at hpre
    exact (List.cons_prefix_cons.1 hpre).1

end Lines
