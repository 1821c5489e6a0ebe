import Mistress.Json

/-!
# Strings in JSON

What `quotestring` writes, `scanstring` reads (`scanstring_quotestring`): the replacements keep
the text one that is read as the string (`Reads`), whatever its bytes are.
-/

open LuaStack

namespace Mistress.Json

open HttpParser (byte bytes)

/-! ## Escapes -/

/-- A text that stands for other bytes: a backslash, and bytes of ASCII. -/
structure IsEscape (text value : Bytes) : Prop where
  ascii : ∀ ch ∈ text, ch < 128
  unescape : ∃ x, text = byte '\\' :: x ∧ ∀ y, unescape (x ++ y) = (value, x.length)

/-- The number of a character is written. -/
theorem unescape_u {h y value : Bytes} {n : ℕ} (hlen : h.length = 4) (hn : strtoul h = some n)
    (hsurrogate : ¬(0xD800 ≤ n ∧ n ≤ 0xDBff)) (hvalue : unichar n = some value) :
    unescape (byte 'u' :: h ++ y) = (value, 5) := by
  have htake : (h ++ y).take 4 = h := by rw [← hlen, List.take_left]
  have hu : (byte 'u' :: h ++ y).take 1 = bytes "u" := rfl
  have hdrop : (byte 'u' :: h ++ y).drop 1 = h ++ y := rfl
  unfold unescape
  dsimp only
  rw [if_pos hu, hdrop, htake, hn]
  dsimp only
  rw [if_neg hsurrogate, hvalue]
  rfl

/-- The text is an escape of the bytes. -/
def checkEscape (text value : Bytes) : Bool :=
  text.all (· < 128) && match text with
  | 92 :: [c] => c ≠ byte 'u' && escapechars [c] = value
  | 92 :: 117 :: h =>
    h.length = 4 && (strtoul h).any fun n =>
      ¬(0xD800 ≤ n ∧ n ≤ 0xDBff) && unichar n = some value
  | _ => false

theorem isEscape_of_check {text value : Bytes} (h : checkEscape text value = true) :
    IsEscape text value := by
  obtain ⟨hascii, h⟩ := Bool.and_eq_true_iff.1 h
  refine ⟨fun ch hch => of_decide_eq_true (List.all_eq_true.1 hascii ch hch), ?_⟩
  split at h
  · rename_i c _
    obtain ⟨hc, hvalue⟩ := Bool.and_eq_true_iff.1 h
    have hu : [c] ≠ bytes "u" := fun heq => of_decide_eq_true hc (List.cons.inj heq).1
    refine ⟨[c], rfl, fun y => ?_⟩
    have htake : ([c] ++ y).take 1 = [c] := rfl
    unfold unescape
    dsimp only
    rw [htake, if_neg hu, of_decide_eq_true hvalue]
    rfl
  · rename_i h' _ _
    obtain ⟨hlen, hn⟩ := Bool.and_eq_true_iff.1 h
    have hlen := of_decide_eq_true hlen
    obtain ⟨n, hn, h⟩ := (Option.any_eq_true ..).1 hn
    obtain ⟨hsurrogate, hvalue⟩ := Bool.and_eq_true_iff.1 h
    refine ⟨byte 'u' :: h', rfl, fun y => ?_⟩
    rw [unescape_u hlen hn (of_decide_eq_true hsurrogate) (of_decide_eq_true hvalue),
      List.length_cons, hlen]
  · cases h

/-! ## Texts that are read as a string -/

/-- The text is read as the string. -/
inductive Reads : Bytes → Bytes → Prop
  | nil : Reads [] []
  | plain {ch : UInt8} {text s : Bytes} : ch ≠ byte '"' → ch ≠ byte '\\' → Reads text s →
      Reads (ch :: text) (ch :: s)
  | escape {e value text s : Bytes} : IsEscape e value → Reads text s →
      Reads (e ++ text) (value ++ s)

theorem scanstring_skip (x y : Bytes) : scanstring x.length (x ++ y) = scanstring 0 y := by
  induction x with
  | nil => rfl
  | cons ch x ih => exact ih

theorem Reads.scanstring {text s : Bytes} (h : Reads text s) (rest : Bytes) :
    scanstring 0 (text ++ byte '"' :: rest) = some (s, rest) := by
  induction h with
  | nil => rw [List.nil_append, Json.scanstring, if_pos rfl]
  | plain hquote hbackslash h ih =>
    rw [List.cons_append, Json.scanstring, if_neg hquote, if_neg hbackslash, ih]
    rfl
  | escape he h ih =>
    obtain ⟨-, x, rfl, hx⟩ := he
    have hquote : byte '\\' ≠ byte '"' := by decide
    rw [List.append_assoc, List.cons_append, Json.scanstring, if_neg hquote, if_pos rfl, hx,
      scanstring_skip, ih]
    rfl

/-- Bytes that are not of ASCII stand for themselves. -/
theorem Reads.of_append {x text s : Bytes} (h : Reads (x ++ text) s) (hx : ∀ ch ∈ x, ¬ch < 128) :
    ∃ s', s = x ++ s' ∧ Reads text s' := by
  induction x generalizing s with
  | nil => exact ⟨s, rfl, h⟩
  | cons ch x ih =>
    obtain ⟨hch, hx⟩ := List.forall_mem_cons.1 hx
    rw [List.cons_append] at h
    generalize htext : ch :: (x ++ text) = t at h
    cases h with
    | nil => cases htext
    | plain hquote hbackslash h =>
      obtain ⟨rfl, rfl⟩ := List.cons.inj htext
      obtain ⟨s', rfl, htext⟩ := ih h hx
      exact ⟨s', rfl, htext⟩
    | escape he h =>
      obtain ⟨hascii, y, rfl, -⟩ := he
      obtain ⟨rfl, -⟩ := List.cons.inj htext
      exact absurd (hascii _ List.mem_cons_self) hch

/-! ## Replacements -/

variable {pat : BytePattern} {repl : Bytes → Bytes}

theorem gsub_skip (x y : Bytes) : gsub pat repl x.length (x ++ y) = gsub pat repl 0 y := by
  induction x with
  | nil =>
    rw [List.nil_append, List.length_nil]
  | cons ch x ih =>
    rw [List.length_cons, List.cons_append, gsub]
    exact ih

/-- What matches. -/
theorem begins_iff {s : Bytes} : begins pat s = true ↔ ∃ x y, s = x ++ y ∧
    List.Forall₂ (fun p ch => p ch = true) pat x := by
  induction pat generalizing s with
  | nil => simp [begins]
  | cons p pat ih =>
    cases s with
    | nil => simp [begins]
    | cons ch s =>
      rw [begins, Bool.and_eq_true, ih]
      constructor
      · rintro ⟨hp, x, y, rfl, hx⟩
        exact ⟨ch :: x, y, rfl, .cons hp hx⟩
      · rintro ⟨x, y, hs, hx⟩
        cases hx with
        | cons hp hx =>
          obtain ⟨rfl, rfl⟩ := List.cons.inj hs
          exact ⟨hp, _, _, rfl, hx⟩

/-- A pattern of bytes that are not of ASCII, whose matches are replaced by escapes. -/
structure Escapes (pat : BytePattern) (repl : Bytes → Bytes) : Prop where
  ne_nil : pat ≠ []
  not_ascii : ∀ p ∈ pat, ∀ ch, p ch = true → ¬ch < 128
  isEscape : ∀ x, List.Forall₂ (fun p ch => p ch = true) pat x → IsEscape (repl x) x

theorem Escapes.gsub_ascii (h : Escapes pat repl) {e : Bytes} (he : ∀ ch ∈ e, ch < 128) (t : Bytes) :
    gsub pat repl 0 (e ++ t) = e ++ gsub pat repl 0 t := by
  induction e with
  | nil => rfl
  | cons ch e ih =>
    obtain ⟨hch, he⟩ := List.forall_mem_cons.1 he
    have hnot : ¬begins pat (ch :: (e ++ t)) = true := fun hbegins => by
      obtain ⟨x, y, hxy, hx⟩ := begins_iff.1 hbegins
      cases hx with
      | nil => exact h.ne_nil rfl
      | cons hp hx =>
        obtain ⟨rfl, -⟩ := List.cons.inj hxy
        exact h.not_ascii _ List.mem_cons_self _ hp hch
    rw [List.cons_append, gsub, if_neg hnot, ih he]
    rfl

/-- The replacement keeps a text one that is read as the string. -/
theorem Escapes.gsub (h : Escapes pat repl) {text s : Bytes} (hreads : Reads text s) :
    Reads (gsub pat repl 0 text) s := by
  induction hlen : text.length using Nat.strong_induction_on generalizing text s with
  | _ n ih =>
    cases hreads with
    | nil => exact .nil
    | @plain ch text s hquote hbackslash hreads =>
      by_cases hbegins : begins pat (ch :: text) = true
      · obtain ⟨x, y, hxy, hx⟩ := begins_iff.1 hbegins
        have hascii : ∀ c ∈ x, ¬c < 128 := fun c hc => by
          obtain ⟨i, hi, rfl⟩ := List.getElem_of_mem hc
          have hi' : i < pat.length := hx.length_eq ▸ hi
          exact h.not_ascii _ (List.getElem_mem hi') _ (hx.get hi' hi)
        obtain ⟨s', hs, hy⟩ := Reads.of_append (hxy ▸ Reads.plain hquote hbackslash hreads) hascii
        have htake : (ch :: text).take pat.length = x := by
          rw [hxy, hx.length_eq, List.take_left]
        cases hx with
        | nil => exact absurd rfl h.ne_nil
        | @cons p c pat x hp hx =>
          rw [List.cons_append] at hxy
          obtain ⟨rfl, rfl⟩ := List.cons.inj hxy
          rw [Json.gsub, if_pos hbegins, htake, List.length_cons, Nat.add_sub_cancel, hx.length_eq,
            gsub_skip, hs]
          have hlt : y.length < n := by
            rw [← hlen, List.length_cons, List.length_append]
            omega
          exact .escape (h.isEscape _ (.cons hp hx)) (ih y.length hlt hy rfl)
      · rw [Json.gsub, if_neg hbegins]
        exact .plain hquote hbackslash (ih text.length (by rw [← hlen]; simp) hreads rfl)
    | @escape e value text s he hreads =>
      rw [h.gsub_ascii he.ascii]
      obtain ⟨-, x, rfl, -⟩ := id he
      have hlt : text.length < n := by
        rw [← hlen, List.length_append, List.length_cons]
        omega
      exact .escape he (ih text.length hlt hreads rfl)

theorem Escapes.fsub (h : Escapes pat repl) {text s : Bytes} (hreads : Reads text s) :
    Reads (fsub text pat repl) s := by
  unfold Json.fsub
  split
  · exact h.gsub hreads
  · exact hreads

/-! ## The patterns -/

/-- The strings that match. -/
def expansions : BytePattern → List Bytes
  | [] => [[]]
  | p :: pat => ((List.range 256).map Nat.toUInt8 |>.filter p).flatMap fun ch =>
      (expansions pat).map (ch :: ·)

theorem mem_bytes (ch : UInt8) : ch ∈ (List.range 256).map Nat.toUInt8 :=
  List.mem_map.2 ⟨ch.toNat, List.mem_range.2 ch.toNat_lt, by simp⟩

theorem mem_expansions {x : Bytes} (h : List.Forall₂ (fun p ch => p ch = true) pat x) :
    x ∈ expansions pat := by
  induction h with
  | nil => exact List.mem_singleton.2 rfl
  | cons hp _ ih =>
    exact List.mem_flatMap.2 ⟨_, List.mem_filter.2 ⟨mem_bytes _, hp⟩, List.mem_map_of_mem ih⟩

/-- All that is replaced is replaced by an escape. -/
theorem check_unsafes : ∀ pat ∈ [control] :: unsafes, ∀ x ∈ expansions pat,
    checkEscape (escapeutf8 x) x = true := by
  have hall : (([control] :: unsafes).all fun pat =>
      (expansions pat).all fun x => checkEscape (escapeutf8 x) x) = true := by
    decide +kernel
  exact fun pat hpat x hx => List.all_eq_true.1 (List.all_eq_true.1 hall pat hpat) x hx

theorem escapes_unsafes : ∀ pat ∈ unsafes, Escapes pat escapeutf8 := by
  intro pat hpat
  refine ⟨?_, ?_, fun x hx => isEscape_of_check (check_unsafes pat (List.mem_cons_of_mem _ hpat) x
    (mem_expansions hx))⟩
  · revert pat
    decide +kernel
  · intro p hp ch hch
    have hall : (unsafes.all fun pat => pat.all fun p =>
        (((List.range 256).map Nat.toUInt8).filter p).all fun ch => !(decide (ch < 128))) = true := by
      decide +kernel
    have hascii := List.all_eq_true.1 (List.all_eq_true.1 (List.all_eq_true.1 hall pat hpat) p hp) ch
      (List.mem_filter.2 ⟨mem_bytes ch, hch⟩)
    simpa using hascii

/-- The control characters, the quotes and the backslashes are replaced first. -/
theorem reads_control (s : Bytes) : Reads (fsub s [control] escapeutf8) s := by
  have hbegins (ch : UInt8) (s : Bytes) : begins [control] (ch :: s) = control ch := by
    simp [begins]
  have hplain {ch : UInt8} (h : ¬control ch = true) : ch ≠ byte '"' ∧ ch ≠ byte '\\' := by
    constructor <;> rintro rfl <;> exact h (by decide)
  have hgsub (s : Bytes) : Reads (gsub [control] escapeutf8 0 s) s := by
    induction s with
    | nil => exact .nil
    | cons ch s ih =>
      rw [gsub, hbegins]
      split
      · rename_i h
        have hcheck := check_unsafes [control] List.mem_cons_self [ch]
          (mem_expansions (.cons h .nil))
        exact .escape (isEscape_of_check hcheck) ih
      · rename_i h
        exact .plain (hplain h).1 (hplain h).2 ih
  unfold Json.fsub
  split
  · exact hgsub s
  · rename_i hfind
    have hcontrol : ∀ ch ∈ s, ¬control ch = true := fun ch hch h => by
      obtain ⟨a, b, rfl⟩ := List.append_of_mem hch
      refine hfind (List.any_eq_true.2 ⟨ch :: b, (List.mem_tails ..).2 ⟨a, rfl⟩, ?_⟩)
      rw [hbegins, h]
    clear hfind
    induction s with
    | nil => exact .nil
    | cons ch s ih =>
      obtain ⟨hch, hs⟩ := List.forall_mem_cons.1 hcontrol
      exact .plain (hplain hch).1 (hplain hch).2 (ih hs)

/-- What `quotestring` writes, `scanstring` reads. -/
theorem scanstring_quotestring (s rest : Bytes) : ∃ text, quotestring s = byte '"' :: text ∧
    scanstring 0 (text ++ rest) = some (s, rest) := by
  have hfold : ∀ pats ⊆ unsafes, ∀ {text : Bytes}, Reads text s →
      Reads (pats.foldl (fun value pat => fsub value pat escapeutf8) text) s := by
    intro pats
    induction pats with
    | nil => exact fun _ _ h => h
    | cons pat pats ih =>
      intro hsub text h
      obtain ⟨hpat, hsub⟩ := List.cons_subset.1 hsub
      exact ih hsub ((escapes_unsafes pat hpat).fsub h)
  unfold quotestring
  dsimp only
  refine ⟨_, List.cons_append, ?_⟩
  rw [List.append_assoc]
  refine Reads.scanstring ?_ rest
  split
  · exact hfold unsafes (List.Subset.refl _) (reads_control s)
  · exact reads_control s

end Mistress.Json
