import Mathlib.Algebra.BigOperators.Group.List.Basic
import Mathlib.Algebra.Order.Field.Rat
import Mathlib.Tactic.Linarith
import Mistress.Table

/-!
# The choice of a session

`weighted_random_choice` chooses among the entries of a table by their weights: it
draws a number from zero up to the total of the weights, and subtracts the weights
from it, in the order in which `pairs` happens to traverse the table, until it is
no longer positive.

* `count_chooseLoop`: from one up to the total, as many numbers lead to a choice as
  its weight says;
* `draws_eq`: the number zero leads to the first choice, which is thus drawn once
  more than its weight says;
* `proportional_iff`: the draws of the choices are proportional to their weights only
  if the first choice has all the weight.
-/

namespace Mistress

variable {κ : Type*}

/-- The loop of `weighted_random_choice`, over the choices that are left. -/
def chooseLoop : (threshold : Int) → (lastChoice : Option κ) → List (Σ _ : κ, Nat) → Option κ
  | _, lastChoice, [] => lastChoice
  | threshold, _, ⟨choice, weight⟩ :: choices =>
    let threshold := threshold - weight
    if threshold ≤ 0 then some choice else chooseLoop threshold (some choice) choices

variable [DecidableEq κ]

/-- `weighted_total` -/
def weightedTotal (choices : Table κ Nat) : Nat :=
  choices.entries.foldl (fun total e => total + e.2) 0

/-- `weighted_random_choice`, on the number drawn. -/
def weightedRandomChoice (choices : Table κ Nat) (draw : Nat) : Option κ :=
  chooseLoop draw none choices.entries

/-- The number of the results of `math.random(0, total)` for which a choice is
    returned. -/
def draws (choices : Table κ Nat) (choice : κ) : Nat :=
  (List.range (weightedTotal choices + 1)).countP fun draw =>
    weightedRandomChoice choices draw = some choice

/-- The draws of the choices are **proportional** to their weights, by the same factor. -/
def Proportional (choices : Table κ Nat) : Prop :=
  ∃ factor : ℚ, ∀ choice weight, choices.lookup choice = some weight →
    (draws choices choice : ℚ) = factor * weight

/-! ## Counting the draws -/

variable {l : List (Σ _ : κ, Nat)} {choices : Table κ Nat}

omit [DecidableEq κ] in
theorem foldl_weight (l : List (Σ _ : κ, Nat)) (n : Nat) :
    l.foldl (fun total e => total + e.2) n = n + (l.map Sigma.snd).sum := by
  induction l generalizing n with
  | nil => rfl
  | cons e l ih => rw [List.foldl_cons, ih, List.map_cons, List.sum_cons, Nat.add_assoc]

omit [DecidableEq κ] in
theorem weightedTotal_eq : weightedTotal choices = (choices.entries.map Sigma.snd).sum := by
  rw [weightedTotal, foldl_weight, Nat.zero_add]

omit [DecidableEq κ] in
/-- Up to its weight, a number leads to the first choice left. -/
theorem chooseLoop_le {k : κ} {w d : Nat} {last : Option κ} (h : d ≤ w) :
    chooseLoop d last (⟨k, w⟩ :: l) = some k := by
  rw [chooseLoop, if_pos (by omega)]

omit [DecidableEq κ] in
/-- Beyond it, it leads to one of the others. -/
theorem chooseLoop_add {k : κ} {w d : Nat} {last : Option κ} (h : 0 < d) :
    chooseLoop ((w + d : Nat) : Int) last (⟨k, w⟩ :: l) = chooseLoop d (some k) l := by
  have hsub : ((w + d : Nat) : Int) - w = d := by omega
  rw [chooseLoop, hsub, if_neg (by omega)]

/-- From one up to the total, as many numbers lead to a choice as its weight says. -/
theorem count_chooseLoop (hl : l.NodupKeys) (last : Option κ) (c : κ) :
    (List.range' 1 (l.map Sigma.snd).sum).countP (fun d : Nat => chooseLoop d last l = some c) =
      (l.dlookup c).getD 0 := by
  induction l generalizing last with
  | nil => rfl
  | cons e l ih =>
    obtain ⟨k, w⟩ := e
    rw [List.nodupKeys_cons] at hl
    -- The numbers up to the weight, and those beyond it.
    have hsplit : List.range' 1 (w + (l.map Sigma.snd).sum) =
        List.range' 1 w ++ (List.range' 1 (l.map Sigma.snd).sum).map (w + ·) := by
      rw [List.map_add_range', ← List.range'_append_1, Nat.add_comm 1 w]
    have hfirst : (List.range' 1 w).countP
        (fun d : Nat => chooseLoop d last (⟨k, w⟩ :: l) = some c) = if k = c then w else 0 := by
      have hall : ∀ d ∈ List.range' 1 w,
          (chooseLoop d last (⟨k, w⟩ :: l) = some c ↔ k = c) := fun d hd => by
        rw [chooseLoop_le (by rw [List.mem_range'_1] at hd; omega), Option.some.injEq]
      split_ifs with hk
      · rw [List.countP_eq_length.2 fun d hd => decide_eq_true ((hall d hd).2 hk),
          List.length_range']
      · exact List.countP_eq_zero.2 fun d hd h => hk ((hall d hd).1 (of_decide_eq_true h))
    have hrest : ((List.range' 1 (l.map Sigma.snd).sum).map (w + ·)).countP
        (fun d : Nat => chooseLoop d last (⟨k, w⟩ :: l) = some c) = (l.dlookup c).getD 0 := by
      rw [List.countP_map, ← ih hl.2 (some k)]
      refine List.countP_congr fun d hd => ?_
      rw [List.mem_range'_1] at hd
      simp only [Function.comp_apply, chooseLoop_add hd.1]
    rw [List.map_cons, List.sum_cons, hsplit, List.countP_append, hfirst, hrest]
    by_cases hk : k = c
    · subst hk
      rw [List.dlookup_cons_eq, List.dlookup_eq_none.2 hl.1, if_pos rfl]
      rfl
    · rw [if_neg hk, Nat.zero_add]
      exact congrArg (Option.getD · 0) (List.dlookup_cons_ne l ⟨k, w⟩ (Ne.symm hk)).symm

/-- A choice is drawn as many times as its weight says, and the first one once more. -/
theorem draws_eq (choices : Table κ Nat) (c : κ) :
    draws choices c = (choices.lookup c).getD 0 +
      if choices.entries.head?.map Sigma.fst = some c then 1 else 0 := by
  have hrange : List.range (weightedTotal choices + 1) =
      0 :: List.range' 1 (weightedTotal choices) := by
    rw [List.range_eq_range', List.range'_succ]
  rw [draws, hrange, List.countP_cons, weightedTotal_eq]
  congr 1
  · exact count_chooseLoop choices.nodupKeys none c
  · -- The number zero.
    rw [weightedRandomChoice]
    cases choices.entries with
    | nil => rfl
    | cons e l => simp [chooseLoop]

/-! ## Proportional draws -/

/-- A choice without weight is not drawn if the draws are proportional. -/
theorem Proportional.draws_eq_zero (h : Proportional choices) {c : κ}
    (hc : choices.lookup c = some 0) : draws choices c = 0 := by
  obtain ⟨factor, hfactor⟩ := h
  simpa using hfactor c 0 hc

/-- If the draws are proportional, the first choice has all the weight: it is drawn
    once more than its weight says, the others are not. -/
theorem Proportional.tail (h : Proportional choices) : ∀ e ∈ choices.entries.tail, e.2 = 0 := by
  obtain ⟨factor, hfactor⟩ := h
  intro e he
  by_contra hne
  cases hl : choices.entries with
  | nil => simp [hl] at he
  | cons e₀ l =>
    rw [hl, List.tail_cons] at he
    have hnodup := choices.nodupKeys
    rw [hl, List.nodupKeys_cons] at hnodup
    have hfirst : choices.lookup e₀.1 = some e₀.2 :=
      Table.lookup_eq_some_iff.2 (hl ▸ List.mem_cons_self)
    have hlater : choices.lookup e.1 = some e.2 :=
      Table.lookup_eq_some_iff.2 (hl ▸ List.mem_cons_of_mem _ he)
    have hkey : e₀.1 ≠ e.1 := fun heq => hnodup.1 (heq ▸ List.mem_keys_of_mem he)
    have h₀ := hfactor e₀.1 e₀.2 hfirst
    have h₁ := hfactor e.1 e.2 hlater
    rw [draws_eq, hfirst, hl] at h₀
    rw [draws_eq, hlater, hl] at h₁
    simp only [List.head?_cons, Option.map_some, Option.getD_some, if_true, Option.some.injEq,
      hkey, if_false, Nat.add_zero, Nat.cast_add, Nat.cast_one] at h₀ h₁
    have hfactor₁ : factor = 1 := by
      have hpos : (e.2 : ℚ) ≠ 0 := Nat.cast_ne_zero.2 hne
      exact mul_right_cancel₀ hpos (by rw [← h₁, one_mul])
    rw [hfactor₁] at h₀
    linarith

/-- If the first choice has all the weight, it is the only one that is drawn. -/
theorem draws_of_tail (h : ∀ e ∈ choices.entries.tail, e.2 = 0) {c : κ} {w : Nat}
    (hc : choices.lookup c = some w) :
    w = 0 ∧ draws choices c = 0 ∨
      w = weightedTotal choices ∧ draws choices c = weightedTotal choices + 1 := by
  have hmem := Table.lookup_eq_some_iff.1 hc
  rw [draws_eq, hc, Option.getD_some]
  rw [weightedTotal_eq]
  cases hl : choices.entries with
  | nil => simp [hl] at hmem
  | cons e₀ l =>
    rw [hl] at hmem h
    have hsum : (l.map Sigma.snd).sum = 0 := List.sum_eq_zero fun x hx => by
      obtain ⟨e, he, rfl⟩ := List.mem_map.1 hx
      exact h e he
    rw [List.map_cons, List.sum_cons, hsum, Nat.add_zero]
    by_cases hkey : e₀.1 = c
    · have hw : w = e₀.2 := by
        have hfirst : choices.lookup e₀.1 = some e₀.2 :=
          Table.lookup_eq_some_iff.2 (hl ▸ List.mem_cons_self)
        rw [hkey, hc] at hfirst
        exact Option.some.inj hfirst
      exact .inr ⟨hw, by simp [hkey, hw]⟩
    · have hw : w = 0 := by
        rcases List.mem_cons.1 hmem with he | he
        · exact absurd (congrArg Sigma.fst he).symm hkey
        · exact h _ he
      exact .inl ⟨hw, by simp [hkey, hw]⟩

/-- Proportional draws do not depend on the order of the table. -/
theorem Proportional.draws_congr {choices' : Table κ Nat} (h : Proportional choices)
    (h' : Proportional choices') (hperm : choices.entries.Perm choices'.entries)
    (hpos : 0 < weightedTotal choices) {c : κ} {w : Nat} (hc : choices.lookup c = some w) :
    draws choices c = draws choices' c := by
  have hc' : choices'.lookup c = some w :=
    Table.lookup_eq_some_iff.2 (hperm.mem_iff.1 (Table.lookup_eq_some_iff.1 hc))
  have htotal : weightedTotal choices = weightedTotal choices' := by
    rw [weightedTotal_eq, weightedTotal_eq, (hperm.map _).sum_eq]
  rcases draws_of_tail h.tail hc with ⟨hw, hd⟩ | ⟨hw, hd⟩ <;>
    rcases draws_of_tail h'.tail hc' with ⟨hw', hd'⟩ | ⟨hw', hd'⟩ <;> omega

/-- The draws are **proportional** if and only if the first choice has all the weight. -/
theorem proportional_iff (hpos : 0 < weightedTotal choices) : Proportional choices ↔
    ∀ e ∈ choices.entries.tail, e.2 = 0 := by
  refine ⟨Proportional.tail, fun h => ?_⟩
  have htotal : (weightedTotal choices : ℚ) ≠ 0 := Nat.cast_ne_zero.2 hpos.ne'
  refine ⟨(weightedTotal choices + 1) / weightedTotal choices, fun c w hc => ?_⟩
  rcases draws_of_tail h hc with ⟨hw, hd⟩ | ⟨hw, hd⟩
  · simp [hw, hd]
  · rw [hd, hw, Nat.cast_add, Nat.cast_one, div_mul_cancel₀ _ htotal]

/-- Two classes of sessions, of which all users are to be of the first. -/
def oneSided : Table Bool Nat := ⟨[⟨true, 3⟩, ⟨false, 0⟩], by simp⟩

theorem proportional_iff_oneSided : Proportional oneSided :=
  (proportional_iff (by decide)).2 (by decide)

/-- Two classes of sessions with the same weight. -/
def sameWeight : Table Bool Nat := ⟨[⟨true, 1⟩, ⟨false, 1⟩], by simp⟩

/-- The first of two choices with the same weight is drawn twice as often. -/
theorem sameWeight_not_proportional :
    ¬ ∀ choices : Table Bool Nat, 0 < weightedTotal choices → Proportional choices := by
  intro hall
  have h := (hall sameWeight (by decide)).tail ⟨false, 1⟩ (by decide)
  exact absurd h (by decide)

end Mistress
