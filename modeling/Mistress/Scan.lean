import Mathlib.Data.List.Basic

/-!
# Scanners

A *scanner* reads a buffer from the left. At each symbol it sees what is left of the buffer,
changes its state, reports events and may pass over some of the symbols that follow; or it
stops.

* `Run`: a scanner reads a part of a buffer, whatever it does with the rest;
* `Run.trans`: parts that follow each other;
* `Run.each`: a part whose symbols are read one by one in the same way;
* `Stands`: a state that goes on as another one does, but for events that are still to be
  reported;
* `Reader`: a loop over a buffer that does what the scanner does.
-/

namespace Scan

/-- The step of a scanner: the next state, the events and the number of symbols passed over. -/
abbrev Scanner (σ β ε : Type*) := σ → β → List β → Option (σ × List ε × ℕ)

variable {σ β ε α : Type*}

/-- `Run step s x y es s'`: the scanner reads `x`, which `y` follows. -/
inductive Run (step : Scanner σ β ε) : σ → List β → List β → List ε → σ → Prop
  | nil (s : σ) (y : List β) : Run step s [] y [] s
  | cons {s s' s'' : σ} {b : β} {x y : List β} {es es' : List ε} {n : ℕ} :
      step s b (x ++ y) = some (s', es, n) → n ≤ x.length → Run step s' (x.drop n) y es' s'' →
        Run step s (b :: x) y (es ++ es') s''

variable {step : Scanner σ β ε} {s s' s'' s₀ : σ} {b : β} {x x' y : List β} {es es' : List ε}

namespace Run

theorem trans (h : Run step s x (x' ++ y) es s') (h' : Run step s' x' y es' s'') :
    Run step s (x ++ x') y (es ++ es') s'' := by
  generalize hz : x' ++ y = z at h
  induction h with
  | nil => exact h'
  | @cons s s₁ s₂ b x z es₁ es₂ n hstep hn _ ih =>
    subst hz
    have hle : n ≤ (x ++ x').length := by
      rw [List.length_append]
      exact Nat.le_add_right_of_le hn
    have hrest := ih h' rfl
    rw [← List.drop_append_of_le_length hn] at hrest
    rw [← List.append_assoc] at hstep
    rw [List.append_assoc]
    exact .cons hstep hle hrest

/-- One symbol is read. -/
theorem single (h : step s b y = some (s', es, 0)) : Run step s [b] y es s' := by
  have := cons (x := []) h (Nat.le_refl 0) (.nil s' y)
  rwa [List.append_nil] at this

/-- A symbol, and then a part. -/
theorem head (h : step s b (x ++ y) = some (s', es, 0)) (h' : Run step s' x y es' s'') :
    Run step s (b :: x) y (es ++ es') s'' :=
  cons h (Nat.zero_le _) h'

/-- A part, and then a symbol. -/
theorem concat (h : Run step s x (b :: y) es s') (h' : step s' b y = some (s'', es', 0)) :
    Run step s (x ++ [b]) y (es ++ es') s'' :=
  trans h (single h')

/-- What another scanner does alike, perhaps on a longer buffer, it reads alike. -/
theorem map {σ' : Type*} {step' : Scanner σ' β ε} (f : σ → σ') (g : ε → ε) (z : List β)
    (hstep : ∀ {s b rest s' es n}, step s b rest = some (s', es, n) →
      step' (f s) b (rest ++ z) = some (f s', es.map g, n)) (h : Run step s x y es s') :
    Run step' (f s) x (y ++ z) (es.map g) (f s') := by
  induction h with
  | nil s y => exact .nil _ _
  | cons hs hn _ ih =>
    rw [List.map_append]
    exact .cons (by rw [← List.append_assoc]; exact hstep hs) hn ih

/-- Symbols that are read one by one: the state after each is known from the ones before, and
    no event is reported. -/
theorem each (f : List β → σ) (x y : List β)
    (h : ∀ p b q, x = p ++ b :: q → step (f p) b (q ++ y) = some (f (p ++ [b]), [], 0)) :
    Run step (f []) x y [] (f x) := by
  suffices hsuff : ∀ q p, x = p ++ q → Run step (f p) q y [] (f x) from hsuff x [] rfl
  intro q
  induction q with
  | nil =>
    intro p hx
    rw [hx, List.append_nil]
    exact .nil _ y
  | cons b q ih =>
    intro p hx
    exact head (h p b q hx) (ih (p ++ [b]) (by rw [hx, List.append_assoc]; rfl))

end Run

/-- On symbols with the property `P`, the scanner goes on in the state `s` as in `s₀`, but
    reports the events `pending` of what is left of the buffer first. -/
def Stands (step : Scanner σ β ε) (P : β → Prop) (s s₀ : σ) (pending : List β → List ε) : Prop :=
  ∀ b rest, P b → step s b rest =
    (step s₀ b rest).map fun r => (r.1, pending (b :: rest) ++ r.2.1, r.2.2)

variable {P : β → Prop} {pending : List β → List ε}

theorem Stands.refl (step : Scanner σ β ε) (P : β → Prop) (s : σ) :
    Stands step P s s fun _ => [] := by
  intro b rest _
  cases h : step s b rest <;> simp

theorem Stands.run (h : Stands step P s s₀ pending) (hb : P b) (hrun : Run step s₀ (b :: x) y es s') :
    Run step s (b :: x) y (pending (b :: x ++ y) ++ es) s' := by
  cases hrun with
  | cons hstep hn hrest =>
    rw [← List.append_assoc]
    refine .cons ?_ hn hrest
    rw [h _ _ hb, hstep]
    rfl

variable {ρ : Type*}

/-- `read` reads a buffer, the first `n` symbols of which are passed over, as the scanner does: its
    events, and what comes of the end of the buffer. -/
structure Reader (step : Scanner σ β ε) (read : List β → ℕ → σ → List ε × ρ) : Prop where
  skip : ∀ b rest n s, read (b :: rest) (n + 1) s = read rest n s
  advance : ∀ {s b rest s' es n}, step s b rest = some (s', es, n) →
    read (b :: rest) 0 s = (es ++ (read rest n s').1, (read rest n s').2)

variable {read : List β → ℕ → σ → List ε × ρ}

theorem Reader.drop (h : Reader step read) {n : ℕ} (hn : n ≤ x.length) (s : σ) :
    read (x ++ y) n s = read (x.drop n ++ y) 0 s := by
  induction x generalizing n with
  | nil =>
    obtain rfl : n = 0 := Nat.le_zero.1 hn
    rfl
  | cons b x ih =>
    cases n with
    | zero => rfl
    | succ n => exact (h.skip b (x ++ y) n s).trans (ih (Nat.le_of_succ_le_succ hn))

/-- A part of the buffer is read. -/
theorem Reader.run (h : Reader step read) (hrun : Run step s x y es s') :
    read (x ++ y) 0 s = (es ++ (read y 0 s').1, (read y 0 s').2) := by
  induction hrun with
  | nil => rfl
  | cons hstep hn _ ih =>
    rw [List.cons_append, h.advance hstep, h.drop hn, ih, List.append_assoc]

end Scan
