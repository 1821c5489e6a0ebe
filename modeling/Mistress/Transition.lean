import Mathlib.Logic.Function.Basic

/-!
# Transition systems

A *system* on states `S` with labels `L`: its initial states and a step, a
partial function of the state and the label. All nondeterminism is in the
label, so a run is determined by its labels and can be evaluated (`exec`).

Runs and reachable states are relative to a condition `P` on the steps taken,
`P s l` saying that the label `l` may be taken in the state `s`: with the
condition `fun _ _ => True` they are all runs and all reachable states.

* `ReachableBy.invariant`, `Run.invariant`: what holds initially and is kept by
  the steps meeting the condition holds all along the runs meeting it;
* `Refinement`: a map of states under which every step of a system is a run of
  another one, whose invariants it thus inherits (`Refinement.reachable`).
-/

namespace Transition

variable {S L T K : Type*}

/-- A transition system. -/
structure System (S L : Type*) where
  /-- The initial states. -/
  init : S → Prop
  /-- The state after the step of a label, where the label is enabled. -/
  step : S → L → Option S

namespace System

variable (sys : System S L) (P : S → L → Prop)

/-- The state after the steps of the labels `ls`, if all of them are enabled. -/
def exec (s : S) (ls : List L) : Option S := ls.foldlM sys.step s

/-- The state after the steps of the labels `ls`, if all of them are enabled and
    meet the condition `P`. -/
def execBy [∀ s l, Decidable (P s l)] (s : S) (ls : List L) : Option S :=
  ls.foldlM (fun s l => if P s l then sys.step s l else none) s

/-- `Run P s ls s'`: the labels `ls` lead from `s` to `s'`, every one of them
    meeting the condition `P` where it is taken. -/
inductive Run : S → List L → S → Prop
  | nil (s : S) : Run s [] s
  | cons {s s' s'' : S} {l : L} {ls : List L} :
      P s l → sys.step s l = some s' → Run s' ls s'' → Run s (l :: ls) s''

/-- The states reachable from an initial state by steps meeting the condition `P`. -/
inductive ReachableBy : S → Prop
  | init {s : S} : sys.init s → ReachableBy s
  | step {s s' : S} {l : L} :
      ReachableBy s → P s l → sys.step s l = some s' → ReachableBy s'

/-- The reachable states. -/
abbrev Reachable : S → Prop := sys.ReachableBy fun _ _ => True

variable {sys P} {s s' s'' : S} {l : L} {ls ls' : List L}

@[simp] theorem exec_nil : sys.exec s [] = some s := rfl

@[simp] theorem exec_cons : sys.exec s (l :: ls) = (sys.step s l).bind (sys.exec · ls) := rfl

/-! ## Runs -/

theorem Run.single (hP : P s l) (h : sys.step s l = some s') : sys.Run P s [l] s' :=
  .cons hP h (.nil s')

theorem Run.trans (h : sys.Run P s ls s') (h' : sys.Run P s' ls' s'') :
    sys.Run P s (ls ++ ls') s'' := by
  induction h with
  | nil => exact h'
  | cons hP hs _ ih => exact .cons hP hs (ih h')

theorem Run.snoc (h : sys.Run P s ls s') (hP : P s' l) (hs : sys.step s' l = some s'') :
    sys.Run P s (ls ++ [l]) s'' :=
  h.trans (.single hP hs)

/-- A run meeting a condition meets every weaker one. -/
theorem Run.mono {Q : S → L → Prop} (hPQ : ∀ s l, P s l → Q s l) (h : sys.Run P s ls s') :
    sys.Run Q s ls s' := by
  induction h with
  | nil => exact .nil _
  | cons hP hs _ ih => exact .cons (hPQ _ _ hP) hs ih

/-- What every step meeting the condition keeps, every run meeting it keeps. -/
theorem Run.invariant {I : S → Prop}
    (hstep : ∀ {s l s'}, I s → P s l → sys.step s l = some s' → I s')
    (h : sys.Run P s ls s') (hI : I s) : I s' := by
  induction h with
  | nil => exact hI
  | cons hP hs _ ih => exact ih (hstep hI hP hs)

theorem run_cons : sys.Run P s (l :: ls) s' ↔
    P s l ∧ ∃ s₁, sys.step s l = some s₁ ∧ sys.Run P s₁ ls s' := by
  constructor
  · rintro (_ | ⟨hP, hs, h⟩)
    exact ⟨hP, _, hs, h⟩
  · rintro ⟨hP, s₁, hs, h⟩
    exact .cons hP hs h

/-- A rank that no step raises and that the steps of the labels `p` lower bounds
    the number of these labels in a run. -/
theorem Run.countP_le_rank {I : S → Prop} {p : L → Bool} (rank : S → Nat)
    (hI : ∀ {s l s'}, I s → P s l → sys.step s l = some s' → I s')
    (hrank : ∀ {s l s'}, I s → P s l → sys.step s l = some s' →
      rank s' + (if p l then 1 else 0) ≤ rank s)
    (h : sys.Run P s ls s') (hs : I s) : ls.countP p + rank s' ≤ rank s := by
  induction h with
  | nil => simp
  | @cons s s₁ s' l ls hP hst _ ih =>
    have hrun := ih (hI hs hP hst)
    have hstep := hrank hs hP hst
    rw [List.countP_cons]
    omega

/-- An evaluated run is a run. -/
theorem run_of_exec (ls : List L) (h : sys.exec s ls = some s') :
    sys.Run (fun _ _ => True) s ls s' := by
  induction ls generalizing s with
  | nil =>
    rw [exec_nil, Option.some.injEq] at h
    exact h ▸ .nil s
  | cons l ls ih =>
    rw [exec_cons, Option.bind_eq_some_iff] at h
    obtain ⟨s₁, hs, h⟩ := h
    exact .cons trivial hs (ih h)

/-- A run found by evaluation, with what can be evaluated of its end. -/
theorem exists_run_of_exec (sys : System S L) (s : S) (ls : List L) (p : S → Bool)
    (h : (sys.exec s ls).any p) : ∃ s', sys.Run (fun _ _ => True) s ls s' ∧ p s' := by
  cases hs : sys.exec s ls with
  | none =>
    rw [hs] at h
    cases h
  | some s' =>
    rw [hs] at h
    exact ⟨s', run_of_exec ls hs, h⟩

/-- An evaluated run meeting the condition is a run. -/
theorem run_of_execBy [∀ s l, Decidable (P s l)] (ls : List L)
    (h : sys.execBy P s ls = some s') : sys.Run P s ls s' := by
  induction ls generalizing s with
  | nil =>
    obtain rfl : s = s' := by simpa [execBy] using h
    exact .nil s
  | cons l ls ih =>
    simp only [execBy, List.foldlM_cons, Option.bind_eq_bind, Option.bind_eq_some_iff] at h
    obtain ⟨s₁, hs, h⟩ := h
    split at hs
    · exact .cons ‹_› hs (ih h)
    · cases hs

/-- A run meeting the condition found by evaluation, with what can be evaluated of its end. -/
theorem exists_run_of_execBy (sys : System S L) (P : S → L → Prop) [∀ s l, Decidable (P s l)]
    (s : S) (ls : List L) (p : S → Bool) (h : (sys.execBy P s ls).any p) :
    ∃ s', sys.Run P s ls s' ∧ p s' := by
  cases hs : sys.execBy P s ls with
  | none =>
    rw [hs] at h
    cases h
  | some s' =>
    rw [hs] at h
    exact ⟨s', run_of_execBy ls hs, h⟩

/-! ## Reachable states -/

theorem ReachableBy.run (hs : sys.ReachableBy P s) (h : sys.Run P s ls s') :
    sys.ReachableBy P s' := by
  induction h with
  | nil => exact hs
  | cons hP hst _ ih => exact ih (.step hs hP hst)

theorem ReachableBy.mono {Q : S → L → Prop} (hPQ : ∀ s l, P s l → Q s l)
    (h : sys.ReachableBy P s) : sys.ReachableBy Q s := by
  induction h with
  | init h => exact .init h
  | step _ hP hs ih => exact .step ih (hPQ _ _ hP) hs

theorem ReachableBy.reachable (h : sys.ReachableBy P s) : sys.Reachable s :=
  h.mono fun _ _ _ => trivial

/-- The end of an evaluated run from an initial state is reachable. -/
theorem reachable_of_exec (ls : List L) (hs : sys.init s) (h : sys.exec s ls = some s') :
    sys.Reachable s' :=
  ReachableBy.run (.init hs) (run_of_exec ls h)

/-- What holds initially and is kept by every step meeting the condition holds in
    every state reachable by such steps. The steps start from reachable states, of
    which other invariants may be known. -/
theorem ReachableBy.invariant {I : S → Prop} (hinit : ∀ {s}, sys.init s → I s)
    (hstep : ∀ {s l s'}, sys.ReachableBy P s → I s → P s l → sys.step s l = some s' → I s')
    (h : sys.ReachableBy P s) : I s := by
  induction h with
  | init h => exact hinit h
  | step hs hP hst ih => exact hstep hs ih hP hst

end System

/-! ## Refinement -/

/-- `f` maps the states of `A` to those of `B` so that every step of `A` from a
    reachable state is a run of `B`. -/
structure Refinement (A : System S L) (B : System T K) (f : S → T) : Prop where
  init : ∀ {s}, A.init s → B.init (f s)
  step : ∀ {s l s'}, A.Reachable s → A.step s l = some s' →
    ∃ ks, B.Run (fun _ _ => True) (f s) ks (f s')

theorem Refinement.reachable {A : System S L} {B : System T K} {f : S → T}
    (hf : Refinement A B f) {s : S} (hs : A.Reachable s) : B.Reachable (f s) := by
  induction hs with
  | init h => exact .init (hf.init h)
  | step hs _ hst ih =>
    obtain ⟨ks, hks⟩ := hf.step hs hst
    exact ih.run hks

end Transition
