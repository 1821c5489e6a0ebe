import Mathlib.Data.List.Basic

/-!
# Stream decoders

A deterministic decoder of a stream: a machine that reads symbols and writes symbols,
until it comes to the end of the stream or finds an error. It is used in parts: a call
(`call`) goes on from where the last one stopped, as long as there is input to read and
room for output.

What a decoder makes of an input is what it does with all of it and unlimited room
(`Decodes`), which may never end. It does not depend on the parts (`decodes_iff_call`).
-/

/-- What a decoder does next. -/
inductive Decoder.Move (σ α β ε : Type*)
  /-- It reads a symbol. -/
  | need (next : α → σ)
  /-- It writes a symbol. -/
  | emit (b : β) (next : σ)
  /-- It has come to the end of the stream. -/
  | finish
  /-- It has found an error. -/
  | fail (e : ε)

/-- A deterministic decoder. -/
structure Decoder (α β ε : Type*) where
  State : Type
  init : State
  move : State → Decoder.Move State α β ε

namespace Decoder

variable {α β ε : Type*} (d : Decoder α β ε)

/-- Why a call stops. -/
inductive Stop (ε : Type*)
  /-- There is no input left to be read. -/
  | inputEnd
  /-- There is no room left to be written to. -/
  | outputFull
  | finished
  | failed (e : ε)

/-- What a call comes to. -/
structure Call where
  state : d.State
  /-- The input that has not been read. -/
  rest : List α
  out : List β
  stop : Stop ε

/-- A call that has written a symbol before. -/
def Call.write {d : Decoder α β ε} (b : β) (c : d.Call) : d.Call := { c with out := b :: c.out }

/-- A call with some input and some room. -/
def call (s : d.State) (input : List α) (room : Nat) : d.Call :=
  match d.move s with
  | .need next =>
    match input with
    | [] => ⟨s, [], [], .inputEnd⟩
    | a :: input => call (next a) input room
  | .emit b next =>
    match room with
    | 0 => ⟨s, input, [], .outputFull⟩
    | room + 1 => (call next input room).write b
  | .finish => ⟨s, input, [], .finished⟩
  | .fail e => ⟨s, input, [], .failed e⟩
termination_by input.length + room

/-- How a decoder ends. -/
inductive End
  /-- At the end of the stream, before the rest of the input. -/
  | finished (rest : List α)
  /-- At the end of the input, of which it needs more. -/
  | truncated (s : d.State)
  | failed (e : ε)

/-- `Decodes s input out e`: from the state `s`, the decoder makes `out` of the input and
    ends with `e`. -/
inductive Decodes : d.State → List α → List β → d.End → Prop
  | need {s : d.State} {next : α → d.State} {a : α} {input : List α} {out : List β} {e : d.End} :
      d.move s = .need next → Decodes (next a) input out e → Decodes s (a :: input) out e
  | emit {s s' : d.State} {b : β} {input : List α} {out : List β} {e : d.End} :
      d.move s = .emit b s' → Decodes s' input out e → Decodes s input (b :: out) e
  | finish {s : d.State} {input : List α} :
      d.move s = .finish → Decodes s input [] (.finished input)
  | truncated {s : d.State} {next : α → d.State} :
      d.move s = .need next → Decodes s [] [] (.truncated s)
  | fail {s : d.State} {input : List α} {e : ε} :
      d.move s = .fail e → Decodes s input [] (.failed e)

variable {d} {s : d.State} {input : List α} {out out' : List β} {e e' : d.End} {room : Nat}

/-- A decoder is deterministic. -/
theorem Decodes.unique (h : d.Decodes s input out e) (h' : d.Decodes s input out' e') :
    out = out' ∧ e = e' := by
  induction h generalizing out' with
  | need hm _ ih =>
    cases h' with
    | need hm' h' =>
      obtain rfl := Move.need.inj (hm.symm.trans hm')
      exact ih h'
    -- The move of a state is one of the five only.
    | emit hm' | finish hm' | fail hm' => cases hm.symm.trans hm'
  | emit hm _ ih =>
    cases h' with
    | emit hm' h' =>
      obtain ⟨rfl, rfl⟩ := Move.emit.inj (hm.symm.trans hm')
      obtain ⟨rfl, rfl⟩ := ih h'
      exact ⟨rfl, rfl⟩
    | need hm' | finish hm' | truncated hm' | fail hm' => cases hm.symm.trans hm'
  | finish hm =>
    cases h' with
    | finish => exact ⟨rfl, rfl⟩
    | need hm' | emit hm' | truncated hm' | fail hm' => cases hm.symm.trans hm'
  | truncated hm =>
    cases h' with
    | truncated => exact ⟨rfl, rfl⟩
    | emit hm' | finish hm' | fail hm' => cases hm.symm.trans hm'
  | fail hm =>
    cases h' with
    | fail hm' =>
      obtain rfl := Move.fail.inj (hm.symm.trans hm')
      exact ⟨rfl, rfl⟩
    | need hm' | emit hm' | finish hm' | truncated hm' => cases hm.symm.trans hm'

/-- A decoder whose input is truncated needs more of it. -/
theorem Decodes.needs_more {s' : d.State} (h : d.Decodes s input out (.truncated s')) :
    ∃ next, d.move s' = .need next := by
  generalize he : (End.truncated s' : d.End) = e at h
  induction h with
  | need _ _ ih | emit _ _ ih => exact ih he
  | truncated hm =>
    obtain rfl := End.truncated.inj he
    exact ⟨_, hm⟩
  | finish | fail => cases he

theorem decodes_need {next : α → d.State} {a : α} (hm : d.move s = .need next) :
    d.Decodes s (a :: input) out e ↔ d.Decodes (next a) input out e := by
  constructor
  · rintro (⟨hm', h⟩ | hm' | hm' | hm' | hm')
    · obtain rfl := Move.need.inj (hm.symm.trans hm')
      exact h
    all_goals cases hm.symm.trans hm'
  · exact .need hm

theorem decodes_emit {s' : d.State} {b : β} (hm : d.move s = .emit b s') :
    d.Decodes s input out e ↔ ∃ out', out = b :: out' ∧ d.Decodes s' input out' e := by
  constructor
  · rintro (hm' | ⟨hm', h⟩ | hm' | hm' | hm')
    · cases hm.symm.trans hm'
    · obtain ⟨rfl, rfl⟩ := Move.emit.inj (hm.symm.trans hm')
      exact ⟨_, rfl, h⟩
    all_goals cases hm.symm.trans hm'
  · rintro ⟨out', rfl, h⟩
    exact .emit hm h

/-! ## Calls -/

/-- A call leaves the end of its input. -/
theorem call_rest (s : d.State) (input : List α) (room : Nat) :
    (d.call s input room).rest <:+ input := by
  fun_induction d.call s input room with
  | case1 | case3 | case5 | case6 => simp
  | case2 s room next _ a input ih => exact ih.trans (List.suffix_cons a input)
  | case4 s input b next _ room ih => exact ih

/-- A call writes no more than there is room. -/
theorem call_out (s : d.State) (input : List α) (room : Nat) :
    (d.call s input room).out.length ≤ room := by
  fun_induction d.call s input room with
  | case1 | case3 | case5 | case6 => simp
  | case2 s room next _ a input ih => exact ih
  | case4 s input b next _ room ih => exact Nat.succ_le_succ ih

/-- The decoder makes of the input what a call has written, and then what it makes of the
    rest. -/
theorem decodes_iff_call (room : Nat) : d.Decodes s input out e ↔
    ∃ out', out = (d.call s input room).out ++ out' ∧
      d.Decodes (d.call s input room).state (d.call s input room).rest out' e := by
  fun_induction d.call s input room generalizing out with
  | case1 | case3 | case5 | case6 => simp
  | case2 s room next hm a input ih => rw [decodes_need hm, ih]
  | case4 s input b next hm room ih =>
    -- What is written first has been written by the call.
    rw [decodes_emit hm]
    constructor
    · rintro ⟨out, rfl, h⟩
      obtain ⟨out', rfl, h'⟩ := ih.1 h
      exact ⟨out', rfl, h'⟩
    · rintro ⟨out', rfl, h'⟩
      exact ⟨_, rfl, ih.2 ⟨out', rfl, h'⟩⟩

/-- Where a call stops. -/
def Call.Stopped (c : d.Call) (room : Nat) : Prop :=
  match c.stop with
  | .inputEnd => c.rest = [] ∧ ∃ next, d.move c.state = .need next
  | .outputFull => c.out.length = room ∧ ∃ b s, d.move c.state = .emit b s
  | .finished => d.move c.state = .finish
  | .failed e => d.move c.state = .fail e

theorem call_stopped (s : d.State) (input : List α) (room : Nat) :
    (d.call s input room).Stopped room := by
  fun_induction d.call s input room with
  | case1 s room next hm => exact ⟨rfl, next, hm⟩
  | case2 s room next _ a input ih => exact ih
  | case3 s input b next hm => exact ⟨rfl, b, next, hm⟩
  -- A symbol that is written makes the output longer and the room smaller.
  | case4 s input b next hm room ih =>
    unfold Call.Stopped at ih ⊢
    cases hstop : (d.call next input room).stop with
    | outputFull =>
      simp only [Call.write, hstop] at ih ⊢
      exact ⟨congrArg Nat.succ ih.1, ih.2⟩
    | inputEnd | finished | failed =>
      simp only [Call.write, hstop] at ih ⊢
      exact ih
  | case5 s input room hm => exact hm
  | case6 s input room e hm => exact hm

/-- The end a call has come to, if any. -/
def Call.ending (c : d.Call) : Option d.End :=
  match c.stop with
  | .inputEnd => some (.truncated c.state)
  | .outputFull => none
  | .finished => some (.finished c.rest)
  | .failed e => some (.failed e)

theorem Call.Stopped.decodes {c : d.Call} (h : c.Stopped room) (he : c.ending = some e) :
    d.Decodes c.state c.rest [] e := by
  unfold Call.Stopped at h
  unfold Call.ending at he
  cases hstop : c.stop with
  | inputEnd =>
    simp only [hstop, Option.some.injEq] at h he
    obtain ⟨hrest, next, hm⟩ := h
    rw [hrest, ← he]
    exact .truncated hm
  | outputFull =>
    simp only [hstop] at he
    cases he
  | finished =>
    simp only [hstop, Option.some.injEq] at h he
    exact he ▸ .finish h
  | failed e' =>
    simp only [hstop, Option.some.injEq] at h he
    exact he ▸ .fail h

/-- What a call that comes to an end has made of the input. -/
theorem decodes_of_ending (he : (d.call s input room).ending = some e) :
    d.Decodes s input (d.call s input room).out e :=
  (decodes_iff_call room).2
    ⟨[], (List.append_nil _).symm, (call_stopped s input room).decodes he⟩

end Decoder
