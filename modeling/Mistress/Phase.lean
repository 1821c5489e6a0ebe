import Mathlib.Data.Rat.Floor
import Mathlib.Algebra.Order.Floor.Semiring

/-!
# Phases

The phases of a load test, and the number of users a tick launches in them.
Numbers are rationals: Lua's rounding of its floating point numbers is not
modelled.

* `Phase.calcRate`: the rate of a tick, as computed by the closure `calc_rate`;
* `range`: the values `utils.range` goes through, one for each user launched;
* `launches`: the users launched at a rate, none in the finishing phase.
-/

namespace Mistress

/-- The rate of a phase: `users_rate`. -/
inductive Rate
  /-- A constant rate. -/
  | number (rate : ℚ)
  /-- A rate that goes from one value to another. -/
  | table (rateFrom rateTo : ℚ)
  /-- The values a coroutine yields, by the step the phase starts at and the
      current step; `none` where it raises an error. -/
  | function (rate : ℕ → ℕ → Option ℚ)

/-- A phase of the test. -/
structure Phase where
  usersRate : Rate
  duration : ℚ

/-- The phase `run` appends to the list: no user is launched in it. -/
def finalPhase : Phase := ⟨.number 0, 0⟩

/-- `utils.round`, to an integer. -/
def round (num : ℚ) : ℚ :=
  if 0 ≤ num then ⌊num + 1 / 2⌋ else ⌈num - 1 / 2⌉

/-- The values `utils.range(b)` goes through: 1, 2, and so on up to `b`. -/
def range (b : ℚ) : List ℕ := List.range' 1 ⌊b⌋₊

theorem mem_range {b : ℚ} {k : ℕ} : k ∈ range b ↔ 1 ≤ k ∧ (k : ℚ) ≤ b := by
  rw [range, List.mem_range'_1]
  refine and_congr_right fun hk => ?_
  rw [Nat.add_comm 1, Nat.lt_succ_iff, Nat.le_floor_iff' (by omega)]

/-- The rate at the step `curStep` of a phase started at the step `startStep`:
    `calc_rate`. It is undefined where it raises an error, and where it is
    infinite. -/
def Phase.calcRate (phase : Phase) (startStep curStep : ℕ) : Option ℚ :=
  match phase.usersRate with
  | .number rate => some rate
  | .table rateFrom rateTo =>
    let absStep : ℚ := curStep - startStep
    -- Dividing by zero gives a NaN or an infinity, and no user if it is not a positive one.
    if phase.duration = 0 then
      if absStep = 0 ∨ rateTo ≤ rateFrom then some 0 else none
    else if rateTo > rateFrom then
      some (round (rateFrom + (rateTo - rateFrom) / phase.duration * absStep))
    else
      some (round (rateFrom - (rateFrom - rateTo) / phase.duration * absStep))
  | .function rate => rate startStep curStep

/-- The users launched at a rate: the loop of `tick`. -/
def launches (rate : ℚ) : List ℕ := if rate > 0 then range rate else []

@[simp] theorem calcRate_finalPhase (startStep curStep : ℕ) :
    finalPhase.calcRate startStep curStep = some 0 := rfl

@[simp] theorem launches_zero : launches 0 = [] := if_neg (lt_irrefl 0)

end Mistress
