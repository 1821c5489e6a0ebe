import Mathlib.Data.List.Basic

/-!
# The stack of the Lua API

What a C function does to the stack of a Lua state, as a list of values whose
head is the top. A function of the API that addresses a value counts from the
top, the top being `-1`. Where the value is no table, Lua's behaviour is
undefined, and the operation fails here.

Tables are values of their own: a table stored into another one is not changed
afterwards. Their keys are strings and integers.
-/

namespace LuaStack

/-- A string as received, by bytes. -/
abbrev Bytes := List UInt8

/-- A key of a table. -/
inductive Key
  | str (s : String)
  | int (n : Nat)
  deriving DecidableEq

/-- A Lua value. -/
inductive Value
  | nil
  | bool (b : Bool)
  | num (n : Int)
  /-- A string the program names, e.g., a key. -/
  | str (s : String)
  /-- A string that was received. -/
  | bytes (s : Bytes)
  | table (fields : List (Key × Value))
  /-- A function, by its name. -/
  | fn (name : String)

/-- Whether a value counts as true. -/
def Value.truthy : Value → Bool
  | .nil => false
  | .bool b => b
  | _ => true

/-- The fields of a table. -/
abbrev Fields := List (Key × Value)

namespace Fields

/-- Assigning a field. -/
def set : Fields → Key → Value → Fields
  | [], k, v => [(k, v)]
  | (k', v') :: t, k, v => if k' = k then (k, v) :: t else (k', v') :: set t k v

/-- The value of a field, `nil` if there is none. -/
def get : Fields → Key → Value
  | [], _ => .nil
  | (k', v') :: t, k => if k' = k then v' else get t k

@[simp] theorem get_nil (k : Key) : get [] k = .nil := rfl

theorem get_set (t : Fields) (k k' : Key) (v : Value) :
    (t.set k v).get k' = if k' = k then v else t.get k' := by
  induction t with
  | nil =>
    by_cases h : k' = k
    · simp [set, get, h]
    · simp [set, get, h, Ne.symm h]
  | cons f t ih =>
    obtain ⟨k'', v''⟩ := f
    by_cases hk : k'' = k
    · subst hk
      by_cases h : k' = k''
      · simp [set, get, h]
      · simp [set, get, h, Ne.symm h]
    · by_cases h : k'' = k'
      · subst h
        simp [set, get, hk]
      · simp [set, get, hk, h, ih]

end Fields

/-- The stack, the top first. -/
abbrev Stack := List Value

/-- Changing the table at the index `-(i + 1)`. -/
def modifyTable (i : Nat) (f : Fields → Fields) (stack : Stack) : Option Stack :=
  match stack[i]? with
  | some (.table t) => some (stack.set i (.table (f t)))
  | _ => none

/-- `lua_rawset` at the index `-i`: the value is at the top, the key below it. -/
def rawset (i : Nat) : Stack → Option Stack
  | v :: .str k :: stack => modifyTable (i - 3) (Fields.set · (.str k) v) stack
  | _ => none

/-- `lua_rawseti` at the index `-i`: the value is at the top. -/
def rawseti (i n : Nat) : Stack → Option Stack
  | v :: stack => modifyTable (i - 2) (Fields.set · (.int n) v) stack
  | [] => none

/-- `lua_rawget` at the index `-i`: the key is at the top. -/
def rawget (i : Nat) : Stack → Option Stack
  | .str k :: stack =>
    match stack[i - 2]? with
    | some (.table t) => some (Fields.get t (.str k) :: stack)
    | _ => none
  | _ => none

/-- `lua_concat` of the two values at the top. -/
def concat : Stack → Option Stack
  | .bytes s' :: .bytes s :: stack => some (.bytes (s ++ s') :: stack)
  | _ => none

/-- `lua_insert` at the index `-2`. -/
def swap : Stack → Option Stack
  | v :: v' :: stack => some (v' :: v :: stack)
  | _ => none

/-- `lua_pcall` with `n` arguments: the function called and its arguments, the
    function being below them. It fails on anything but a function. -/
def pcall (n : Nat) (stack : Stack) : Option (String × List Value) :=
  match stack[n]? with
  | some (.fn name) => some (name, (stack.take n).reverse)
  | _ => none

end LuaStack
