import Mathlib.Data.Rat.Defs
import Mistress.LuaStack

/-!
# Statistics

The records `stat.lua` collects in the buffer `stat_buf`, which the launcher
shares with all the sessions it launches.
-/

namespace Mistress

open LuaStack (Bytes)

/-- The types of the records, `stypes`. -/
inductive SType
  | concurUsersNumMax
  | startSession
  | responseTime
  | responseStatus
  | requestSent
  | connectTime
  | concurUsersNumMin
  | connectError
  | responseError
  | concurConnsNumMin
  | concurConnsNumMax
  | finishTest
  deriving DecidableEq

/-- The values of the records. -/
inductive StatValue
  /-- A number. -/
  | num (n : Int)
  /-- The group a request belongs to, with a time or a status code. -/
  | group (groupName : Bytes) (x : Rat)
  /-- A connection error. -/
  | connectError (msg ip : Bytes) (time : Rat)
  /-- A message. -/
  | text (msg : Bytes)
  deriving DecidableEq

/-- A record. -/
structure StatRecord where
  type : SType
  value : StatValue
  deriving DecidableEq

/-- The statistics of a launcher. -/
structure Stat where
  statBuf : List StatRecord
  deriving DecidableEq

namespace Stat

/-- `Stat:init`. -/
def init : Stat := ⟨[]⟩

/-- `Stat:reset`. -/
def reset (_ : Stat) : Stat := ⟨[]⟩

/-- `Stat:add`. -/
def add (s : Stat) (type : SType) (value : StatValue) : Stat := ⟨s.statBuf ++ [⟨type, value⟩]⟩

end Stat

end Mistress
