import Mathlib.Data.List.Basic

namespace Thrille

-- Thread ids are handed out from 0 upwards; `INVALID_THREAD` (-1) is `none`.
abbrev ThrID := Nat

-- A `void *`, and the address of a mutex, condition variable, semaphore or barrier.
abbrev Addr := Nat

-- `map<thrID, ...>` and `set<thrID>`, iterated in the order of the ids.
abbrev ThrMap := Std.TreeMap ThrID
abbrev ThrSet := Std.TreeSet ThrID

structure SchedPointInfo where
  ret_addr : Addr
  type : String
  thread : ThrID
  enabled : ThrMap Bool
  fenmap : ThrMap Bool := ∅
  isYield : Bool
  fromLog : Bool := false

end Thrille
