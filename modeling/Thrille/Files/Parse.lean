import Thrille.Files.Log

namespace Thrille

open Text

namespace SchedulePoint

def splitColonSeparatedInput (input : List Char) : Option String :=
  match input.splitOn ':' with
  | [_, tmp] => some (String.ofList (strip tmp))
  | _ => none

def splitCommaSeparatedInput (input : List Char) : Option (List Name) :=
  match input.splitOn ':' with
  | [_, tmp] => some (((stripBy (· == ',') (strip tmp)).splitOn ',').map fun x =>
      some (String.ofList x))
  | _ => none

-- The five lines of a SCHED entry.
def initSched : List (List Char) → Option SchedulePoint
  | [line0, line1, line2, line3, line4] => do
      guard (contains "chosen" line0)
      guard (contains "caller" line1)
      guard (contains "typstr" line2)
      guard (contains "idaddr" line3)
      guard (contains "enable" line4)
      let chosen ← splitColonSeparatedInput line0
      let caller ← splitColonSeparatedInput line1
      let type ← splitColonSeparatedInput line2
      let addr ← splitColonSeparatedInput line3
      let enabled ← splitCommaSeparatedInput line4
      return { chosen := some chosen, caller := some caller, type, addr, enabled }
  | _ => none

-- The lines of a SIGNAL entry and of the SCHED entry behind it.
def initSignal : List (List Char) → Option SchedulePoint
  | line0 :: line1 :: line2 :: line3 :: line4 :: line5 :: sched => do
      guard (contains "signalled" line0)
      guard (contains "caller" line1)
      guard (contains "idaddr" line2)
      guard (contains "cond" line3)
      guard (contains "oncond" line4)
      guard (contains "SCHED" line5)
      let type ← sched[2]?
      guard (contains "Simulate_Signal" type)
      let point ← initSched sched
      let signalled ← splitColonSeparatedInput line0
      let sanitycheck ← splitColonSeparatedInput line1
      let cond ← splitColonSeparatedInput line3
      let oncond ← splitCommaSeparatedInput line4
      guard (some sanitycheck = point.caller)
      return { point with signal := some { signalled := some signalled, cond, oncond } }
  | _ => none

-- `SchedulePoint(list)`; `none` is a failed assertion.
def init (list : List (List Char)) : Option SchedulePoint :=
  match list with
  | [] => none
  | line0 :: _ => if contains "signalled" line0 then initSignal list else initSched list

end SchedulePoint

namespace Schedule

def getThreadOrder (self : Schedule) : List Name :=
  match self.schedule with
  | [] => []
  | point :: _ =>
      point.caller :: (self.schedule.filter fun x => x.chosen != x.caller).map (·.chosen)

-- The loop that reads the addresses.
def parseAddrlist : List (List Char) → Option (List String × List (List Char))
  | [] => none
  | item :: schedin =>
      if contains "end_addr_list" item then some ([], schedin)
      else do
        let (addrlist, schedin) ← parseAddrlist schedin
        return (String.ofList (strip item) :: addrlist, schedin)

-- The last point before an assertion need not be sound.
def isUnchecked (schedin : List (List Char)) : Bool :=
  schedin.head?.all fun line => contains "assert" line

-- What is asserted of the point; a point of a SCHED entry has no signal.
def isSane (point : SchedulePoint) : Bool :=
  point.enabled.contains point.chosen &&
    point.signal.all fun info => info.oncond.contains info.signalled

-- The main loop, with the points so far and the error at its end. Every turn takes a line, so
-- that there are enough turns where there are more than lines.
def parseEntries : Nat → List (List Char) → List SchedulePoint →
    Option (List SchedulePoint × Option String)
  | 0, _, _ => none
  | _ + 1, [], schedule => do
      let last ← schedule.getLast?
      let chosen ← last.chosen
      return (schedule, some ("unknown error by " ++ chosen))
  | turns + 1, line :: schedin, schedule =>
      let item := strip line
      if contains "SCHED" item then do
        guard (5 ≤ schedin.length)
        let tmp_point ← SchedulePoint.init (schedin.take 5)
        guard (isUnchecked (schedin.drop 5) || isSane tmp_point)
        parseEntries turns (schedin.drop 5) (schedule ++ [tmp_point])
      else if contains "SIGNAL" item then
        if schedin.length < 11 then do
          let last ← schedin[5]?
          guard (contains "assert" last)
          return (schedule, some (String.ofList (strip last)))
        else do
          let tmp_point ← SchedulePoint.init (schedin.take 11)
          guard (isUnchecked (schedin.drop 11) || isSane tmp_point)
          parseEntries turns (schedin.drop 11) (schedule ++ [tmp_point])
      else if contains "segfault" item then some (schedule, some (String.ofList item))
      else if contains "deadlock" item then some (schedule, some (String.ofList item))
      else if contains "thrille assert" item then some (schedule, some "THRILLE INTERNAL ERROR")
      else if contains "program assert" item then some (schedule, some (String.ofList item))
      else do
        guard (contains "end_log" item)
        return (schedule, none)

def parseFile (file : List Char) : Option Schedule := do
  let (line, schedin) ← match readlines file with
    | [] => none
    | line :: schedin => some (line, schedin)
  guard (contains "begin_addr_list" line)
  let (addrlist, schedin) ← parseAddrlist schedin
  let (schedule, error) ← parseEntries (schedin.length + 1) schedin []
  let self : Schedule := { schedule, addrlist, error }
  let switches ← self.getContextSwitches
  guard (self.getThreadOrder.length = switches + 1)
  return self

end Schedule

end Thrille
