import Thrille.Chess

namespace Thrille

namespace Schedule

def getNumberOfCheckpoints (self : Schedule) : Nat := self.schedule.countP (·.isCheckpoint)

-- The points up to the first checkpoint and with it.
def throughCheckpoint : List SchedulePoint → List SchedulePoint
  | [] => []
  | sched_point :: rest =>
      if sched_point.isCheckpoint then [sched_point] else sched_point :: throughCheckpoint rest

def getPrefixBeforeCheckpoint (self : Schedule) : Option Schedule := do
  guard (0 < self.getNumberOfCheckpoints)
  return { schedule := throughCheckpoint self.schedule, addrlist := self.addrlist }

end Schedule

namespace ChessSearchStack

def getNumberOfCheckpoints (self : ChessSearchStack) : Nat := self.stack.countP (·.ischeckpoint)

end ChessSearchStack

structure ChristosChessChecker extends ChessChecker where
  initial_schedule : Schedule
  preemptions_in_prefix : Nat := 0

namespace ChristosChessChecker

def new (preemption_bound : Nat) (addrlist : List String) (initial_schedule : Schedule) :
    ChristosChessChecker :=
  { preemption_bound
    addrlist
    search_stack := { preempt_bound := 0, addrlist, checkpointed := true }
    initial_schedule }

def maxPreemptions (self : ChristosChessChecker) : Nat :=
  self.preemption_bound + self.preemptions_in_prefix

section

-- The program under test: from the schedule it is given to the schedule that it logs.
variable (program : Schedule → Schedule)

def testSchedule (self : ChristosChessChecker) (test_schedule : Schedule) :
    Schedule × ChristosChessChecker :=
  let (mysched, checker) := self.toChessChecker.testSchedule program test_schedule
  (mysched, { self with toChessChecker := checker })

def getInitialSchedule (self : ChristosChessChecker) : Option (Schedule × ChristosChessChecker) := do
  guard self.search_stack.stack.isEmpty
  let (result_schedule, self) := self.testSchedule program self.initial_schedule
  guard (result_schedule.getNumberOfCheckpoints = 1)
  let checkpoint_prefix ← result_schedule.getPrefixBeforeCheckpoint
  guard ( checkpoint_prefix.getNumberOfCheckpoints = 1)
  let preemptions_in_prefix ← checkpoint_prefix.getPreemptions
  return { self with preemptions_in_prefix }.testSchedule program checkpoint_prefix

def generateSearchStack (self : ChristosChessChecker) (schedule : Schedule) :
    Option ChristosChessChecker := do
  let checker ← self.toChessChecker.generateSearchStack schedule
  guard (checker.search_stack.getNumberOfCheckpoints = 1)
  return { self with toChessChecker := checker }

def generateNextSchedule (self : ChristosChessChecker) :
    Option (Option Schedule × ChristosChessChecker) := do
  let (next_sched, stack) ← self.search_stack.generateNextSchedule
  let self := { self with search_stack := stack }
  match next_sched with
  | none => return (none, self)
  | some sched =>
      let preemptions ← sched.getPreemptions
      guard (preemptions ≤ self.maxPreemptions)
      return (some sched, self)

-- It gives nothing back, which the loop takes for a search that is not complete.
def isSearchComplete (self : ChristosChessChecker) : Option Bool := do
  if self.search_stack.isSearchComplete then guard (self.search_stack.getNumberOfCheckpoints = 0)
  else guard (self.search_stack.getNumberOfCheckpoints = 1)
  return false

def recordAnyErrors (self : ChristosChessChecker) (schedule : Schedule) :
    Option ChristosChessChecker := do
  let checker ← self.toChessChecker.recordAnyErrors schedule
  return { self with toChessChecker := checker }

def regenerateSearchStack (self : ChristosChessChecker) (target result : Schedule) :
    Option ChristosChessChecker := do
  let checker ← self.toChessChecker.regenerateSearchStack target result
  guard (checker.search_stack.calculatePreemptionsInRange 0 ≤ self.maxPreemptions)
  return { self with toChessChecker := checker }

-- The loop of `checkWithBound`, with the functions that this checker overrides.
def checkLoop (execution_bound : Nat) (self : ChristosChessChecker) :
    Nat → Option ChristosChessChecker
  | 0 => some self
  | turns + 1 => do
      let complete ← self.isSearchComplete
      if complete then return self
      if execution_bound < self.executions then return { self with completed_search := false }
      let (curr_sched, self) ← self.generateNextSchedule
      match curr_sched with
      | none => return { self with completed_search := true }
      | some curr_sched =>
          let (result_sched, self) := self.testSchedule program curr_sched
          let preemptions ← result_sched.getPreemptions
          guard (preemptions ≤ self.maxPreemptions)
          let self ← self.recordAnyErrors result_sched
          let self ← self.regenerateSearchStack curr_sched result_sched
          checkLoop execution_bound self turns

def checkWithBound (self : ChristosChessChecker) (execution_bound : Nat) :
    Option ChristosChessChecker := do
  let (curr_sched, self) ← self.getInitialSchedule program
  let self ← self.generateSearchStack curr_sched
  self.checkLoop program execution_bound (execution_bound + 1)

def check (self : ChristosChessChecker) : Option ChristosChessChecker :=
  self.checkWithBound program 999999999999

end

end ChristosChessChecker

end Thrille
