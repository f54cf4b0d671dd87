import Thrille.Chess.SearchStack

namespace Thrille

-- `tested` records what each call of `testSchedule` gave.
structure ChessChecker where
  preemption_bound : Nat
  addrlist : List String
  executions : Nat := 0
  completed_search : Bool := false
  exit_on_error : Bool := false
  errors_found : List (String × Nat) := []
  search_stack : ChessSearchStack
  tested : List Schedule := []

namespace ChessChecker

def new (preemption_bound : Nat) (addrlist : List String) : ChessChecker :=
  { preemption_bound, addrlist, search_stack := { preempt_bound := 0, addrlist } }

section

-- The program under test: from the schedule it is given to the schedule that it logs.
variable (program : Schedule → Schedule)

def testSchedule (self : ChessChecker) (test_schedule : Schedule) : Schedule × ChessChecker :=
  let mysched := program test_schedule
  (mysched, { self with executions := self.executions + 1, tested := self.tested ++ [mysched] })

def getInitialSchedule (self : ChessChecker) : Option (Schedule × ChessChecker) := do
  guard self.search_stack.stack.isEmpty
  return self.testSchedule program { addrlist := self.addrlist }

def generateSearchStack (self : ChessChecker) (schedule : Schedule) : Option ChessChecker := do
  let stack ← self.search_stack.generateSearchStack self.preemption_bound schedule
  return { self with search_stack := stack }

-- `none` is also the exit of the checker on an error.
def recordAnyErrors (self : ChessChecker) (schedule : Schedule) : Option ChessChecker :=
  match schedule.error with
  | none => some self
  | some err =>
      if err ∈ self.errors_found.map Prod.fst then some self
      else do
        guard !self.exit_on_error
        return { self with errors_found := self.errors_found ++ [(err, self.executions)] }

def regenerateSearchStack (self : ChessChecker) (target_sched result_sched : Schedule) :
    Option ChessChecker := do
  let stack ← self.search_stack.regenerate target_sched result_sched
  return { self with search_stack := stack }

-- Every turn that does not leave the loop runs the program once, so `turns` does not run out
-- before `executions` has passed the bound.
def checkLoop (execution_bound : Nat) (self : ChessChecker) : Nat → Option ChessChecker
  | 0 => some self
  | turns + 1 => do
      if self.search_stack.isSearchComplete then return self
      if execution_bound < self.executions then return { self with completed_search := false }
      let (curr_sched, stack) ← self.search_stack.generateNextSchedule
      let self := { self with search_stack := stack }
      match curr_sched with
      | none => return { self with completed_search := true }
      | some curr_sched =>
          let (result_sched, self) := self.testSchedule program curr_sched
          let preemptions ← result_sched.getPreemptions
          guard (preemptions ≤ self.preemption_bound)
          let self ← self.recordAnyErrors result_sched
          let self ← self.regenerateSearchStack curr_sched result_sched
          checkLoop execution_bound self turns

def checkWithBound (self : ChessChecker) (execution_bound : Nat) : Option ChessChecker := do
  let (curr_sched, self) ← self.getInitialSchedule program
  let self ← self.generateSearchStack curr_sched
  self.checkLoop program execution_bound (execution_bound + 1)

end

end ChessChecker

end Thrille
