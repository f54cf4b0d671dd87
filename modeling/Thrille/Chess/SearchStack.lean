import Thrille.Schedule

namespace Thrille

structure SearchStackElement where
  schedule_point : SchedulePoint
  issignal : Bool
  ischeckpoint : Bool
  done : List Name
  chosen : Name
  todo : List Name

namespace SearchStackElement

-- The constructor; `none` where one of its assertions fails.
def new (sched_point : SchedulePoint) (issignal : Bool) : Option SearchStackElement := do
  let (chosen, todo) ←
    if issignal then sched_point.signal.map fun info => (info.signalled, info.oncond)
    else some (sched_point.chosen, sched_point.enabled)
  guard (chosen ∈ todo)
  return {
    schedule_point := sched_point
    issignal := issignal
    ischeckpoint := sched_point.isCheckpoint
    done := [chosen]
    chosen := chosen
    todo := todo.erase chosen }

def chosenIsDone (self : SearchStackElement) : SearchStackElement :=
  if self.chosen ∈ self.done then self else { self with done := self.done ++ [self.chosen] }

def doWork (self : SearchStackElement) : Option SearchStackElement := do
  let chosen ← self.todo.getLast?
  let self := { self.chosenIsDone with chosen, todo := self.todo.dropLast }
  if self.issignal then
    let info ← self.schedule_point.signal
    guard (self.chosen ∈ info.oncond)
  else guard (self.chosen ∈ self.schedule_point.enabled)
  return self

def needPreemptsToExplore (self : SearchStackElement) : Bool :=
  !self.issignal && self.schedule_point.enabled.contains self.schedule_point.caller &&
    self.schedule_point.caller == self.chosen

def hasToDo (self : SearchStackElement) : Bool := !self.todo.isEmpty

def isPreempt (self : SearchStackElement) : Bool :=
  !self.issignal && self.schedule_point.enabled.contains self.schedule_point.caller &&
    self.schedule_point.caller != self.chosen

def makeSchedulePoint (self : SearchStackElement) : SchedulePoint :=
  if self.issignal then
    { self.schedule_point with
      signal := self.schedule_point.signal.map fun info => { info with signalled := self.chosen } }
  else { self.schedule_point with chosen := self.chosen }

end SearchStackElement

-- `checkpointed` tells a `ChessCheckpointedSearchStack` from a plain `ChessSearchStack`. The top
-- of the stack is its last element.
structure ChessSearchStack where
  preempt_bound : Nat
  current_preempts : Nat := 0
  addrlist : List String
  stack : List SearchStackElement := []
  checkpointed : Bool := false

namespace ChessSearchStack

def calculatePreemptionsInRange (self : ChessSearchStack) (start : Nat) : Nat :=
  (self.stack.drop start).countP (·.isPreempt)

def isSearchComplete (self : ChessSearchStack) : Bool :=
  if self.checkpointed then self.stack.all fun element => !element.ischeckpoint
  else self.stack.isEmpty

-- The index that the scan for the deepest checkpoint stops at; 0 is never looked at.
def deepestCheckpoint (stack : List SearchStackElement) : Nat → Nat
  | 0 => 0
  | i + 1 => if (stack[i + 1]?).any (·.ischeckpoint) then i + 1 else deepestCheckpoint stack i

def calculatePreemptionsFromDeepestCheckpoint (self : ChessSearchStack) :
    Option ChessSearchStack := do
  let deepest := deepestCheckpoint self.stack (self.stack.length - 1)
  if deepest = 0 then
    guard self.isSearchComplete
    return self
  let self := { self with current_preempts := self.calculatePreemptionsInRange deepest }
  guard (self.current_preempts ≤ self.preempt_bound)
  return self

def calculatePreemptions (self : ChessSearchStack) : Option ChessSearchStack := do
  if self.checkpointed then self.calculatePreemptionsFromDeepestCheckpoint
  else
    let self := { self with current_preempts := self.calculatePreemptionsInRange 0 }
    guard (self.current_preempts ≤ self.preempt_bound)
    return self

def push (self : ChessSearchStack) (element : SearchStackElement) : Option ChessSearchStack := do
  let self ← { self with stack := self.stack ++ [element] }.calculatePreemptions
  guard (self.current_preempts ≤ self.preempt_bound)
  return self

def pop (self : ChessSearchStack) : Option (SearchStackElement × ChessSearchStack) := do
  let el ← self.stack.getLast?
  let self ← { self with stack := self.stack.dropLast }.calculatePreemptions
  return (el, self)

def popBottom (self : ChessSearchStack) : Option (SearchStackElement × ChessSearchStack) := do
  let el ← self.stack.head?
  let self ← { self with stack := self.stack.tail }.calculatePreemptions
  return (el, self)

-- `none` is the failed assertion of its last branch.
def isWorkToDo (self : ChessSearchStack) (element : SearchStackElement) : Option Bool :=
  if !element.hasToDo then some false
  else if self.current_preempts < self.preempt_bound then some true
  else if self.current_preempts = self.preempt_bound then some (!element.needPreemptsToExplore)
  else none

-- A signal element and the element for who to schedule after it make one point. A signal element
-- on top of the stack makes a point that leaves the next thread open.
def joinSignals : List SchedulePoint → Option (List SchedulePoint)
  | [] => some []
  | [elem] => if elem.isSignal then some [{ elem with chosen := none }] else some [elem]
  | elem :: following_elem :: tmp_sched =>
      match elem.signal with
      | none => do
          let rest ← joinSignals (following_elem :: tmp_sched)
          return elem :: rest
      | some info => do
          let following ← following_elem.signal
          guard (following.signalled = info.signalled)
          guard (following_elem.caller = elem.caller)
          let rest ← joinSignals tmp_sched
          return following_elem :: rest

def buildSchedule (self : ChessSearchStack) : Option Schedule := do
  let points ← joinSignals (self.stack.map (·.makeSchedulePoint))
  return { schedule := points, addrlist := self.addrlist }

-- One turn of the loop for each element; the first result is `none` when the search is complete.
def nextSchedule (self : ChessSearchStack) : Nat → Option (Option Schedule × ChessSearchStack)
  | 0 => some (none, self)
  | elements + 1 => do
      if self.isSearchComplete then return (none, self)
      let (element, self) ← self.pop
      let work ← self.isWorkToDo element
      if work then
        let element ← element.doWork
        let self ← self.push element
        let sched ← self.buildSchedule
        return (some sched, self)
      else self.nextSchedule elements

def generateNextSchedule (self : ChessSearchStack) :
    Option (Option Schedule × ChessSearchStack) :=
  self.nextSchedule self.stack.length

def mergeElements (self : ChessSearchStack) (other : ChessSearchStack) :
    Nat → Option ChessSearchStack
  | 0 => some self
  | elements + 1 => do
      let (tmp, other) ← other.popBottom
      let self ← self.push tmp
      self.mergeElements other elements

def mergeWith (self other_search_stack : ChessSearchStack) : Option ChessSearchStack :=
  self.mergeElements other_search_stack other_search_stack.stack.length

def stackTopIsDone (self : ChessSearchStack) : Option ChessSearchStack := do
  let top ← self.stack.getLast?
  return { self with stack := self.stack.dropLast ++ [top.chosenIsDone] }

def getEmptySearchStack (self : ChessSearchStack) (bound : Nat) (addrlist : List String) :
    ChessSearchStack :=
  { preempt_bound := bound, addrlist, checkpointed := self.checkpointed }

def pushSignal (my_searchstack : ChessSearchStack) (sched_point : SchedulePoint) :
    Option ChessSearchStack :=
  if sched_point.isSignal then do
    let tmp ← SearchStackElement.new sched_point true
    my_searchstack.push tmp
  else some my_searchstack

def pushPoint (my_searchstack : ChessSearchStack) (sched_point : SchedulePoint) :
    Option ChessSearchStack := do
  let my_searchstack ← my_searchstack.pushSignal sched_point
  let tmp ← SearchStackElement.new sched_point false
  my_searchstack.push tmp

def generateSearchStack (self : ChessSearchStack) (bound : Nat) (schedule : Schedule) :
    Option ChessSearchStack := do
  guard (schedule.addrlist = self.addrlist)
  schedule.schedule.foldlM pushPoint (self.getEmptySearchStack bound self.addrlist)

-- When only the signal half of a point was decided, the other half is split off the postfix here.
def checkForSplitSignal (self : ChessSearchStack) (schedule : Schedule) :
    Option (ChessSearchStack × Schedule) :=
  match schedule.schedule with
  | [] => some (self, schedule)
  | tmp :: rest =>
      match tmp.signal with
      | some ⟨none, cond, oncond⟩ => do
          let (last_el, self) ← self.pop
          guard last_el.issignal
          let tmp := { tmp with signal := some ⟨last_el.chosen, cond, oncond⟩ }
          let stack_el ← SearchStackElement.new tmp false
          let self ← self.push last_el
          let self ← self.push stack_el
          return (self, { schedule with schedule := rest })
      | _ => some (self, schedule)

def regenerate (self : ChessSearchStack) (target_sched result_sched : Schedule) :
    Option ChessSearchStack := do
  let postfix_sched ← result_sched.getPostfixAfter target_sched
  let self ← self.stackTopIsDone
  let (self, postfix_sched) ← self.checkForSplitSignal postfix_sched
  let tmp_stack ← self.generateSearchStack 0 postfix_sched
  self.mergeWith tmp_stack

end ChessSearchStack

end Thrille
