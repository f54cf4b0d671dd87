import Mathlib.Data.List.Basic
import Mathlib.Data.List.Infix
import Mathlib.Data.Option.Basic

namespace Thrille

-- A thread name as the scripts keep it: a string, or `None` where the search leaves it open.
abbrev Name := Option String

instance : LawfulBEq Name := inferInstance

-- The attributes that only the points built from a SIGNAL entry have.
structure SignalInfo where
  signalled : Name
  cond : String
  oncond : List Name
  deriving DecidableEq, Repr

structure SchedulePoint where
  chosen : Name
  caller : Name
  type : String
  addr : String
  enabled : List Name
  signal : Option SignalInfo := none
  deriving DecidableEq, Repr

namespace SchedulePoint

def isSignal (point : SchedulePoint) : Bool := point.signal.isSome

def signalled (point : SchedulePoint) : List Name := (point.signal.map (·.signalled)).toList

def isCheckpoint (point : SchedulePoint) : Bool :=
  decide ("Thrille_Checkpoint".toList <:+: point.type.toList)

end SchedulePoint

structure Schedule where
  schedule : List SchedulePoint := []
  addrlist : List String := []
  error : Option String := none
  deriving DecidableEq, Repr

-- One `outputScheduleStep` of the relaxed format.
structure RelaxedStep where
  sched : Name
  times : Nat
  addr : String
  skip : Nat
  sig : List Name
  deriving DecidableEq, Repr

namespace Schedule

def setAddr (addr : String) (point : SchedulePoint) : SchedulePoint := { point with addr }

-- The thread that calls the first point.
def mainThread : Name := some "0"

def patchFrom (last : Name) : List SchedulePoint → List SchedulePoint
  | [] => []
  | x :: rest => { x with caller := last } :: patchFrom x.chosen rest

def patchUpSchedule (sched : List SchedulePoint) : List SchedulePoint := patchFrom mainThread sched

-- `i` counts upwards from `i` until it meets a point that satisfies `p`, or the end.
def scanUp (p : SchedulePoint → Bool) (sched : List SchedulePoint) (i : Nat) : Nat :=
  i + (sched.drop i).findIdx p

-- The number of points that are left when a downward scan that starts below `i` meets a point
-- that satisfies `p`; it is 0 where the index of the source ends at -1.
def scanDown (p : SchedulePoint → Bool) (sched : List SchedulePoint) (i : Nat) : Nat :=
  i - (sched.take i).reverse.findIdx p

-- `none` is a failed assertion, `some {}` the empty schedule.
def removeFinalBlockOfThread (self : Schedule) (thread : Name) : Option Schedule := do
  guard (0 < self.schedule.length)
  let i := scanDown (·.chosen == thread) self.schedule self.schedule.length
  if i = 0 then return {}
  let j := scanDown (·.chosen != thread) self.schedule i
  let copy_front := self.schedule.take j
  let block := (self.schedule.take i).drop j
  let copy_back := self.schedule.drop i
  let block_addr ← block.head?.map (·.addr)
  let copy_back := copy_back.modifyHead (setAddr block_addr)
  return { self with schedule := patchUpSchedule (copy_front ++ copy_back) }

-- The second result is the moved block, as the patched schedule has it.
def consolidateFrontierForwardTEI (self : Schedule) (frontier : Nat) :
    Option (Schedule × List SchedulePoint) := do
  let point ← self.schedule[frontier]?
  if self.schedule.length ≤ frontier + 1 then return ({}, [])
  let target := point.caller
  if target = point.chosen then return ({}, [])
  if target ∉ point.enabled then return ({}, [])
  let block_start := scanUp (·.chosen == target) self.schedule (frontier + 1)
  if block_start = self.schedule.length then return ({}, [])
  let block_end := scanUp (·.chosen != target) self.schedule block_start
  let prefrontier := self.schedule.take frontier
  let postfrontier := (self.schedule.take block_start).drop frontier
  let mobileblock := (self.schedule.take block_end).drop block_start
  let endblock := self.schedule.drop block_end
  -- address swaps for the benefit of relaxed scheduling
  let addrsave ← mobileblock.head?.map (·.addr)
  let mobileblock := mobileblock.modifyHead (setAddr point.addr)
  let postfrontier := postfrontier.modifyHead
    (setAddr ((endblock.head?.map (·.addr)).getD "0"))
  let endblock := endblock.modifyHead (setAddr addrsave)
  let final_list := patchUpSchedule (prefrontier ++ mobileblock ++ postfrontier ++ endblock)
  guard (final_list.length = self.schedule.length)
  return ({ schedule := final_list, addrlist := self.addrlist },
    (final_list.drop frontier).take mobileblock.length)

def consolidateFrontierForward (self : Schedule) (frontier : Nat) : Option Schedule := do
  let (sched, _) ← self.consolidateFrontierForwardTEI frontier
  return sched

def consolidateFrontierBackward (self : Schedule) (frontier : Nat) : Option Schedule := do
  let point ← self.schedule[frontier]?
  if frontier = 0 then return {}
  let target := point.chosen
  let before ← self.schedule[frontier - 1]?
  if target = before.chosen then return {}
  -- one past the source's `block_end`, and one past its `block_start`
  let block_end := scanDown (·.chosen == target) self.schedule frontier
  if block_end = 0 then return {}
  let block_start := scanDown (·.chosen != target) self.schedule block_end
  let start := self.schedule.take block_start
  let mobileblock := (self.schedule.take block_end).drop block_start
  let prefrontier := (self.schedule.take frontier).drop block_end
  let postfrontier := self.schedule.drop frontier
  -- address reassignment
  let addrsave ← prefrontier.head?.map (·.addr)
  let mobileaddr ← mobileblock.head?.map (·.addr)
  let prefrontier := prefrontier.modifyHead (setAddr mobileaddr)
  let mobileblock := mobileblock.modifyHead (setAddr point.addr)
  let postfrontier := postfrontier.modifyHead (setAddr addrsave)
  let final_list := patchUpSchedule (start ++ prefrontier ++ mobileblock ++ postfrontier)
  guard (final_list.length = self.schedule.length)
  return { schedule := final_list, addrlist := self.addrlist }

def _getContextSwitches (self : Schedule) : Nat :=
  self.schedule.countP fun x => x.caller != x.chosen

def _getNonPreemptiveContextSwitches (self : Schedule) : Nat :=
  self.schedule.countP fun x => x.caller != x.chosen && !x.enabled.contains x.caller

def _getPreemptions (self : Schedule) : Nat :=
  self.schedule.countP fun x => x.caller != x.chosen && x.enabled.contains x.caller

def getContextSwitches (self : Schedule) : Option Nat := do
  guard (self._getNonPreemptiveContextSwitches + self._getPreemptions = self._getContextSwitches)
  return self._getContextSwitches

def getNonPreemptiveContextSwitches (self : Schedule) : Option Nat := do
  guard (self._getNonPreemptiveContextSwitches + self._getPreemptions = self._getContextSwitches)
  return self._getNonPreemptiveContextSwitches

def getPreemptions (self : Schedule) : Option Nat := do
  guard (self._getNonPreemptiveContextSwitches + self._getPreemptions = self._getContextSwitches)
  return self._getPreemptions

-- The assertion of the three functions always holds.
theorem switches_add_preemptions (self : Schedule) :
    self._getNonPreemptiveContextSwitches + self._getPreemptions = self._getContextSwitches := by
  unfold _getNonPreemptiveContextSwitches _getPreemptions _getContextSwitches
  induction self.schedule with
  | nil => rfl
  | cons x rest ih =>
      simp only [List.countP_cons]
      generalize (x.caller != x.chosen) = switches
      generalize x.enabled.contains x.caller = enabled
      cases switches <;> cases enabled <;> simp only [Bool.and_true, Bool.and_false,
        Bool.not_true, Bool.not_false, Bool.false_eq_true, if_true, if_false] <;> omega

theorem getContextSwitches_eq (self : Schedule) :
    self.getContextSwitches = some self._getContextSwitches := by
  simp [getContextSwitches, self.switches_add_preemptions]

theorem getPreemptions_eq (self : Schedule) :
    self.getPreemptions = some self._getPreemptions := by
  simp [getPreemptions, self.switches_add_preemptions]

-- The loop of `getPostfixAfter`: both lists lose their first points together. An open signal,
-- whose next thread is `None`, must be the target's last point, and is handed back undecided.
def postfixAfter : List SchedulePoint → List SchedulePoint → Option (List SchedulePoint)
  | mutable_me, [] => some mutable_me
  | [], _ :: _ => none
  | my_el :: mutable_me, other_el :: mutable_target_sched =>
      match my_el.signal with
      | some info => do
          let other ← other_el.signal
          guard (info.signalled = other.signalled)
          if other_el.chosen = none then
            guard mutable_target_sched.isEmpty
            return { my_el with signal := some { info with signalled := none } } :: mutable_me
          guard (my_el.chosen = other_el.chosen)
          postfixAfter mutable_me mutable_target_sched
      | none => do
          guard (my_el.chosen = other_el.chosen)
          postfixAfter mutable_me mutable_target_sched

def getPostfixAfter (self target_sched : Schedule) : Option Schedule := do
  guard (target_sched.schedule.length ≤ self.schedule.length)
  guard (self.addrlist = target_sched.addrlist)
  let mutable_me ← postfixAfter self.schedule target_sched.schedule
  return { self with schedule := mutable_me }

-- What the loop of `outputRelaxedSchedule` carries from point to point.
structure RelaxedState where
  times_scheduled : Nat := 0
  addr_dict : String → Nat := fun _ => 0
  signal_list : List Name := []

def RelaxedState.count (state : RelaxedState) (tmp : SchedulePoint) : RelaxedState :=
  { times_scheduled := state.times_scheduled + 1
    addr_dict := fun addr =>
      if addr = tmp.addr then state.addr_dict addr + 1 else state.addr_dict addr
    signal_list := state.signal_list ++ tmp.signalled }

-- The loop, and the last step after it; `last` is the thread that the schedule ends with.
def relaxedSteps (last : Name) (state : RelaxedState) : List SchedulePoint → List RelaxedStep
  | [] =>
      [{ sched := last, times := state.times_scheduled, addr := "0", skip := 0,
         sig := state.signal_list }]
  | tmp :: rest =>
      let state := state.count tmp
      if tmp.chosen ≠ tmp.caller then
        { sched := tmp.caller, times := state.times_scheduled - 1, addr := tmp.addr,
          skip := state.addr_dict tmp.addr - 1, sig := state.signal_list } ::
          relaxedSteps last { times_scheduled := 1 } rest
      else relaxedSteps last state rest

def outputRelaxedSchedule (self : Schedule) : Option (List RelaxedStep) := do
  let final ← self.schedule.getLast?
  return relaxedSteps final.chosen {} self.schedule

end Schedule

end Thrille
