import Mathlib.Data.List.Dedup
import Mathlib.Data.List.InsertIdx
import Std.Data.TreeMap
import Thrille.Files.Parse

namespace Thrille

namespace Schedule

def getNumberOfThreads (self : Schedule) : Nat :=
  (self.schedule.flatMap fun x => [x.caller, x.chosen]).dedup.length

-- Behind the end is in the last block too, which can happen with signals.
def isInLastTEI (self : Schedule) (i : Nat) : Bool :=
  match self.schedule.drop i with
  | [] => true
  | point :: rest => rest.all (·.chosen == point.chosen)

def swapChosen (index : Nat) (sched : List SchedulePoint) : List SchedulePoint :=
  match sched[index]?, sched[index + 1]? with
  | some x, some y =>
      (sched.set index { x with chosen := y.chosen }).set (index + 1) { y with chosen := x.chosen }
  | _, _ => sched

-- One point of the thread that is preempted at `index` moves up to it; `none` is a failed
-- assertion.
def _consolidateActionForward (sched : List SchedulePoint) (index : Nat) :
    Option (List SchedulePoint) := do
  guard (index + 1 < sched.length)
  let point ← sched[index]?
  let target := point.caller
  guard (target ≠ point.chosen)
  let search_ptr := scanUp (·.chosen == target) sched (index + 1)
  match sched[search_ptr]?, sched[search_ptr + 1]? with
  | none, _ => return sched
  | some tmp, none =>
      let moved := (sched.eraseIdx search_ptr).insertIdx (index + 1) tmp
      return (swapChosen index moved).modify (index + 1) (setAddr "0")
  | some tmp, some after =>
      if after.chosen = target then
        return swapChosen index ((sched.eraseIdx (search_ptr + 1)).insertIdx (index + 1) after)
      else
        let sched := sched.modify (search_ptr + 1) (setAddr tmp.addr)
        let moved := (sched.eraseIdx search_ptr).insertIdx (index + 1) tmp
        return (swapChosen index moved).modify (index + 1) (setAddr after.addr)

-- The first loop of `synthesizeForwardSchedule`: where the schedules differ first, and how many
-- points of the moved block were executed from there on.
def executedOfTEI (mobileTEI : List SchedulePoint) :
    List (SchedulePoint × SchedulePoint) → Nat → Nat → Nat → Option (Nat × Nat)
  | [], _, start_index, to_move => some (start_index, to_move)
  | (mine, orig) :: rest, i, start_index, to_move =>
      if mine.chosen ≠ orig.chosen then
        let start_index := min start_index i
        match mobileTEI[i - start_index]? with
        | none => some (start_index, to_move)
        | some tei =>
            if mine.chosen = tei.chosen then
              executedOfTEI mobileTEI rest (i + 1) start_index (to_move + 1)
            else none
      else executedOfTEI mobileTEI rest (i + 1) start_index to_move

-- The second loop, which skips what cannot be moved.
def moveForward : Nat → Nat → List SchedulePoint → List SchedulePoint
  | 0, _, copy_orig => copy_orig
  | to_move + 1, start_index, copy_orig =>
      let copy_orig := (_consolidateActionForward copy_orig start_index).getD copy_orig
      moveForward to_move (start_index + 1) (patchUpSchedule copy_orig)

def synthesizeForwardSchedule (self original : Schedule) (mobileTEI : List SchedulePoint) :
    Option Schedule := do
  let (start_index, to_move) ← executedOfTEI mobileTEI (self.schedule.zip original.schedule) 0
    original.schedule.length 0
  return { schedule := moveForward to_move start_index original.schedule
           addrlist := original.addrlist }

end Schedule

-- The two ways to execute a schedule, which may give back any schedule; `none` is an assertion
-- that fails while its log is read.
structure Tester (τ : Type) where
  testScheduleStrict : Schedule → StateT τ Option Schedule
  testScheduleRelaxed : Schedule → StateT τ Option Schedule

-- The tester of a simplifier, over the executions with the two libraries; the relaxed one also
-- tells whether it took more than 35 seconds.
def Tester.withThrillers {τ : Type} (strictserial : Schedule → StateT τ Option Schedule)
    (relaxedserial : Schedule → StateT τ Option (Schedule × Bool)) : Tester τ where
  testScheduleStrict sched := if sched = {} then return sched else strictserial sched
  testScheduleRelaxed sched :=
    if sched = {} then return sched
    else do
      let (mysched, time_fails) ← relaxedserial sched
      return if time_fails then {} else mysched

-- What a transformation has removed so far.
structure TransformStat where
  blocks : Int := 0
  threads : Int := 0
  ctxt : Int := 0
  nonpre : Int := 0
  pre : Int := 0
  deriving DecidableEq, Repr

abbrev TransformStats := Std.TreeMap String TransformStat

-- What `simplify` gives back, its count of iterations, and `current_sched` at every test of its
-- loop.
structure Simplified where
  schedule : Schedule
  iterations : Nat
  currents : List Schedule
  deriving DecidableEq, Repr

namespace Simplifier

variable {τ : Type} (tester : Tester τ)

-- A tested schedule with the same error stays unless it has more context switches.
def preferTested (return_sched tested_sched : Schedule) : Option Schedule := do
  let return_ctxt ← return_sched.getContextSwitches
  let tested_ctxt ← tested_sched.getContextSwitches
  return if tested_ctxt ≤ return_ctxt then tested_sched else return_sched

def blockRemoveLoop : List Name → List Name → Schedule → StateT τ Option Schedule
  | [], _, return_sched => return return_sched
  | x :: threadOrder, thread_done, return_sched => do
      if x ∈ thread_done then blockRemoveLoop threadOrder thread_done return_sched
      else
        let untested_sched ← return_sched.removeFinalBlockOfThread x
        let return_ctxt ← return_sched.getContextSwitches
        let untested_ctxt ← untested_sched.getContextSwitches
        guard (untested_ctxt ≤ return_ctxt)
        let tested_sched ← tester.testScheduleRelaxed untested_sched
        if tested_sched.error = return_sched.error then
          blockRemoveLoop threadOrder thread_done (← preferTested return_sched tested_sched)
        else blockRemoveLoop threadOrder (x :: thread_done) return_sched

-- The two tests around every pass.
def checked (pass : Schedule → StateT τ Option Schedule) (sched : Schedule) :
    StateT τ Option Schedule := do
  guard ((← tester.testScheduleStrict sched).error = sched.error)
  let return_sched ← pass sched
  guard ((← tester.testScheduleStrict return_sched).error = sched.error)
  return return_sched

def blockRemove (sched : Schedule) : StateT τ Option Schedule :=
  checked tester (fun sched => blockRemoveLoop tester sched.getThreadOrder.reverse [] sched) sched

def failedInMovedTEI (tested_sched : Schedule) (i : Nat) : Bool :=
  if tested_sched = {} then false else tested_sched.isInLastTEI i

def twoStageConsolidation (sched : Schedule) (i : Nat) : StateT τ Option Schedule := do
  let (untested_sched, tei) ← sched.consolidateFrontierForwardTEI i
  let tested_sched ← tester.testScheduleStrict untested_sched
  if failedInMovedTEI tested_sched i then
    tester.testScheduleRelaxed (← tested_sched.synthesizeForwardSchedule sched tei)
  else tester.testScheduleRelaxed untested_sched

-- A loop that is not over after so many turns fails too, here and below.
def forwardLoop : Nat → Nat → Schedule → StateT τ Option Schedule
  | 0, _, _ => failure
  | turns + 1, i, return_sched => do
      if i < return_sched.schedule.length then
        let tested_sched ← twoStageConsolidation tester return_sched i
        if tested_sched.error = return_sched.error then
          forwardLoop turns (i + 1) (← preferTested return_sched tested_sched)
        else forwardLoop turns (i + 1) return_sched
      else return return_sched

def simplifyForwardTwoStage (turns : Nat) (sched : Schedule) : StateT τ Option Schedule :=
  checked tester (forwardLoop tester turns 0) sched

def backwardLoop : Nat → Nat → Schedule → StateT τ Option Schedule
  | 0, _, _ => failure
  | turns + 1, i, return_sched => do
      if 0 < i then
        -- some change may have shortened the schedule
        let i := if return_sched.schedule.length ≤ i then return_sched.schedule.length - 1 else i
        let untested_sched ← return_sched.consolidateFrontierBackward i
        let return_ctxt ← return_sched.getContextSwitches
        let untested_ctxt ← untested_sched.getContextSwitches
        guard (untested_ctxt ≤ return_ctxt)
        let tested_sched ← tester.testScheduleRelaxed untested_sched
        if tested_sched.error = return_sched.error then
          backwardLoop turns (i - 1) (← preferTested return_sched tested_sched)
        else backwardLoop turns (i - 1) return_sched
      else return return_sched

def simplifyBackward (turns : Nat) (sched : Schedule) : StateT τ Option Schedule :=
  checked tester (fun sched => backwardLoop tester turns (sched.schedule.length - 1) sched) sched

-- The counts that `printEffect` adds up.
def printEffect (stats : TransformStats) (string : String) (oldsched newsched : Schedule) :
    Option TransformStats := do
  let oldctxt ← oldsched.getContextSwitches
  let newctxt ← newsched.getContextSwitches
  let oldnpcs ← oldsched.getNonPreemptiveContextSwitches
  let newnpcs ← newsched.getNonPreemptiveContextSwitches
  let oldpre ← oldsched.getPreemptions
  let newpre ← newsched.getPreemptions
  guard (oldnpcs + oldpre = oldctxt)
  guard (newnpcs + newpre = newctxt)
  let stat := stats.getD string {}
  return stats.insert string
    { blocks := stat.blocks + (oldsched.schedule.length - newsched.schedule.length : Int)
      threads := stat.threads + (oldsched.getNumberOfThreads - newsched.getNumberOfThreads : Int)
      ctxt := stat.ctxt + (oldctxt - newctxt : Int)
      nonpre := stat.nonpre + (oldnpcs - newnpcs : Int)
      pre := stat.pre + (oldpre - newpre : Int) }

def ensureSanity (start_schedule : Schedule) (stats : TransformStats) (sched : Schedule) :
    Option Unit := do
  let removed (field : TransformStat → Int) : Int := (stats.toList.map fun x => field x.2).sum
  guard (removed (·.pre) + removed (·.nonpre) = removed (·.ctxt))
  guard (stats.toList.all fun x => x.2.nonpre + x.2.pre == x.2.ctxt)
  let startctxt ← start_schedule.getContextSwitches
  let endctxt ← sched.getContextSwitches
  let startnpcs ← start_schedule.getNonPreemptiveContextSwitches
  let endnpcs ← sched.getNonPreemptiveContextSwitches
  let startpre ← start_schedule.getPreemptions
  let endpre ← sched.getPreemptions
  guard ((start_schedule.schedule.length - sched.schedule.length : Int) = removed (·.blocks))
  guard ((start_schedule.getNumberOfThreads - sched.getNumberOfThreads : Int) =
    removed (·.threads))
  guard ((startctxt - endctxt : Int) = removed (·.ctxt))
  guard ((startnpcs - endnpcs : Int) = removed (·.nonpre))
  guard ((startpre - endpre : Int) = removed (·.pre))

def blockRemoveDebug (debug : Bool) (stats : TransformStats) (sched : Schedule) :
    StateT τ Option (Schedule × TransformStats) := do
  let br_sched ← blockRemove tester sched
  if debug then
    let stats ← printEffect stats "Block Removal" sched br_sched
    return (br_sched, stats)
  else return (br_sched, stats)

-- The body of the outer loop.
def iterate (turns : Nat) (debug : Bool) (stats : TransformStats) (tmp_sched : Schedule) :
    StateT τ Option (Schedule × TransformStats) := do
  let (rtmp_sched, stats) ← blockRemoveDebug tester debug stats tmp_sched
  let ftmp_sched ← simplifyForwardTwoStage tester turns rtmp_sched
  let stats ← printEffect stats "Forward Consolidation2" rtmp_sched ftmp_sched
  let btmp_sched ← simplifyBackward tester turns ftmp_sched
  let stats ← printEffect stats "Backward Consolidation" ftmp_sched btmp_sched
  return (btmp_sched, stats)

def simplifyLoop (turns : Nat) (debug : Bool) :
    Nat → Nat → TransformStats → Schedule → Schedule → StateT τ Option (Simplified × TransformStats)
  | 0, _, _, _, _ => failure
  | left + 1, i, stats, last_sched, current_sched => do
      let current_ctxt ← current_sched.getContextSwitches
      let last_ctxt ← last_sched.getContextSwitches
      if current_ctxt ≠ last_ctxt then
        let (btmp_sched, stats) ← iterate tester turns debug stats current_sched
        let (done, stats) ← simplifyLoop turns debug left (i + 1) stats current_sched btmp_sched
        return ({ done with currents := current_sched :: done.currents }, stats)
      else
        return ({ schedule := current_sched, iterations := i, currents := [current_sched] }, stats)

def simplify (turns : Nat) (debug : Bool) (start_schedule : Schedule) :
    StateT τ Option Simplified :=
  if start_schedule.error = none then
    return { schedule := start_schedule, iterations := 0, currents := [start_schedule] }
  else do
    let (done, stats) ← simplifyLoop tester turns debug turns 0 ∅ {} start_schedule
    guard (done.schedule.error = start_schedule.error)
    guard ((← tester.testScheduleStrict done.schedule).error = start_schedule.error)
    ensureSanity start_schedule stats done.schedule
    return done

end Simplifier

end Thrille
