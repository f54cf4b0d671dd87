import Thrille.FairScheduler
import Thrille.Files.Relaxed

namespace Thrille

def UNKNOWN_THREAD : Int := -2

def INVALID_THREAD : Int := -1

-- `enable_map[target]`; neither of the two ids that stand for no thread is enabled. The entry that
-- reading an unknown id leaves in the map is `false`, as a missing one reads.
def isEnabled (enable_map : ThrMap Bool) (target : Int) : Bool :=
  decide (0 ≤ target) && enable_map.getD target.toNat false

-- With what `RelaxedLogger` keeps; `threadsToSignal` is the part from its iterator on, and `ext`
-- what a tracker that is built on this one has.
structure RelaxedTracker (σ : Type) where
  relaxed_schedule : List RelaxedSchedStruct
  threadsToSignal : List Int := []
  currentThreadToSchedule : Int := UNKNOWN_THREAD
  timesScheduled : Int := 0
  timesToSchedule : Int := 0
  addrPreempt : Addr := 0
  passPreempt : Int := 0
  ext : σ

-- The virtual functions that the trackers override; `none` is a failed assertion.
structure RelaxedVirtual (σ : Type) where
  checkAddressOfContextSwitch : RelaxedTracker σ → Addr → Bool × RelaxedTracker σ
  checkTimesScheduled : RelaxedTracker σ → Bool
  scheduleAdherenceCheck : RelaxedTracker σ → Bool
  noScheduleToFollow : RelaxedTracker σ → SchedPointInfo → Option (RelaxedTracker σ)

namespace RelaxedTracker

variable {σ : Type}

-- `regenerateSched`, and what the tracker keeps of it.
def regenerateRelaxedSchedule (self : RelaxedTracker σ) : RelaxedTracker σ :=
  match self.relaxed_schedule with
  | [] =>
      { self with
        currentThreadToSchedule := INVALID_THREAD
        timesToSchedule := 0
        addrPreempt := 0
        passPreempt := 0
        timesScheduled := 0 }
  | r :: relaxed_schedule =>
      { self with
        relaxed_schedule
        threadsToSignal := r.signals
        currentThreadToSchedule := r.current
        timesToSchedule := r.max
        addrPreempt := r.addr
        passPreempt := r.pass
        timesScheduled := 0 }

def getNextSignalChoice (self : RelaxedTracker σ) : Int × RelaxedTracker σ :=
  match self.threadsToSignal with
  | [] => (INVALID_THREAD, self)
  | result :: threadsToSignal => (result, { self with threadsToSignal })

def checkAddressOfContextSwitch (self : RelaxedTracker σ) (ret_addr : Addr) :
    Bool × RelaxedTracker σ :=
  let self :=
    if ret_addr = self.addrPreempt then { self with passPreempt := self.passPreempt - 1 } else self
  (decide (self.passPreempt < 0), self)

def checkTimesScheduled (self : RelaxedTracker σ) : Bool :=
  self.timesToSchedule == self.timesScheduled

def scheduleAdherenceCheck (self : RelaxedTracker σ) : Bool :=
  decide (self.timesScheduled < self.timesToSchedule)

-- The constructor loads nothing.
def init (relaxed_schedule : List RelaxedSchedStruct) : RelaxedTracker Unit :=
  { relaxed_schedule, ext := () }

def virtual : RelaxedVirtual Unit where
  checkAddressOfContextSwitch := checkAddressOfContextSwitch
  checkTimesScheduled := checkTimesScheduled
  scheduleAdherenceCheck := scheduleAdherenceCheck
  noScheduleToFollow := fun _ _ => none

def mustRegenerateSchedule (v : RelaxedVirtual σ) (self : RelaxedTracker σ) (s : SchedPointInfo) :
    Bool × RelaxedTracker σ :=
  let (must_regenerate, self) := v.checkAddressOfContextSwitch self s.ret_addr
  let must_regenerate := must_regenerate || v.checkTimesScheduled self
  let must_regenerate := must_regenerate || !isEnabled s.enabled self.currentThreadToSchedule
  (must_regenerate, self)

-- Without an enabled thread the run ends.
def deadlockCheck (s : SchedPointInfo) : Bool := s.enabled.toList.any fun entry => entry.2

-- The loop until an enabled thread is found; `none` also where it is not over after so many turns.
def regenerateLoop (v : RelaxedVirtual σ) (s : SchedPointInfo) :
    Nat → RelaxedTracker σ → Option (RelaxedTracker σ)
  | 0, _ => none
  | turns + 1, self => do
      guard (deadlockCheck s)
      let self := self.regenerateRelaxedSchedule
      let self ←
        if self.currentThreadToSchedule = INVALID_THREAD then v.noScheduleToFollow self s
        else some self
      if isEnabled s.enabled self.currentThreadToSchedule then return self
      regenerateLoop v s turns self

-- The assertion in `launchThread` comes last.
def schedule (v : RelaxedVirtual σ) (turns : Nat) (self : RelaxedTracker σ) (s : SchedPointInfo) :
    Option (Int × RelaxedTracker σ) := do
  let self :=
    if self.currentThreadToSchedule = UNKNOWN_THREAD then self.regenerateRelaxedSchedule else self
  let (regenerate, self) := mustRegenerateSchedule v self s
  let self ← if regenerate then regenerateLoop v s turns self else some self
  guard (deadlockCheck s)
  guard (v.scheduleAdherenceCheck self)
  guard (isEnabled s.enabled self.currentThreadToSchedule)
  return (self.currentThreadToSchedule, { self with timesScheduled := self.timesScheduled + 1 })

end RelaxedTracker

-- What `AddrTracker` adds: the fair scheduler and the random numbers of its logger.
structure AddrTracker (ρ : Type) where
  fairscheduler : FairScheduler
  myrand : ρ

namespace AddrTracker

variable {ρ : Type} (randInt : ρ → Nat × ρ)

-- `getRandomNumber` hands the 32 bits of the generator out as an `int`.
def getRandomNumber (number : Nat) : Int := Int.bmod number (2 ^ 32)

-- The second loop counts `chosenThread` down to a negative number, which a negative remainder is
-- from the start; `none` is the assertion behind it.
def chooseRandomThread (myrand : ρ) (threads : ThrMap Bool) : Option (Int × ρ) :=
  let choices := (threads.toList.filter fun entry => entry.2).map Prod.fst
  if choices.length = 0 then some (INVALID_THREAD, myrand)
  else
    let (chosenThread, myrand) :=
      if 1 < choices.length then
        ((getRandomNumber (randInt myrand).1).tmod choices.length, (randInt myrand).2)
      else (0, myrand)
    choices[chosenThread.toNat]?.map fun thread => ((thread : Int), myrand)

def noScheduleToFollow (self : RelaxedTracker (AddrTracker ρ)) (s : SchedPointInfo) :
    Option (RelaxedTracker (AddrTracker ρ)) := do
  let fairscheduler := self.ext.fairscheduler.updateDataStructures s
  let (fenmap, fairscheduler) := fairscheduler.getFairEnabledMap s
  let (current, myrand) ←
    if fenmap.getD s.thread false then some ((s.thread : Int), self.ext.myrand)
    else chooseRandomThread randInt self.ext.myrand fenmap
  return { self with
    currentThreadToSchedule := current
    timesToSchedule := 1
    timesScheduled := 0
    ext := { fairscheduler, myrand } }

-- A thread that runs for too long is suspected of a livelock.
def checkTimesScheduled (self : RelaxedTracker (AddrTracker ρ)) : Bool :=
  decide (2 * self.timesToSchedule < self.timesScheduled)

def virtual : RelaxedVirtual (AddrTracker ρ) where
  checkAddressOfContextSwitch := RelaxedTracker.checkAddressOfContextSwitch
  checkTimesScheduled := checkTimesScheduled
  scheduleAdherenceCheck := fun _ => true
  noScheduleToFollow := noScheduleToFollow randInt

-- The constructor loads the first block.
def init (relaxed_schedule : List RelaxedSchedStruct) (ext : AddrTracker ρ) :
    RelaxedTracker (AddrTracker ρ) :=
  RelaxedTracker.regenerateRelaxedSchedule { relaxed_schedule, ext }

end AddrTracker

end Thrille
