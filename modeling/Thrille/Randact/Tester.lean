import Thrille.Relaxed.Choices
import Thrille.Serializer.Transition

namespace Thrille

-- The failed assertions of the testers. `turns` stands for a loop that is not over after as many
-- turns as it was given.
inductive ActiveFailure
  | infoIsKnown
  | threadsDiffer
  | isPaused
  | choiceIsFound
  | isEnabled
  | isNotPaused
  | turns
  deriving DecidableEq, Repr

abbrev Active := Except ActiveFailure

def active_assert (cond : Bool) (failure : ActiveFailure) : Active Unit :=
  if cond then .ok () else .error failure

-- `me` is -1 (`none`) in what the default constructor makes.
structure ActiveRaceInfo where
  me : Option ThrID := none
  addr : Addr := 0
  iswrite : Bool := false
  deriving DecidableEq, Repr

def ActiveRaceInfo.racesWith (self other : ActiveRaceInfo) : Active Bool := do
  active_assert (self.me != other.me) .threadsDiffer
  return if self.addr ≠ other.addr then false else self.iswrite || other.iswrite

-- What `RandomActiveTester` keeps besides the tracker. `access` has the address that each thread
-- hands to its memory access, and `failed` the assertion that has ended the run.
structure RandomActiveTester (ρ : Type) where
  target1 : Addr
  target2 : Addr
  active_testing_paused : ThrMap Bool := ∅
  active_testing_info : ThrMap ActiveRaceInfo := ∅
  raceFound : Bool := false
  myrand : ρ
  access : ThrID → Addr := fun _ => 0
  failed : Option ActiveFailure := none

def chanceOfPreempt : Int := 1

-- The tracker with the tester, which the functions of the tester change.
abbrev Tested (ρ : Type) := ExecutionTracker × RandomActiveTester ρ

-- `reenableThreadIfLegal`, which the two testers override.
abbrev Reenable (ρ : Type) := RandomActiveTester ρ → ExecutionTracker → ThrID →
  Active (Bool × Tested ρ)

-- The virtual functions that make the difference between the two testers.
structure ActiveVirtual (ρ : Type) where
  reenableThreadIfLegal : Reenable ρ
  handleBeforeMutexLock : RandomActiveTester ρ → ExecutionTracker → ThrID → Addr → Addr →
    Active (Tested ρ)
  handleAfterMutexUnlock : RandomActiveTester ρ → ExecutionTracker → Active (Tested ρ)
  handleMyMemoryRead : RandomActiveTester ρ → ExecutionTracker → ThrID → Addr → Addr →
    Active (Tested ρ)
  handleMyMemoryWrite : RandomActiveTester ρ → ExecutionTracker → ThrID → Addr → Addr →
    Active (Tested ρ)

namespace RandomActiveTester

variable {ρ : Type}

def isPaused (self : RandomActiveTester ρ) (thr : ThrID) : Bool :=
  self.active_testing_paused.getD thr false

def infoOf (self : RandomActiveTester ρ) (thr : ThrID) : ActiveRaceInfo :=
  self.active_testing_info.getD thr {}

def setPaused (self : RandomActiveTester ρ) (thr : ThrID) (value : Bool) : RandomActiveTester ρ :=
  { self with active_testing_paused := self.active_testing_paused.insert thr value }

def setInfo (self : RandomActiveTester ρ) (thr : ThrID) (info : ActiveRaceInfo) :
    RandomActiveTester ρ :=
  { self with active_testing_info := self.active_testing_info.insert thr info }

-- The threads with `active_testing_paused` set, in the order of the map.
def postponed (self : RandomActiveTester ρ) : List ThrID :=
  (self.active_testing_paused.toList.filter fun entry => entry.2).map Prod.fst

-- The loop of `isRacing` over the postponed threads.
def racersAmong (self : RandomActiveTester ρ) (potentialRace : ActiveRaceInfo) :
    List ThrID → Active (List ThrID)
  | [] => .ok []
  | thread :: threads => do
      active_assert (self.infoOf thread).me.isSome .infoIsKnown
      let isRace ← (self.infoOf thread).racesWith potentialRace
      let allracers ← racersAmong self potentialRace threads
      return if isRace then thread :: allracers else allracers

def isRacing (self : RandomActiveTester ρ) (potentialRace : ActiveRaceInfo) :
    Active (List ThrID) :=
  self.racersAmong potentialRace self.postponed

section Reenable

variable (reenableThreadIfLegal : Reenable ρ)

def enableSpecificActiveTestingPaused (self : RandomActiveTester ρ) (tracker : ExecutionTracker) :
    List ThrID → Active (Tested ρ)
  | [] => .ok (tracker, self)
  | target :: targets => do
      active_assert (self.isPaused target) .isPaused
      let (_, tracker, self) ← reenableThreadIfLegal self tracker target
      enableSpecificActiveTestingPaused self tracker targets

-- What the handlers of a lock and of a memory access have in common.
def handleAccess (self : RandomActiveTester ρ) (tracker : ExecutionTracker)
    (myself : ThrID) (ret_addr addr : Addr) (iswrite : Bool) : Active (Tested ρ) :=
  if ret_addr = self.target1 ∨ ret_addr = self.target2 then do
    let tmp : ActiveRaceInfo := { me := some myself, addr, iswrite }
    let racers ← self.isRacing tmp
    if 0 < racers.length then
      enableSpecificActiveTestingPaused reenableThreadIfLegal { self with raceFound := true }
        tracker racers
    else return (tracker.disableThread myself, (self.setPaused myself true).setInfo myself tmp)
  else .ok (tracker, self)

variable (randInt : ρ → Nat × ρ)

def getRandomNumber (self : RandomActiveTester ρ) : Int × RandomActiveTester ρ :=
  (AddrTracker.getRandomNumber (randInt self.myrand).1,
    { self with myrand := (randInt self.myrand).2 })

-- `RandomTracker` has the two functions for random threads that `AddrTracker` has.
def chooseRandomThread (self : RandomActiveTester ρ) (threads : ThrMap Bool) :
    Active (Option ThrID × RandomActiveTester ρ) :=
  match AddrTracker.chooseRandomThread randInt self.myrand threads with
  | none => .error .choiceIsFound
  | some (thread, myrand) =>
      .ok (if thread = INVALID_THREAD then none else some thread.toNat, { self with myrand })

def selectThreadWaitingOnCond (self : RandomActiveTester ρ) (s : SignalPointInfo) :
    Option ThrID × RandomActiveTester ρ :=
  match AddrTracker.selectThreadWaitingOnCond randInt self.myrand s with
  | none => (none, { self with failed := some .choiceIsFound })
  | some (thread, myrand) =>
      (if thread = INVALID_THREAD then none else some thread.toNat, { self with myrand })

def livelockPrevention (self : RandomActiveTester ρ) (tracker : ExecutionTracker) : Active (Tested ρ) :=
  let (number, self) := self.getRandomNumber randInt
  if number.tmod 200 = 1 then do
    let (livelockprevent, self) ← self.chooseRandomThread randInt self.active_testing_paused
    match livelockprevent with
    | none => return (tracker, self)
    | some livelockprevent =>
        let (_, tracker, self) ← reenableThreadIfLegal self tracker livelockprevent
        return (tracker, self)
  else .ok (tracker, self)

-- A preemption is preferred: the caller is disabled, but only while the choice is made.
def preferPreemption (self : RandomActiveTester ρ) (tracker : ExecutionTracker) (thread : ThrID) :
    Active (Option ThrID × RandomActiveTester ρ) :=
  if tracker.isEnabled thread then do
    let (mychoice, self) ←
      self.chooseRandomThread randInt (tracker.disableThread thread).enable_map
    match mychoice with
    | none => return (some thread, self)
    | some mychoice =>
        let (number, self) := self.getRandomNumber randInt
        return (if number.tmod 6 = 0 then some thread else some mychoice, self)
  else self.chooseRandomThread randInt tracker.enable_map

-- The loop that enables postponed threads until one of them can go on.
def enablePostponed : Nat → RandomActiveTester ρ → ExecutionTracker → Active (Option ThrID × Tested ρ)
  | 0, _, _ => .error .turns
  | turns + 1, self, tracker => do
      let (mychoice, self) ← self.chooseRandomThread randInt self.active_testing_paused
      match mychoice with
      | none => return (none, tracker, self)
      | some mychoice =>
          let (success, tracker, self) ← reenableThreadIfLegal self tracker mychoice
          if success then return (some mychoice, tracker, self)
          else enablePostponed turns self tracker

-- The two assertions at the end of `pickNextSchedulingChoice`.
def checkChoice (self : RandomActiveTester ρ) (tracker : ExecutionTracker) (mychoice : ThrID) :
    Active (Option ThrID × Tested ρ) := do
  active_assert (tracker.isEnabled mychoice) .isEnabled
  active_assert (!self.isPaused mychoice) .isNotPaused
  return (some mychoice, tracker, self)

def pickNextSchedulingChoice (turns : Nat) (self : RandomActiveTester ρ)
    (tracker : ExecutionTracker) (s : SchedPointInfo) : Active (Option ThrID × Tested ρ) := do
  let (tracker, self) ← self.livelockPrevention reenableThreadIfLegal randInt tracker
  let (preempt, self) :=
    if tracker.isEnabled s.thread then
      ((self.getRandomNumber randInt).1.tmod chanceOfPreempt, (self.getRandomNumber randInt).2)
    else (0, self)
  if preempt = 1 then
    active_assert (tracker.isEnabled s.thread) .isEnabled
    return (some s.thread, tracker, self)
  else
    let (mychoice, self) ← self.preferPreemption randInt tracker s.thread
    match mychoice with
    | some mychoice => self.checkChoice tracker mychoice
    | none =>
        let (mychoice, tracker, self) ←
          enablePostponed reenableThreadIfLegal randInt turns self tracker
        match mychoice with
        | none => return (none, tracker, self)
        | some mychoice => self.checkChoice tracker mychoice

end Reenable

end RandomActiveTester

namespace RandomLockTester

variable {ρ : Type}

-- The original trylock fails with something else than `EBUSY`.
def lockIsInvalid (tracker : ExecutionTracker) (lock : Addr) : Bool :=
  tracker.mutexes lock == .destroyed

def reenableThreadIfLegal : Reenable ρ := fun self tracker thr => do
  active_assert (self.isPaused thr) .isPaused
  let tracker :=
    if lockIsInvalid tracker (self.infoOf thr).addr then tracker.enableThread thr
    else tracker.determineLockStatus thr (self.infoOf thr).addr
  return (tracker.isEnabled thr, tracker, self.setPaused thr false)

-- The release may have enabled postponed threads.
def handleAfterMutexUnlock (self : RandomActiveTester ρ) (tracker : ExecutionTracker) : Active (Tested ρ) :=
  .ok ({ tracker with
    enable_map := ExecutionTracker.setAll tracker.enable_map self.postponed false }, self)

def handleBeforeMutexLock (self : RandomActiveTester ρ) (tracker : ExecutionTracker)
    (myself : ThrID) (ret_addr lock : Addr) : Active (Tested ρ) :=
  self.handleAccess reenableThreadIfLegal tracker myself ret_addr lock true

def virtual : ActiveVirtual ρ where
  reenableThreadIfLegal := reenableThreadIfLegal
  handleBeforeMutexLock := handleBeforeMutexLock
  handleAfterMutexUnlock := handleAfterMutexUnlock
  handleMyMemoryRead self tracker _ _ _ := .ok (tracker, self)
  handleMyMemoryWrite self tracker _ _ _ := .ok (tracker, self)

end RandomLockTester

namespace RandomDataTester

variable {ρ : Type}

def reenableThreadIfLegal : Reenable ρ := fun self tracker thr => do
  active_assert (self.isPaused thr) .isPaused
  return (true, tracker.enableThread thr, self.setPaused thr false)

def handleMyMemoryRead (self : RandomActiveTester ρ) (tracker : ExecutionTracker)
    (myself : ThrID) (iid addr : Addr) : Active (Tested ρ) :=
  self.handleAccess reenableThreadIfLegal tracker myself iid addr false

def handleMyMemoryWrite (self : RandomActiveTester ρ) (tracker : ExecutionTracker)
    (myself : ThrID) (iid addr : Addr) : Active (Tested ρ) :=
  self.handleAccess reenableThreadIfLegal tracker myself iid addr true

def virtual : ActiveVirtual ρ where
  reenableThreadIfLegal := reenableThreadIfLegal
  handleBeforeMutexLock self tracker _ _ _ := .ok (tracker, self)
  handleAfterMutexUnlock self tracker := .ok (tracker, self)
  handleMyMemoryRead := handleMyMemoryRead
  handleMyMemoryWrite := handleMyMemoryWrite

end RandomDataTester

-- `getNewExecutionTracker` of the handler.
def RandactHandler.getNewExecutionTracker {ρ : Type} (isLockRace : Bool) : ActiveVirtual ρ :=
  if isLockRace then RandomLockTester.virtual else RandomDataTester.virtual

namespace RandomActiveTester

variable {ρ : Type} (v : ActiveVirtual ρ) (randInt : ρ → Nat × ρ)

-- The handler that a section of thread `myself` calls, at its end but for the schedule point.
def handle (self : RandomActiveTester ρ) (tracker : ExecutionTracker) (myself : ThrID) :
    Pc → Active (Tested ρ)
  | .enter ret_addr (.mutexLock lock) =>
      if tracker.threadIsFinished myself then .ok (tracker, self)
      else v.handleBeforeMutexLock self tracker myself ret_addr lock
  | .enter ret_addr (.mutexTrylock lock) =>
      v.handleBeforeMutexLock self tracker myself ret_addr lock
  | .relock w => v.handleBeforeMutexLock self tracker myself w.ret_addr w.lock
  | .afterUnlock .. =>
      if tracker.threadIsFinished myself then .ok (tracker, self)
      else v.handleAfterMutexUnlock self tracker
  | .simulateWait _ =>
      if tracker.threadIsFinished myself then .ok (tracker, self)
      else v.handleAfterMutexUnlock self tracker
  | .enter ret_addr (.point .memoryRead) =>
      v.handleMyMemoryRead self tracker myself ret_addr (self.access myself)
  | .enter ret_addr (.point .memoryWrite) =>
      v.handleMyMemoryWrite self tracker myself ret_addr (self.access myself)
  | _ => .ok (tracker, self)

-- The base class with a choice that has been made.
def virtual (nextchoice : Option ThrID) : Virtual (RandomActiveTester ρ) where
  followingChoiceFromLog self s := (s.fenmap, self)
  pickNextSchedulingChoice self s := (nextchoice, s.fenmap, self)
  selectThreadWaitingOnCond := selectThreadWaitingOnCond randInt
  logged s := s.enabled
  admits _ _ := true

-- The start of `schedule`: nothing is picked where the log has the choice.
def choose (turns : Nat) (self : System (RandomActiveTester ρ)) (s : SchedPointInfo) :
    Active (Option ThrID × Tested ρ) :=
  match self.log.getNextScheduleChoice with
  | (some _, _) => .ok (none, self.tracker, self.scheduler)
  | (none, _) => pickNextSchedulingChoice v.reenableThreadIfLegal randInt turns self.scheduler
      self.tracker s

def fail (self : System (RandomActiveTester ρ)) (failure : ActiveFailure) :
    System (RandomActiveTester ρ) :=
  { self with scheduler := { self.scheduler with failed := some failure } }

-- A broadcast asks for every thread that it wakes.
def perform (turns : Nat) (self : System (RandomActiveTester ρ)) (thr : ThrID) (pc : Pc) :
    Effect → System (RandomActiveTester ρ)
  | .goto (.handoff s _) =>
      match selectThreadWaitingOnCond randInt self.scheduler s with
      | (some newchoice, scheduler) => { self with scheduler }.goto thr (.handoff s newchoice)
      | (none, _) => self.stop .choiceIsValid
  | .schedule s r =>
      let s := { s with enabled := self.tracker.enable_map }
      match choose v randInt turns self s with
      | .error failure => fail self failure
      | .ok (nextchoice, tracker, scheduler) =>
          { self with tracker, scheduler }.perform (virtual randInt nextchoice) thr pc
            (.schedule s r)
  | effect => System.perform (virtual randInt none) self thr pc effect

def runThread (turns : Nat) (self : System (RandomActiveTester ρ)) (thr : ThrID) (pc : Pc) :
    System (RandomActiveTester ρ) :=
  match self.tracker.runSection thr pc with
  | .error reason => self.stop reason
  | .ok (tracker, effect) =>
      match handle v self.scheduler tracker thr pc with
      | .error failure => fail self failure
      | .ok (tracker, scheduler) =>
          perform v randInt turns
            { self with tracker, scheduler, barriers := self.barriers.observe thr pc } thr pc effect

-- One step of thread `thr`. `addr` is what a thread in the program hands to a memory access.
def step (turns : Nat) (self : System (RandomActiveTester ρ)) (thr : ThrID) (ret_addr : Addr)
    (op : Op) (addr : Addr) : Option (System (RandomActiveTester ρ)) :=
  if self.stopped.isSome || self.scheduler.failed.isSome then none
  else if (self.pcs thr).isSection then
    if ((self.pcs thr).unlocked || self.global_lock.isNone) && self.ready (self.pcs thr) then
      some (runThread v randInt turns self thr (self.pcs thr))
    else none
  else
    ({ self with scheduler := { self.scheduler with
        access := Function.update self.scheduler.access thr addr } }).step
      (virtual randInt none) thr ret_addr op

def run (turns : Nat) (self : System (RandomActiveTester ρ))
    (steps : List (ThrID × Addr × Op × Addr)) : Option (System (RandomActiveTester ρ)) :=
  steps.foldlM (fun s (thr, ret_addr, op, addr) => step v randInt turns s thr ret_addr op addr) self

def Step (asks : System (RandomActiveTester ρ) → ThrID → Addr → Op → Prop)
    (s s' : System (RandomActiveTester ρ)) : Prop :=
  ∃ turns thr ret_addr op addr, asks s thr ret_addr op ∧
    step v randInt turns s thr ret_addr op addr = some s'

-- Where a run of a program can come to, with any two targets and any random numbers.
def Reachable (asks : System (RandomActiveTester ρ) → ThrID → Addr → Op → Prop)
    (s : System (RandomActiveTester ρ)) : Prop :=
  ∃ target1 target2 myrand read_schedule, Relation.ReflTransGen (Step v randInt asks)
    (System.initial { target1, target2, myrand } read_schedule) s

end RandomActiveTester

end Thrille
