import Thrille.Serializer.Logger
import Mathlib.Logic.Function.Basic
import Mathlib.Tactic.Simps.Basic

namespace Thrille

-- A normal mutex.
inductive MutexState
  | free
  | held (owner : ThrID)
  | destroyed
  deriving DecidableEq, Repr

-- The return values of the calls.
def OPERATION_SUCCESSFUL : Int := 0
def EBUSY : Int := 16
def EINVAL : Int := 22
def ETIMEDOUT : Int := 110

structure BarrierTracker where
  bar_info : List (Addr × Nat) := []
  thread_map : PtrMap := ∅

namespace BarrierTracker

def initBarrier (self : BarrierTracker) (bar : Addr) (count : Nat) : BarrierTracker :=
  if self.bar_info.any fun info => info.1 == bar then
    { self with bar_info := self.bar_info.map fun info =>
        if info.1 == bar then (info.1, count) else info }
  else { self with bar_info := self.bar_info ++ [(bar, count)] }

def getBarrierCount (self : BarrierTracker) (bar : Addr) : Option Nat :=
  (self.bar_info.find? fun info => info.1 == bar).map Prod.snd

def threadWaitingOnBarrier (self : BarrierTracker) (myself : ThrID) (bar : Addr) :
    BarrierTracker :=
  { self with thread_map := self.thread_map.insert myself bar }

def getThreadsWaitingOnBarrier (self : BarrierTracker) (bar : Addr) : List ThrID :=
  self.thread_map.threadsAt bar

def getNumberThreadsWaitingOnBarrier (self : BarrierTracker) (bar : Addr) : Nat :=
  (self.getThreadsWaitingOnBarrier bar).length

def clearThreadsWaitingOnBarrier (self : BarrierTracker) (bar : Addr) : BarrierTracker :=
  { self with
    thread_map := (self.thread_map.threadsAt bar).foldl (fun m t => m.erase t) self.thread_map }

end BarrierTracker

-- `mutexes` and `semaphores` are the objects that the original calls act on, and `next_id` is the
-- id that the thread tracker hands out next. A missing entry of a pointer map is NULL, and one of
-- `join_map` is `UNJOINED`.
structure ExecutionTracker where
  enable_map : ThrMap Bool := ∅
  finish_map : ThrID → Bool := fun _ => false
  join_map : ThrID → Option ThrID := fun _ => none
  lock_ready_map : PtrMap := ∅
  lock_wait_map : PtrMap := ∅
  sem_ready_map : PtrMap := ∅
  sem_wait_map : PtrMap := ∅
  cond_map : PtrMap := ∅
  wait_ready_map : ThrID → Bool := fun _ => false
  was_signalled_map : ThrID → Bool := fun _ => false
  sem_map : ThrID → Option Nat := fun _ => none
  wait_sem_map : ThrID → Option Nat := fun _ => none
  bt : BarrierTracker := {}
  mutex_destroy : List Addr := []
  cond_destroy : List Addr := []
  sem_destroy : List Addr := []
  barrier_destroy : List Addr := []
  preemptions : Nat := 0
  nonpreemptions : Nat := 0
  contextswitch : Nat := 0
  mutexes : Addr → MutexState := fun _ => .free
  semaphores : Addr → Nat := fun _ => 0
  next_id : ThrID := 1

-- The conditions of the `safe_assert`s, and the other ways in which a run is ended.
inductive Stop
  | barrierHasNotBeenDestroyed
  | semHasNotBeenDestroyed
  | condHasNotBeenDestroyed
  | sizeIsBarrierCount
  | barrierCountNotFound
  | isDisabled
  | unjoined
  | threadNotFound
  | unlockSuccessful
  | proceedInWait
  | isWaitingOnCond
  | choiceIsValid
  | semaphoreIsPositive
  | semReady
  | pauseNotNull
  | isEnabled
  | isFairEnabled
  | notThrilleInternalError
  | programDeadlock
  | mainReturned
  deriving DecidableEq, Repr

def safe_assert (cond : Bool) (stop : Stop) : Except Stop Unit :=
  if cond then .ok () else .error stop

namespace ExecutionTracker

def enableThread (self : ExecutionTracker) (target : ThrID) : ExecutionTracker :=
  { self with enable_map := self.enable_map.insert target true }

def disableThread (self : ExecutionTracker) (target : ThrID) : ExecutionTracker :=
  { self with enable_map := self.enable_map.insert target false }

def isEnabled (self : ExecutionTracker) (target : ThrID) : Bool :=
  self.enable_map.getD target false

def threadIsFinished (self : ExecutionTracker) (target : ThrID) : Bool := self.finish_map target

def initializeThreadData (self : ExecutionTracker) (target : ThrID) : ExecutionTracker :=
  { self.enableThread target with
    sem_map := Function.update self.sem_map target (some 0)
    wait_sem_map := Function.update self.wait_sem_map target (some 0)
    finish_map := Function.update self.finish_map target false
    join_map := Function.update self.join_map target none
    lock_wait_map := self.lock_wait_map.erase target
    lock_ready_map := self.lock_ready_map.erase target
    sem_wait_map := self.sem_wait_map.erase target
    sem_ready_map := self.sem_ready_map.erase target
    cond_map := self.cond_map.erase target
    wait_ready_map := Function.update self.wait_ready_map target true
    was_signalled_map := Function.update self.was_signalled_map target true }

-- The constructor; the main thread is thread 0.
def new : ExecutionTracker := ({} : ExecutionTracker).initializeThreadData 0

def getNextTID (self : ExecutionTracker) : ThrID × ExecutionTracker :=
  (self.next_id, { self with next_id := self.next_id + 1 })

-- The loops that set one entry for every thread of a list.
def setAll {α : Type} (map : ThrMap α) (threads : List ThrID) (value : α) : ThrMap α :=
  threads.foldl (fun m t => m.insert t value) map

def eraseAll {α : Type} (map : ThrMap α) (threads : List ThrID) : ThrMap α :=
  threads.foldl (fun m t => m.erase t) map

-- The original calls on mutexes.

def mutexTrylock (self : ExecutionTracker) (myself : ThrID) (lock : Addr) :
    Int × ExecutionTracker :=
  match self.mutexes lock with
  | .free => (OPERATION_SUCCESSFUL,
      { self with mutexes := Function.update self.mutexes lock (.held myself) })
  | .held _ => (EBUSY, self)
  | .destroyed => (EINVAL, self)

def mutexUnlock (self : ExecutionTracker) (lock : Addr) : Int × ExecutionTracker :=
  match self.mutexes lock with
  | .destroyed => (EINVAL, self)
  | _ => (OPERATION_SUCCESSFUL,
      { self with mutexes := Function.update self.mutexes lock .free })

-- Mutexes.

def threadHasAcquiredLock (self : ExecutionTracker) (target : ThrID) (lock : Addr) :
    ExecutionTracker :=
  let ready := self.lock_ready_map.erase target
  let threads := PtrMap.threadsAt ready lock
  { self with
    enable_map := setAll self.enable_map threads false
    lock_wait_map := setAll self.lock_wait_map threads lock
    lock_ready_map := eraseAll ready threads }

def threadHasReleasedLock (self : ExecutionTracker) (lock : Addr) : ExecutionTracker :=
  let threads := self.lock_wait_map.threadsAt lock
  { self with
    enable_map := setAll self.enable_map threads true
    lock_ready_map := setAll self.lock_ready_map threads lock
    lock_wait_map := eraseAll self.lock_wait_map threads }

-- A trylock that succeeds is undone at once, so the mutex stays as it is.
def determineLockStatus (self : ExecutionTracker) (myself : ThrID) (lock : Addr) :
    ExecutionTracker :=
  match self.mutexes lock with
  | .held _ =>
      { self.disableThread myself with lock_wait_map := self.lock_wait_map.insert myself lock }
  | _ =>
      { self.enableThread myself with lock_ready_map := self.lock_ready_map.insert myself lock }

def simulateMutexLock (self : ExecutionTracker) (myself : ThrID) (lock : Addr) :
    Int × ExecutionTracker :=
  (self.threadHasAcquiredLock myself lock).mutexTrylock myself lock

def simulateMutexTrylock (self : ExecutionTracker) (myself : ThrID) (lock : Addr) :
    Int × ExecutionTracker :=
  let (result, tracker) := self.mutexTrylock myself lock
  if result = OPERATION_SUCCESSFUL then (result, tracker.threadHasAcquiredLock myself lock)
  else (result, tracker)

-- Semaphores, with the original calls first.

def semWait (self : ExecutionTracker) (sem : Addr) : ExecutionTracker :=
  { self with semaphores := Function.update self.semaphores sem (self.semaphores sem - 1) }

def semPost (self : ExecutionTracker) (sem : Addr) : ExecutionTracker :=
  { self with semaphores := Function.update self.semaphores sem (self.semaphores sem + 1) }

def determineSemaphoreStatus (self : ExecutionTracker) (myself : ThrID) (sem : Addr) :
    ExecutionTracker :=
  if 0 < self.semaphores sem then
    { self.enableThread myself with sem_ready_map := self.sem_ready_map.insert myself sem }
  else
    { self.disableThread myself with sem_wait_map := self.sem_wait_map.insert myself sem }

def semaphoreIsPosted (self : ExecutionTracker) (sem : Addr) : ExecutionTracker :=
  let threads := self.sem_wait_map.threadsAt sem
  { self with
    enable_map := setAll self.enable_map threads true
    sem_ready_map := setAll self.sem_ready_map threads sem
    sem_wait_map := eraseAll self.sem_wait_map threads }

-- The loop of `threadHasPassedSemaphore`.
def semaphoreIsDrained (self : ExecutionTracker) (sem : Addr) : ExecutionTracker :=
  let threads := self.sem_ready_map.threadsAt sem
  { self with
    enable_map := setAll self.enable_map threads false
    sem_wait_map := setAll self.sem_wait_map threads sem
    sem_ready_map := eraseAll self.sem_ready_map threads }

def clearSemReady (self : ExecutionTracker) (myself : ThrID) : ExecutionTracker :=
  { self with sem_ready_map := self.sem_ready_map.erase myself }

def threadHasPassedSemaphore (self : ExecutionTracker) (myself : ThrID) (sem : Addr) :
    Except Stop ExecutionTracker := do
  safe_assert (self.sem_ready_map[myself]? == some sem) .semReady
  let tracker := self.clearSemReady myself
  return if tracker.semaphores sem = 0 then tracker.semaphoreIsDrained sem else tracker

def simulateSemWait (self : ExecutionTracker) (myself : ThrID) (sem : Addr) :
    Except Stop ExecutionTracker := do
  safe_assert (decide (0 < self.semaphores sem)) .semaphoreIsPositive
  safe_assert (!self.sem_destroy.contains sem) .semHasNotBeenDestroyed
  (self.semWait sem).threadHasPassedSemaphore myself sem

-- Barriers.

-- The last call of a generation lets all of its threads go.
def openBarrier (self : ExecutionTracker) (myself : ThrID) (barrier : Addr) :
    ExecutionTracker :=
  { self with
    enable_map := (setAll self.enable_map (self.bt.getThreadsWaitingOnBarrier barrier)
      true).insert myself true
    bt := self.bt.clearThreadsWaitingOnBarrier barrier }

def waitOnBarrier (self : ExecutionTracker) (myself : ThrID) (barrier : Addr) :
    ExecutionTracker :=
  { self with
    enable_map := self.enable_map.insert myself false
    bt := self.bt.threadWaitingOnBarrier myself barrier }

def beforeBarrierWait (self : ExecutionTracker) (myself : ThrID) (barrier : Addr) :
    Except Stop ExecutionTracker := do
  safe_assert (!self.barrier_destroy.contains barrier) .barrierHasNotBeenDestroyed
  match self.bt.getBarrierCount barrier with
  | none => .error .barrierCountNotFound
  | some target_count =>
      let my_thr := self.bt.getThreadsWaitingOnBarrier barrier
      if target_count ≤ self.bt.getNumberThreadsWaitingOnBarrier barrier + 1 then do
        safe_assert (my_thr.length + 1 == target_count) .sizeIsBarrierCount
        safe_assert (my_thr.all fun t => !self.isEnabled t) .isDisabled
        return self.openBarrier myself barrier
      else return self.waitOnBarrier myself barrier

-- Joining and finishing.

def setJoiner (self : ExecutionTracker) (target joiner : ThrID) : ExecutionTracker :=
  { self with join_map := Function.update self.join_map target (some joiner) }

def registerThreadJoin (self : ExecutionTracker) (target joiner : ThrID) :
    Except Stop ExecutionTracker := do
  safe_assert (self.join_map target).isNone .unjoined
  return self.setJoiner target joiner

-- A handle that belongs to no thread ends the run in `translateHandleToTID`.
def beforeJoin (self : ExecutionTracker) (myself target : ThrID) :
    Except Stop ExecutionTracker := do
  safe_assert (self.sem_map target).isSome .threadNotFound
  if self.threadIsFinished target then return self.enableThread myself
  else (self.disableThread myself).registerThreadJoin target myself

def enableJoiningThread (self : ExecutionTracker) (myself : ThrID) : ExecutionTracker :=
  match self.join_map myself with
  | some joiner => self.enableThread joiner
  | none => self

def setFinished (self : ExecutionTracker) (myself : ThrID) : ExecutionTracker :=
  { self with finish_map := Function.update self.finish_map myself true }

def finalizeThread (self : ExecutionTracker) (myself : ThrID) : ExecutionTracker :=
  ((self.disableThread myself).setFinished myself).enableJoiningThread myself

-- Waking a thread.

@[simps sem_map wait_sem_map wait_ready_map was_signalled_map cond_map next_id]
def setSem (self : ExecutionTracker) (target : ThrID) (n : Nat) : ExecutionTracker :=
  { self with sem_map := Function.update self.sem_map target (some n) }

@[simps sem_map wait_sem_map wait_ready_map was_signalled_map cond_map next_id]
def setWaitSem (self : ExecutionTracker) (target : ThrID) (n : Nat) : ExecutionTracker :=
  { self with wait_sem_map := Function.update self.wait_sem_map target (some n) }

@[simps sem_map wait_sem_map wait_ready_map was_signalled_map cond_map next_id]
def setSignalled (self : ExecutionTracker) (target : ThrID) (value : Bool) : ExecutionTracker :=
  { self with was_signalled_map := Function.update self.was_signalled_map target value }

def wakeThread (self : ExecutionTracker) (target : ThrID) : Except Stop ExecutionTracker :=
  match self.sem_map target with
  | some n => .ok (self.setSem target (n + 1))
  | none => .error .pauseNotNull

def waitWakeThread (self : ExecutionTracker) (target : ThrID) : Except Stop ExecutionTracker :=
  match self.wait_sem_map target with
  | some n => .ok (self.setWaitSem target (n + 1))
  | none => .error .pauseNotNull

-- The end of `launchThread`.
def launch (self : ExecutionTracker) (target : ThrID) : Except Stop ExecutionTracker :=
  if target ∈ self.cond_map then (self.setSignalled target false).waitWakeThread target
  else self.wakeThread target

def recordScheduleInfo (self : ExecutionTracker) (myself scheduled : ThrID) : ExecutionTracker :=
  if scheduled = myself then self
  else if self.isEnabled myself then
    { self with contextswitch := self.contextswitch + 1, preemptions := self.preemptions + 1 }
  else
    { self with
      contextswitch := self.contextswitch + 1, nonpreemptions := self.nonpreemptions + 1 }

-- Signals.

def isSignalMissed (s : SignalPointInfo) : Bool := (s.cond_map.threadsAt s.cond).isEmpty

def selectThreadWaitingOnCond (s : SignalPointInfo) : Option ThrID :=
  (s.cond_map.threadsAt s.cond).head?

end ExecutionTracker

end Thrille
