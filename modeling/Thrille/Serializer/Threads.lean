import Thrille.Serializer.ExecutionTracker

namespace Thrille

-- The operations whose only effect on the tracker is a schedule point.
inductive Point
  | memoryRead
  | memoryWrite
  | sleep
  | usleep
  | schedPoint
  | checkpoint
  deriving DecidableEq, Repr

def Point.type : Point → String
  | memoryRead => "Memory Read"
  | memoryWrite => "Memory Write"
  | sleep => "Simulate Sleep"
  | usleep => "Simulate Usleep"
  | schedPoint => "Before Generic Schedule Point"
  | checkpoint => "Thrille Checkpoint"

def Point.isYield : Point → Bool
  | sleep => true
  | usleep => true
  | _ => false

-- What a thread of the program asks for next. `ret_val` is the result of the original
-- `pthread_create`.
inductive Op
  | mutexLock (lock : Addr)
  | mutexTrylock (lock : Addr)
  | mutexUnlock (lock : Addr)
  | mutexInit (lock : Addr)
  | mutexDestroy (lock : Addr)
  | condWait (cond lock : Addr)
  | condTimedwait (cond lock : Addr)
  | condSignal (cond : Addr)
  | condBroadcast (cond : Addr)
  | condInit (cond : Addr)
  | condDestroy (cond : Addr)
  | semWait (sem : Addr)
  | semPost (sem : Addr)
  | semInit (sem : Addr) (value : Nat)
  | semDestroy (sem : Addr)
  | barrierWait (barrier : Addr)
  | barrierInit (barrier : Addr) (count : Nat)
  | barrierDestroy (barrier : Addr)
  | create (ret_val : Int)
  | join (target : ThrID)
  | exit
  | threadReturn
  | point (p : Point)
  deriving DecidableEq, Repr

structure Wait where
  cond : Addr
  lock : Addr
  timed : Bool
  ret_addr : Addr
  deriving DecidableEq, Repr

-- What a thread does when it comes out of `pauseThread`.
inductive Pending
  | start
  | simple (ret_val : Int)
  | lock (lock : Addr)
  | relock (w : Wait) (timedOut : Bool)
  | trylock (lock : Addr)
  | semWait (sem : Addr)
  | join (target : ThrID)
  | barrier (barrier : Addr)
  deriving DecidableEq, Repr

-- Where a thread stays once it has scheduled: on its own semaphore of `sem_map`, on that of
-- `wait_sem_map`, or for good.
inductive Rest
  | pause (k : Pending)
  | wait (w : Wait)
  | exit
  deriving DecidableEq, Repr

-- The next step of a thread. A `launched` thread is at the `gunlock` after its `schedule`, a
-- `leaving` one at the lines of `pauseThread` or `waitPauseThread` before the `sem_wait`, where
-- a `blocked` one is.
inductive Pc
  | unborn
  | created
  | threadStart
  | launched (r : Rest)
  | leaving (r : Rest)
  | blocked (r : Rest)
  | program (ret_val : Int)
  | enter (ret_addr : Addr) (op : Op)
  | originalLock (lock : Addr)
  | afterUnlock (ret_addr lock : Addr) (ret_val : Int)
  | simulateWait (w : Wait)
  | woken (w : Wait)
  | relock (w : Wait)
  | signalReady (w : Wait)
  | checkTimeout (w : Wait)
  | simulateSignal (ret_addr cond : Addr) (isBroadcast : Bool)
  | handoff (s : SignalPointInfo) (target : ThrID)
  | waitReady (s : SignalPointInfo) (target : ThrID)
  | signalDone (ret_addr : Addr) (isBroadcast : Bool)
  | beforeCreate (ret_addr : Addr) (child : ThrID) (ret_val : Int)
  | spawn (ret_addr : Addr) (child : ThrID) (ret_val : Int)
  | afterCreate (ret_addr : Addr) (ret_val : Int)
  | resume (k : Pending)

def Pc.inProgram : Pc → Bool
  | program _ => true
  | _ => false

theorem Pc.program_of_inProgram {pc : Pc} (h : pc.inProgram = true) :
    ∃ ret_val, pc = .program ret_val := by
  cases pc with
  | program ret_val => exact ⟨ret_val, rfl⟩
  | _ => cases h

-- The steps that do not take the global lock.
def Pc.unlocked : Pc → Bool
  | enter _ (.mutexUnlock _) => true
  | enter _ (.mutexInit _) => true
  | enter _ (.condInit _) => true
  | enter _ (.semInit _ _) => true
  | enter _ (.create _) => true
  | originalLock _ => true
  | relock _ => true
  | simulateSignal .. => true
  | resume .start => true
  | resume (.simple _) => true
  | resume (.barrier _) => true
  | _ => false

-- How a section ends.
inductive Effect
  | goto (pc : Pc)
  | created (child : ThrID) (pc : Pc)
  | signalChoice (s : SignalPointInfo)
  | signalled (s : SignalPointInfo) (target : ThrID)
  | schedule (s : SchedPointInfo) (r : Rest)

abbrev Section := Except Stop (ExecutionTracker × Effect)

namespace ExecutionTracker

def goto (self : ExecutionTracker) (pc : Pc) : Section := .ok (self, .goto pc)

def schedPoint (self : ExecutionTracker) (ret_addr : Addr) (type : String) (myself : ThrID)
    (isYield : Bool) (r : Rest) : Section :=
  .ok (self, .schedule { ret_addr, type, thread := myself, enabled := self.enable_map, isYield } r)

def beforeMutexLock (self : ExecutionTracker) (myself : ThrID) (ret_addr lock : Addr) :
    Section :=
  if self.threadIsFinished myself then self.goto (.originalLock lock)
  else (self.determineLockStatus myself lock).schedPoint ret_addr "Before Mutex Lock" myself false
    (.pause (.lock lock))

def beforeMutexTrylock (self : ExecutionTracker) (myself : ThrID) (ret_addr lock : Addr) :
    Section :=
  (self.enableThread myself).schedPoint ret_addr "Before Mutex Try Lock" myself false
    (.pause (.trylock lock))

def afterMutexUnlock (self : ExecutionTracker) (myself : ThrID) (ret_addr lock : Addr)
    (ret_val : Int) : Section :=
  if self.threadIsFinished myself then self.goto (.program ret_val)
  else (self.threadHasReleasedLock lock).schedPoint ret_addr "After Mutex Unlock" myself false
    (.pause (.simple ret_val))

def setCond (self : ExecutionTracker) (myself : ThrID) (cond : Addr) : ExecutionTracker :=
  { self with cond_map := self.cond_map.insert myself cond }

def clearCond (self : ExecutionTracker) (myself : ThrID) : ExecutionTracker :=
  { self with cond_map := self.cond_map.erase myself }

def simulateCondWait (self : ExecutionTracker) (myself : ThrID) (w : Wait) : Section := do
  safe_assert (!self.cond_destroy.contains w.cond) .condHasNotBeenDestroyed
  let (result, tracker) := self.mutexUnlock w.lock
  safe_assert (result == OPERATION_SUCCESSFUL) .unlockSuccessful
  let tracker := if tracker.threadIsFinished myself then tracker
    else tracker.threadHasReleasedLock w.lock
  let tracker := tracker.setCond myself w.cond
  if w.timed then
    tracker.schedPoint w.ret_addr "Simulate Timed Wait (s)" myself true (.wait w)
  else
    tracker.schedPoint w.ret_addr "Simulate Cond Wait" myself false (.wait w)

-- `BeforeMutexLock` in a wait, which runs without the global lock.
def beforeMutexLockInWait (self : ExecutionTracker) (myself : ThrID) (w : Wait) : Section := do
  safe_assert (!self.threadIsFinished myself) .proceedInWait
  (self.determineLockStatus myself w.lock).goto (.signalReady w)

@[simps sem_map wait_sem_map wait_ready_map was_signalled_map cond_map next_id]
def setWaitReady (self : ExecutionTracker) (thr : ThrID) (value : Bool) : ExecutionTracker :=
  { self with wait_ready_map := Function.update self.wait_ready_map thr value }

def signalThreadReady (self : ExecutionTracker) (myself : ThrID) : ExecutionTracker :=
  self.setWaitReady myself true

-- A signalled thread goes on to `pauseThread`, one that was launched schedules once more.
def checkTimeout (self : ExecutionTracker) (myself : ThrID) (w : Wait) : Section :=
  if self.was_signalled_map myself then self.goto (.leaving (.pause (.relock w false)))
  else self.schedPoint w.ret_addr "Simulate Timed Wait (e)" myself false
    (.pause (.relock w true))

-- After its last schedule point a timed wait counts as signalled again.
def afterSchedule (self : ExecutionTracker) (myself : ThrID) : Pc → ExecutionTracker
  | .checkTimeout _ => self.setSignalled myself true
  | _ => self

def beforeCond (self : ExecutionTracker) (ret_addr cond : Addr) (isBroadcast : Bool) :
    Section := do
  safe_assert (!self.cond_destroy.contains cond) .condHasNotBeenDestroyed
  self.goto (.simulateSignal ret_addr cond isBroadcast)

def wakeThreadWaitingOnCond (self : ExecutionTracker) (s : SignalPointInfo) : Section :=
  if isSignalMissed s then self.goto (.signalDone s.ret_addr s.isBroadcast)
  else if s.isBroadcast then
    match selectThreadWaitingOnCond s with
    | some newchoice => self.goto (.handoff s newchoice)
    | none => .error .choiceIsValid
  else .ok (self, .signalChoice s)

def scheduleThreadWaitingOnCond (self : ExecutionTracker) (s : SignalPointInfo)
    (target : ThrID) : Section := do
  safe_assert (s.cond_map[target]? == some s.cond) .isWaitingOnCond
  return (self.setWaitReady target false, .signalled s target)

-- The end of `waitThreadReady`: a broadcast looks for the next thread.
def waitThreadReady (self : ExecutionTracker) (s : SignalPointInfo) : Section :=
  if s.isBroadcast then
    let s := { s with cond_map := self.cond_map }
    match selectThreadWaitingOnCond s with
    | some newchoice => self.goto (.handoff s newchoice)
    | none => self.goto (.signalDone s.ret_addr s.isBroadcast)
  else self.goto (.signalDone s.ret_addr s.isBroadcast)

def simulateCondSignal (self : ExecutionTracker) (myself : ThrID) (ret_addr : Addr)
    (isBroadcast : Bool) : Section :=
  (self.enableThread myself).schedPoint ret_addr
    (if isBroadcast then "Simulate Broadcast" else "Simulate Signal") myself false
    (.pause (.simple OPERATION_SUCCESSFUL))

def beforeSemWait (self : ExecutionTracker) (myself : ThrID) (ret_addr sem : Addr) :
    Section := do
  safe_assert (!self.sem_destroy.contains sem) .semHasNotBeenDestroyed
  (self.determineSemaphoreStatus myself sem).schedPoint ret_addr "Before Sem Wait" myself false
    (.pause (.semWait sem))

def simulateSemPost (self : ExecutionTracker) (myself : ThrID) (ret_addr sem : Addr) :
    Section := do
  safe_assert (!self.sem_destroy.contains sem) .semHasNotBeenDestroyed
  ((self.semPost sem).semaphoreIsPosted sem).schedPoint ret_addr "Simulate Sem Post" myself false
    (.pause (.simple OPERATION_SUCCESSFUL))

def thrillePoint (self : ExecutionTracker) (myself : ThrID) (ret_addr : Addr) (p : Point) :
    Section := do
  safe_assert (p != .schedPoint || self.isEnabled myself) .isEnabled
  self.schedPoint ret_addr p.type myself p.isYield (.pause (.simple OPERATION_SUCCESSFUL))

-- The first section of each operation.
def enter (self : ExecutionTracker) (myself : ThrID) (ret_addr : Addr) : Op → Section
  | .mutexLock lock => self.beforeMutexLock myself ret_addr lock
  | .mutexTrylock lock => self.beforeMutexTrylock myself ret_addr lock
  | .mutexUnlock lock =>
      let (ret_val, tracker) := self.mutexUnlock lock
      tracker.goto (.afterUnlock ret_addr lock ret_val)
  | .mutexInit lock =>
      { self with
        mutex_destroy := self.mutex_destroy.filter (· != lock)
        mutexes := Function.update self.mutexes lock .free }.goto (.program OPERATION_SUCCESSFUL)
  | .mutexDestroy lock =>
      match self.mutexes lock with
      | .held _ => { self with mutex_destroy := self.mutex_destroy ++ [lock] }.goto (.program EBUSY)
      | _ => { self with
          mutex_destroy := self.mutex_destroy ++ [lock]
          mutexes := Function.update self.mutexes lock .destroyed }.goto
            (.program OPERATION_SUCCESSFUL)
  | .condWait cond lock =>
      (self.disableThread myself).goto (.simulateWait { cond, lock, timed := false, ret_addr })
  | .condTimedwait cond lock =>
      (self.enableThread myself).goto (.simulateWait { cond, lock, timed := true, ret_addr })
  | .condSignal cond => self.beforeCond ret_addr cond false
  | .condBroadcast cond => self.beforeCond ret_addr cond true
  | .condInit cond => { self with cond_destroy := self.cond_destroy.filter (· != cond) }.goto
      (.program OPERATION_SUCCESSFUL)
  | .condDestroy cond => { self with cond_destroy := self.cond_destroy ++ [cond] }.goto
      (.program OPERATION_SUCCESSFUL)
  | .semWait sem => self.beforeSemWait myself ret_addr sem
  | .semPost sem => self.simulateSemPost myself ret_addr sem
  | .semInit sem value =>
      { self with
        sem_destroy := self.sem_destroy.filter (· != sem)
        semaphores := Function.update self.semaphores sem value }.goto
          (.program OPERATION_SUCCESSFUL)
  | .semDestroy sem => { self with sem_destroy := self.sem_destroy ++ [sem] }.goto
      (.program OPERATION_SUCCESSFUL)
  | .barrierWait barrier => do
      let tracker ← self.beforeBarrierWait myself barrier
      tracker.schedPoint ret_addr "Before Barrier Wait" myself false (.pause (.barrier barrier))
  | .barrierInit barrier count =>
      { self with
        bt := self.bt.initBarrier barrier count
        barrier_destroy := self.barrier_destroy.filter (· != barrier) }.goto
          (.program OPERATION_SUCCESSFUL)
  | .barrierDestroy barrier =>
      { self with barrier_destroy := self.barrier_destroy ++ [barrier] }.goto
        (.program OPERATION_SUCCESSFUL)
  | .create ret_val =>
      let (child, tracker) := self.getNextTID
      tracker.goto (.beforeCreate ret_addr child ret_val)
  | .join target => do
      let tracker ← self.beforeJoin myself target
      tracker.schedPoint ret_addr "Before Join" myself false (.pause (.join target))
  | .exit => (self.finalizeThread myself).schedPoint ret_addr "Thread Finish" myself false .exit
  | .threadReturn =>
      if myself = 0 then .error .mainReturned
      else (self.finalizeThread myself).schedPoint ret_addr "Thread Finish" myself false .exit
  | .point p => self.thrillePoint myself ret_addr p

-- What a thread does once `pauseThread` is over.
def resume (self : ExecutionTracker) (myself : ThrID) : Pending → Section
  | .start => self.goto (.program OPERATION_SUCCESSFUL)
  | .simple ret_val => self.goto (.program ret_val)
  | .lock lock =>
      let (result, tracker) := self.simulateMutexLock myself lock
      tracker.goto (.program result)
  | .relock w timedOut =>
      let (_, tracker) := self.simulateMutexLock myself w.lock
      tracker.goto (.program (if timedOut then ETIMEDOUT else OPERATION_SUCCESSFUL))
  | .trylock lock =>
      let (result, tracker) := self.simulateMutexTrylock myself lock
      tracker.goto (.program result)
  | .semWait sem => do
      let tracker ← self.simulateSemWait myself sem
      tracker.goto (.program OPERATION_SUCCESSFUL)
  | .join _ => self.goto (.program OPERATION_SUCCESSFUL)
  -- `SimulateBarrierWait` of the handler.
  | .barrier _ => self.goto (.program OPERATION_SUCCESSFUL)

-- One section of the code of a thread: a stretch under the global lock, or one without it.
def runSection (self : ExecutionTracker) (myself : ThrID) : Pc → Section
  | .enter ret_addr op => self.enter myself ret_addr op
  | .originalLock lock =>
      let (result, tracker) := self.mutexTrylock myself lock
      tracker.goto (.program result)
  | .afterUnlock ret_addr lock ret_val => self.afterMutexUnlock myself ret_addr lock ret_val
  | .simulateWait w => self.simulateCondWait myself w
  | .woken w => (self.clearCond myself).goto (.relock w)
  | .relock w => self.beforeMutexLockInWait myself w
  | .signalReady w =>
      (self.signalThreadReady myself).goto
        (if w.timed then .checkTimeout w else .leaving (.pause (.relock w false)))
  | .checkTimeout w => self.checkTimeout myself w
  | .simulateSignal ret_addr cond isBroadcast =>
      self.wakeThreadWaitingOnCond
        { ret_addr, isBroadcast, thread := myself, cond, cond_map := self.cond_map }
  | .handoff s target => self.scheduleThreadWaitingOnCond s target
  | .waitReady s _ => self.waitThreadReady s
  | .signalDone ret_addr isBroadcast => self.simulateCondSignal myself ret_addr isBroadcast
  | .beforeCreate ret_addr child ret_val =>
      .ok (self.initializeThreadData child, .created child (.spawn ret_addr child ret_val))
  | .afterCreate ret_addr ret_val =>
      self.schedPoint ret_addr "After Create" myself false (.pause (.simple ret_val))
  | .resume k => self.resume myself k
  | pc => self.goto pc

end ExecutionTracker

end Thrille
