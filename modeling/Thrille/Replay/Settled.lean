import Thrille.Serializer.Threads

namespace Thrille

-- The tracker but for how many posts the semaphores of the threads hold.
def ExecutionTracker.settled (self : ExecutionTracker) : ExecutionTracker :=
  { self with
    sem_map := fun t => (self.sem_map t).map fun _ => 0
    wait_sem_map := fun t => (self.wait_sem_map t).map fun _ => 0 }

def Section.settled (result : Section) : Section :=
  result.map fun (tracker, eff) => (tracker.settled, eff)

theorem assert_map {α β : Type} (f : α → β) (cond : Bool) (stop : Stop) {x : Unit → Except Stop β}
    {y : Unit → Except Stop α} (h : x () = (y ()).map f) :
    (safe_assert cond stop >>= x) = (safe_assert cond stop >>= y).map f := by
  cases cond with
  | false => rfl
  | true => exact h

namespace ExecutionTracker

variable (self : ExecutionTracker) (t : ThrID)

theorem settled_mutexTrylock (lock : Addr) :
    self.settled.mutexTrylock t lock =
      ((self.mutexTrylock t lock).1, (self.mutexTrylock t lock).2.settled) := by
  simp only [mutexTrylock]
  cases h : self.mutexes lock <;> simp only [settled, h]

theorem settled_mutexUnlock (lock : Addr) :
    self.settled.mutexUnlock lock =
      ((self.mutexUnlock lock).1, (self.mutexUnlock lock).2.settled) := by
  simp only [mutexUnlock]
  cases h : self.mutexes lock <;> simp only [settled, h]

theorem settled_determineLockStatus (lock : Addr) :
    self.settled.determineLockStatus t lock = (self.determineLockStatus t lock).settled := by
  simp only [determineLockStatus]
  cases h : self.mutexes lock <;> simp only [settled, h] <;> rfl

theorem settled_simulateMutexLock (lock : Addr) :
    self.settled.simulateMutexLock t lock =
      ((self.simulateMutexLock t lock).1, (self.simulateMutexLock t lock).2.settled) :=
  settled_mutexTrylock (self.threadHasAcquiredLock t lock) t lock

theorem settled_simulateMutexTrylock (lock : Addr) :
    self.settled.simulateMutexTrylock t lock =
      ((self.simulateMutexTrylock t lock).1, (self.simulateMutexTrylock t lock).2.settled) := by
  simp only [simulateMutexTrylock, settled_mutexTrylock]
  split
  · rfl
  · rfl

theorem settled_determineSemaphoreStatus (sem : Addr) :
    self.settled.determineSemaphoreStatus t sem =
      (self.determineSemaphoreStatus t sem).settled := by
  unfold determineSemaphoreStatus
  show (if 0 < self.semaphores sem then _ else _) = _
  split
  · rfl
  · rfl

theorem settled_finalizeThread :
    self.settled.finalizeThread t = (self.finalizeThread t).settled := by
  show ExecutionTracker.enableJoiningThread ((self.disableThread t).setFinished t).settled t = _
  unfold finalizeThread enableJoiningThread
  cases h : self.join_map t with
  | none =>
      have hat : ((self.disableThread t).setFinished t).join_map t = none := h
      have hsettled : ((self.disableThread t).setFinished t).settled.join_map t = none := h
      simp only [hat, hsettled]
  | some joiner =>
      have hat : ((self.disableThread t).setFinished t).join_map t = some joiner := h
      have hsettled : ((self.disableThread t).setFinished t).settled.join_map t = some joiner := h
      simp only [hat, hsettled]
      rfl

theorem settled_initializeThreadData :
    self.settled.initializeThreadData t = (self.initializeThreadData t).settled := by
  have hsem (map : ThrID → Option Nat) : (fun u => (Function.update map t (some 0) u).map
      fun _ => 0) = Function.update (fun u => (map u).map fun _ => 0) t (some 0) :=
    Function.comp_update (Option.map fun _ => 0) map t (some 0)
  unfold settled initializeThreadData
  simp only [hsem]
  rfl

theorem settled_simulateSemWait (sem : Addr) :
    self.settled.simulateSemWait t sem = (self.simulateSemWait t sem).map settled := by
  unfold simulateSemWait threadHasPassedSemaphore
  refine assert_map settled _ _ (assert_map settled _ _ (assert_map settled _ _ ?_))
  show Except.ok (if (self.semWait sem).semaphores sem = 0 then _ else _) =
    Except.ok (settled (if (self.semWait sem).semaphores sem = 0 then _ else _))
  split
  · rfl
  · rfl

theorem settled_beforeBarrierWait (barrier : Addr) :
    self.settled.beforeBarrierWait t barrier =
      (self.beforeBarrierWait t barrier).map settled := by
  unfold beforeBarrierWait
  refine assert_map settled _ _ ?_
  have hcount : self.settled.bt.getBarrierCount barrier = self.bt.getBarrierCount barrier := rfl
  have hnumber : self.settled.bt.getNumberThreadsWaitingOnBarrier barrier =
    self.bt.getNumberThreadsWaitingOnBarrier barrier := rfl
  rw [hcount, hnumber]
  cases self.bt.getBarrierCount barrier with
  | none => rfl
  | some target_count =>
      dsimp only
      split
      · exact assert_map settled _ _ (assert_map settled _ _ rfl)
      · rfl

theorem settled_beforeJoin (target : ThrID) :
    self.settled.beforeJoin t target = (self.beforeJoin t target).map settled := by
  have hsome : (self.settled.sem_map target).isSome = (self.sem_map target).isSome :=
    Option.isSome_map
  have hfinished : self.settled.threadIsFinished target = self.threadIsFinished target := rfl
  unfold beforeJoin
  rw [hsome, hfinished]
  refine assert_map settled _ _ ?_
  split
  · rfl
  · exact assert_map settled _ _ rfl

theorem settled_enter (ret_addr : Addr) (op : Op) :
    self.settled.enter t ret_addr op = (self.enter t ret_addr op).settled := by
  cases op with
  | mutexLock lock =>
      simp only [enter, beforeMutexLock, settled_determineLockStatus]
      show (if self.threadIsFinished t then _ else _) =
        Section.settled (if self.threadIsFinished t then _ else _)
      split
      · rfl
      · rfl
  | mutexUnlock lock =>
      simp only [enter, settled_mutexUnlock]
      rfl
  | mutexDestroy lock =>
      have hmutexes : self.settled.mutexes lock = self.mutexes lock := rfl
      simp only [enter, hmutexes]
      split
      · rfl
      · rfl
  | condSignal cond => exact assert_map _ _ _ rfl
  | condBroadcast cond => exact assert_map _ _ _ rfl
  | semWait sem =>
      simp only [enter, beforeSemWait, settled_determineSemaphoreStatus]
      exact assert_map _ _ _ rfl
  | semPost sem => exact assert_map _ _ _ rfl
  | barrierWait barrier =>
      simp only [enter, settled_beforeBarrierWait]
      cases self.beforeBarrierWait t barrier with
      | error reason => rfl
      | ok tracker => rfl
  | join target =>
      simp only [enter, settled_beforeJoin]
      cases self.beforeJoin t target with
      | error reason => rfl
      | ok tracker => rfl
  | exit =>
      simp only [enter, settled_finalizeThread]
      rfl
  | threadReturn =>
      simp only [enter, settled_finalizeThread]
      split
      · rfl
      · rfl
  | point p => exact assert_map _ _ _ rfl
  | _ => rfl

theorem settled_simulateCondWait (w : Wait) :
    self.settled.simulateCondWait t w = (self.simulateCondWait t w).settled := by
  unfold simulateCondWait
  refine assert_map _ _ _ ?_
  simp only [settled_mutexUnlock]
  refine assert_map _ _ _ ?_
  have hfinished : (self.mutexUnlock w.lock).2.settled.threadIsFinished t =
    (self.mutexUnlock w.lock).2.threadIsFinished t := rfl
  rw [hfinished]
  cases (self.mutexUnlock w.lock).2.threadIsFinished t with
  | true =>
      split
      · rfl
      · rfl
  | false =>
      split
      · rfl
      · rfl

-- A section does not look at the posts.
theorem settled_runSection (pc : Pc) :
    self.settled.runSection t pc = (self.runSection t pc).settled := by
  cases pc with
  | enter ret_addr op => exact self.settled_enter t ret_addr op
  | originalLock lock =>
      simp only [runSection, settled_mutexTrylock]
      rfl
  | afterUnlock ret_addr lock ret_val =>
      have hfinished : self.settled.threadIsFinished t = self.threadIsFinished t := rfl
      simp only [runSection, afterMutexUnlock, hfinished]
      split
      · rfl
      · rfl
  | simulateWait w => exact self.settled_simulateCondWait t w
  | relock w =>
      simp only [runSection, beforeMutexLockInWait, settled_determineLockStatus]
      exact assert_map _ _ _ rfl
  | checkTimeout w =>
      have hsignalled : self.settled.was_signalled_map t = self.was_signalled_map t := rfl
      simp only [runSection, checkTimeout, hsignalled]
      split
      · rfl
      · rfl
  | simulateSignal ret_addr cond isBroadcast =>
      have hcond : self.settled.cond_map = self.cond_map := rfl
      simp only [runSection, wakeThreadWaitingOnCond, hcond]
      split
      · rfl
      · split
        · split
          · rfl
          · rfl
        · rfl
  | handoff info target => exact assert_map _ _ _ rfl
  | waitReady info target =>
      have hcond : self.settled.cond_map = self.cond_map := rfl
      simp only [runSection, waitThreadReady, hcond]
      split
      · split
        · rfl
        · rfl
      · rfl
  | beforeCreate ret_addr child ret_val =>
      simp only [runSection, settled_initializeThreadData]
      rfl
  | resume k =>
      cases k with
      | lock lock =>
          simp only [runSection, resume, settled_simulateMutexLock]
          rfl
      | relock w timedOut =>
          simp only [runSection, resume, settled_simulateMutexLock]
          rfl
      | trylock lock =>
          simp only [runSection, resume, settled_simulateMutexTrylock]
          rfl
      | semWait sem =>
          simp only [runSection, resume, settled_simulateSemWait]
          cases self.simulateSemWait t sem with
          | error reason => rfl
          | ok tracker => rfl
      | _ => rfl
  | _ => rfl

end ExecutionTracker

end Thrille
