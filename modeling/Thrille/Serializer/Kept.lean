import Thrille.Serializer.Transition
import Thrille.Serializer.Consistent

namespace Thrille

-- The sections that change the maps of the threads that wait on barriers or on conditions.
def Pc.rewaits : Pc → Bool
  | enter _ (.barrierWait _) => true
  | enter _ (.barrierInit _ _) => true
  | simulateWait _ => true
  | woken _ => true
  | beforeCreate .. => true
  | _ => false

namespace ExecutionTracker

variable (self : ExecutionTracker) (t : ThrID)

def waits : BarrierTracker × PtrMap := (self.bt, self.cond_map)

theorem waits_determineLockStatus (lock : Addr) :
    (self.determineLockStatus t lock).waits = self.waits := by
  unfold determineLockStatus
  split <;> rfl

theorem waits_determineSemaphoreStatus (sem : Addr) :
    (self.determineSemaphoreStatus t sem).waits = self.waits := by
  unfold determineSemaphoreStatus
  split <;> rfl

theorem waits_mutexTrylock (lock : Addr) :
    (self.mutexTrylock t lock).2.waits = self.waits := by
  unfold mutexTrylock
  split <;> rfl

theorem waits_mutexUnlock (lock : Addr) : (self.mutexUnlock lock).2.waits = self.waits := by
  unfold mutexUnlock
  split <;> rfl

theorem waits_simulateMutexTrylock (lock : Addr) :
    (self.simulateMutexTrylock t lock).2.waits = self.waits := by
  simp only [simulateMutexTrylock]
  split <;> exact waits_mutexTrylock self t lock

theorem waits_finalizeThread : (self.finalizeThread t).waits = self.waits := by
  unfold finalizeThread enableJoiningThread
  split <;> rfl

theorem waits_recordScheduleInfo (target : ThrID) :
    (self.recordScheduleInfo t target).waits = self.waits := by
  unfold recordScheduleInfo
  split
  · rfl
  · split <;> rfl

theorem waits_afterSchedule (pc : Pc) : (self.afterSchedule t pc).waits = self.waits := by
  cases pc <;> rfl

variable {self t} {tr : ExecutionTracker} {eff : Effect}

theorem waits_beforeJoin (target : ThrID) (h : self.beforeJoin t target = .ok tr) :
    tr.waits = self.waits := by
  simp only [beforeJoin, safe_assert_bind] at h
  obtain ⟨_, h⟩ := h
  split at h
  · cases h
    rfl
  · simp only [registerThreadJoin, safe_assert_bind] at h
    cases h.2
    rfl

theorem waits_simulateSemWait (sem : Addr) (h : self.simulateSemWait t sem = .ok tr) :
    tr.waits = self.waits := by
  simp only [simulateSemWait, safe_assert_bind, threadHasPassedSemaphore] at h
  obtain ⟨_, _, _, h⟩ := h
  cases h
  split <;> rfl

theorem waits_waitWakeThread (target : ThrID) (h : self.waitWakeThread target = .ok tr) :
    tr.waits = self.waits := by
  unfold waitWakeThread at h
  split at h
  · cases h
    rfl
  · cases h

theorem waits_launch (target : ThrID) (h : self.launch target = .ok tr) :
    tr.waits = self.waits := by
  unfold launch at h
  split at h
  · have hwaits : tr.waits = (self.setSignalled target false).waits :=
      waits_waitWakeThread target h
    exact hwaits
  · unfold wakeThread at h
    split at h
    · cases h
      rfl
    · cases h

theorem waits_enter (ret_addr : Addr) (op : Op) (hop : (Pc.enter ret_addr op).rewaits = false)
    (h : self.enter t ret_addr op = .ok (tr, eff)) : tr.waits = self.waits := by
  cases op with
  | mutexLock lock =>
      simp only [enter, beforeMutexLock] at h
      split at h <;> cases h
      · rfl
      · exact waits_determineLockStatus self t lock
  | mutexUnlock lock => cases h; exact waits_mutexUnlock self lock
  | mutexDestroy lock =>
      simp only [enter] at h
      split at h <;> cases h <;> rfl
  | condSignal cond =>
      simp only [enter, beforeCond, safe_assert_bind] at h
      cases h.2
      rfl
  | condBroadcast cond =>
      simp only [enter, beforeCond, safe_assert_bind] at h
      cases h.2
      rfl
  | semWait sem =>
      simp only [enter, beforeSemWait, safe_assert_bind] at h
      cases h.2
      exact waits_determineSemaphoreStatus self t sem
  | semPost sem =>
      simp only [enter, simulateSemPost, safe_assert_bind] at h
      cases h.2
      rfl
  | barrierWait barrier => cases hop
  | barrierInit barrier count => cases hop
  | join target =>
      simp only [enter, ok_bind] at h
      obtain ⟨tracker, hjoin, h⟩ := h
      cases h
      exact waits_beforeJoin target hjoin
  | exit => cases h; exact waits_finalizeThread self t
  | threadReturn =>
      simp only [enter] at h
      split at h <;> cases h
      exact waits_finalizeThread self t
  | point p =>
      simp only [enter, thrillePoint, safe_assert_bind] at h
      cases h.2
      rfl
  | _ => cases h; rfl

-- The other sections leave both alone.
theorem waits_runSection (pc : Pc) (hpc : pc.rewaits = false)
    (h : self.runSection t pc = .ok (tr, eff)) : tr.waits = self.waits := by
  cases pc with
  | enter ret_addr op => exact waits_enter ret_addr op hpc h
  | originalLock lock => cases h; exact waits_mutexTrylock self t lock
  | afterUnlock ret_addr lock ret_val =>
      simp only [runSection, afterMutexUnlock] at h
      split at h <;> cases h <;> rfl
  | simulateWait w => cases hpc
  | woken w => cases hpc
  | beforeCreate ret_addr child ret_val => cases hpc
  | relock w =>
      simp only [runSection, beforeMutexLockInWait, safe_assert_bind] at h
      cases h.2
      exact waits_determineLockStatus self t w.lock
  | checkTimeout w =>
      simp only [runSection, checkTimeout] at h
      split at h <;> cases h <;> rfl
  | simulateSignal ret_addr cond isBroadcast =>
      simp only [runSection, wakeThreadWaitingOnCond] at h
      split at h
      · cases h
        rfl
      · split at h
        · split at h <;> cases h
          rfl
        · cases h
          rfl
  | handoff s target =>
      simp only [runSection, scheduleThreadWaitingOnCond, safe_assert_bind] at h
      cases h.2
      rfl
  | waitReady s target =>
      simp only [runSection, waitThreadReady] at h
      split at h
      · split at h <;> cases h <;> rfl
      · cases h
        rfl
  | resume k =>
      cases k with
      | lock lock => cases h; exact waits_mutexTrylock (self.threadHasAcquiredLock t lock) t lock
      | relock w timedOut =>
          cases h
          exact waits_mutexTrylock (self.threadHasAcquiredLock t w.lock) t w.lock
      | trylock lock => cases h; exact waits_simulateMutexTrylock self t lock
      | semWait sem =>
          simp only [runSection, resume, ok_bind] at h
          obtain ⟨tracker, hwait, h⟩ := h
          cases h
          exact waits_simulateSemWait sem hwait
      | _ => cases h; rfl
  | _ => cases h; rfl

end ExecutionTracker

end Thrille
