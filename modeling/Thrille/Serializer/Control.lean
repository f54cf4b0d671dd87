import Thrille.Serializer.Sections
import Thrille.Serializer.System

namespace Thrille

-- The part of the tracker through which threads let each other run.
structure Posts where
  sem : ThrID → Option Nat
  waitSem : ThrID → Option Nat
  ready : ThrID → Bool
  signalled : ThrID → Bool
  nextId : ThrID

namespace ExecutionTracker

variable (self : ExecutionTracker) (t : ThrID)

def posts : Posts :=
  ⟨self.sem_map, self.wait_sem_map, self.wait_ready_map, self.was_signalled_map, self.next_id⟩

@[simp] theorem posts_enableThread : (self.enableThread t).posts = self.posts := rfl

@[simp] theorem posts_disableThread : (self.disableThread t).posts = self.posts := rfl

@[simp] theorem posts_threadHasAcquiredLock (lock : Addr) :
    (self.threadHasAcquiredLock t lock).posts = self.posts := rfl

@[simp] theorem posts_threadHasReleasedLock (lock : Addr) :
    (self.threadHasReleasedLock lock).posts = self.posts := rfl

@[simp] theorem posts_determineLockStatus (lock : Addr) :
    (self.determineLockStatus t lock).posts = self.posts := by
  unfold determineLockStatus
  split <;> rfl

@[simp] theorem posts_mutexTrylock (lock : Addr) :
    (self.mutexTrylock t lock).2.posts = self.posts := by
  unfold mutexTrylock
  split <;> rfl

@[simp] theorem posts_mutexUnlock (lock : Addr) : (self.mutexUnlock lock).2.posts = self.posts := by
  unfold mutexUnlock
  split <;> rfl

@[simp] theorem posts_simulateMutexTrylock (lock : Addr) :
    (self.simulateMutexTrylock t lock).2.posts = self.posts := by
  simp only [simulateMutexTrylock]
  split <;> exact posts_mutexTrylock self t lock

@[simp] theorem posts_determineSemaphoreStatus (sem : Addr) :
    (self.determineSemaphoreStatus t sem).posts = self.posts := by
  unfold determineSemaphoreStatus
  split <;> rfl

@[simp] theorem posts_finalizeThread : (self.finalizeThread t).posts = self.posts := by
  unfold finalizeThread enableJoiningThread
  split <;> rfl

variable {self t} {tr : ExecutionTracker}

theorem posts_simulateSemWait (sem : Addr) (h : self.simulateSemWait t sem = .ok tr) :
    tr.posts = self.posts := by
  simp only [simulateSemWait, safe_assert_bind, threadHasPassedSemaphore] at h
  obtain ⟨_, _, _, h⟩ := h
  cases h
  split <;> rfl

theorem posts_beforeBarrierWait (barrier : Addr) (h : self.beforeBarrierWait t barrier = .ok tr) :
    tr.posts = self.posts := by
  simp only [beforeBarrierWait, safe_assert_bind] at h
  obtain ⟨_, h⟩ := h
  split at h
  · cases h
  · split at h
    · simp only [safe_assert_bind] at h
      cases h.2.2
      rfl
    · cases h
      rfl

theorem posts_beforeJoin (target : ThrID) (h : self.beforeJoin t target = .ok tr) :
    tr.posts = self.posts := by
  simp only [beforeJoin, safe_assert_bind] at h
  obtain ⟨_, h⟩ := h
  split at h
  · cases h
    rfl
  · simp only [registerThreadJoin, safe_assert_bind] at h
    cases h.2
    rfl

theorem posts_simulateCondWait (w : Wait) {eff : Effect}
    (h : self.simulateCondWait t w = .ok (tr, eff)) :
    tr.posts = self.posts := by
  simp only [simulateCondWait, safe_assert_bind] at h
  obtain ⟨_, _, h⟩ := h
  have hset (released : ExecutionTracker) : (released.setCond t w.cond).posts = released.posts :=
    rfl
  split at h <;> cases h <;> rw [hset] <;> split <;> simp

end ExecutionTracker

-- The sections that post, set `wait_ready_map` or make a new thread.
def Pc.posts : Pc → Bool
  | enter _ (.create _) => true
  | handoff .. => true
  | signalReady _ => true
  | beforeCreate .. => true
  | _ => false

namespace ExecutionTracker

variable {self : ExecutionTracker} {t : ThrID} {tr : ExecutionTracker} {eff : Effect}

theorem posts_enter (ret_addr : Addr) (op : Op) (hop : (Pc.enter ret_addr op).posts = false)
    (h : self.enter t ret_addr op = .ok (tr, eff)) : tr.posts = self.posts := by
  cases op with
  | mutexLock lock =>
      simp only [enter, beforeMutexLock] at h
      split at h <;> cases h
      · rfl
      · exact posts_determineLockStatus self t lock
  | mutexUnlock lock => cases h; exact posts_mutexUnlock self lock
  | mutexDestroy lock =>
      simp only [enter] at h
      split at h <;> cases h <;> rfl
  | condSignal cond =>
      simp only [enter, beforeCond, safe_assert_bind] at h
      cases h.2
      rfl
  | condBroadcast cond =>
      simp only [enter, beforeCond, safe_assert_bind] at h
      cases h.2
      rfl
  | semWait sem =>
      simp only [enter, beforeSemWait, safe_assert_bind] at h
      cases h.2
      exact posts_determineSemaphoreStatus self t sem
  | semPost sem =>
      simp only [enter, simulateSemPost, safe_assert_bind] at h
      cases h.2
      rfl
  | barrierWait barrier =>
      simp only [enter, ok_bind] at h
      obtain ⟨tracker, hwait, h⟩ := h
      cases h
      exact posts_beforeBarrierWait barrier hwait
  | join target =>
      simp only [enter, ok_bind] at h
      obtain ⟨tracker, hjoin, h⟩ := h
      cases h
      exact posts_beforeJoin target hjoin
  | exit => cases h; exact posts_finalizeThread self t
  | threadReturn =>
      simp only [enter] at h
      split at h <;> cases h
      exact posts_finalizeThread self t
  | point p =>
      simp only [enter, thrillePoint, safe_assert_bind] at h
      cases h.2
      rfl
  | create ret_val => cases hop
  | _ => cases h; rfl

theorem posts_runSection (pc : Pc) (hpc : pc.posts = false)
    (h : self.runSection t pc = .ok (tr, eff)) : tr.posts = self.posts := by
  cases pc with
  | enter ret_addr op => exact posts_enter ret_addr op hpc h
  | originalLock lock => cases h; exact posts_mutexTrylock self t lock
  | afterUnlock ret_addr lock ret_val =>
      simp only [runSection, afterMutexUnlock] at h
      split at h <;> cases h <;> rfl
  | simulateWait w => exact posts_simulateCondWait w h
  | relock w =>
      simp only [runSection, beforeMutexLockInWait, safe_assert_bind] at h
      cases h.2
      exact posts_determineLockStatus self t w.lock
  | checkTimeout w =>
      simp only [runSection, checkTimeout] at h
      split at h <;> cases h <;> rfl
  | simulateSignal ret_addr cond isBroadcast =>
      simp only [runSection, wakeThreadWaitingOnCond] at h
      split at h
      · cases h
        rfl
      · split at h
        · split at h <;> cases h
          rfl
        · cases h
          rfl
  | waitReady s target =>
      simp only [runSection, waitThreadReady] at h
      split at h
      · split at h <;> cases h <;> rfl
      · cases h
        rfl
  | resume k =>
      cases k with
      | lock lock =>
          cases h
          exact posts_mutexTrylock (self.threadHasAcquiredLock t lock) t lock
      | relock w timedOut =>
          cases h
          exact posts_mutexTrylock (self.threadHasAcquiredLock t w.lock) t w.lock
      | trylock lock => cases h; exact posts_simulateMutexTrylock self t lock
      | semWait sem =>
          simp only [runSection, resume, ok_bind] at h
          obtain ⟨tracker, hwait, h⟩ := h
          cases h
          exact posts_simulateSemWait sem hwait
      | _ => cases h; rfl
  | handoff s target => cases hpc
  | signalReady w => cases hpc
  | beforeCreate ret_addr child ret_val => cases hpc
  | _ => cases h; rfl

end ExecutionTracker

-- The code that a thread runs only while nobody else does.
def Pc.runs : Pc → Bool
  | unborn => false
  | created => false
  | threadStart => false
  | launched _ => false
  | leaving _ => false
  | blocked _ => false
  | _ => true

-- A thread that has come out of a wait and has not yet paused for its mutex.
def Pc.wakes : Pc → Option Wait
  | woken w => some w
  | relock w => some w
  | signalReady w => some w
  | checkTimeout w => some w
  | _ => none

-- A thread that lets another one go on, or makes one.
def Pc.passesOn : Pc → Bool
  | handoff .. => true
  | beforeCreate .. => true
  | spawn .. => true
  | _ => false

-- What the end of a section says of the section.
def Effect.Follows (before after : ExecutionTracker) (t : ThrID) (pc : Pc) : Effect → Prop
  | goto pc' =>
      match pc with
      | .signalReady w =>
          pc' = if w.timed then .checkTimeout w else .leaving (.pause (.relock w false))
      | .checkTimeout w =>
          pc' = .leaving (.pause (.relock w false)) ∧ before.was_signalled_map t = true
      | _ => pc'.wakes = pc.wakes ∧ (pc.runs = true → pc'.runs = true) ∧
          (∀ s u, pc' = .handoff s u → s.cond_map = after.cond_map) ∧
          (∀ ret_addr child ret_val, pc' = .beforeCreate ret_addr child ret_val →
            child = before.next_id ∧ after.next_id = before.next_id + 1) ∧
          (∀ ret_addr child ret_val, pc' = .spawn ret_addr child ret_val → pc = pc')
  | created child pc' => ∃ ret_addr ret_val, pc = .beforeCreate ret_addr child ret_val ∧
      pc' = .spawn ret_addr child ret_val
  | signalChoice s => pc.wakes = none ∧ pc.posts = false ∧ s.cond_map = after.cond_map
  | signalled s u => pc = .handoff s u ∧ s.cond_map[u]? = some s.cond
  | schedule s _ => s.thread = t ∧ s.enabled = after.enable_map ∧ pc.posts = false ∧
      ∀ w, pc.wakes = some w → pc = .checkTimeout w ∧ before.was_signalled_map t = false

namespace ExecutionTracker

variable {self : ExecutionTracker} {t : ThrID} {tr : ExecutionTracker} {eff : Effect}

-- A section that goes on where nothing is handed to another thread.
theorem follows_of_passesOn {pc pc' : Pc} (hpass : pc'.passesOn = false)
    (hwakes : pc'.wakes = pc.wakes) (hruns : pc.runs = true → pc'.runs = true) :
    pc'.wakes = pc.wakes ∧ (pc.runs = true → pc'.runs = true) ∧
      (∀ s u, pc' = .handoff s u → s.cond_map = tr.cond_map) ∧
      (∀ ret_addr child ret_val, pc' = .beforeCreate ret_addr child ret_val →
        child = self.next_id ∧ tr.next_id = self.next_id + 1) ∧
      (∀ ret_addr child ret_val, pc' = .spawn ret_addr child ret_val → pc = pc') := by
  refine ⟨hwakes, hruns, ?_, ?_, ?_⟩
  · rintro s u rfl
    cases hpass
  · rintro ret_addr child ret_val rfl
    cases hpass
  · rintro ret_addr child ret_val rfl
    cases hpass

theorem enter_follows (ret_addr : Addr) (op : Op)
    (h : self.enter t ret_addr op = .ok (tr, eff)) :
    eff.Follows self tr t (.enter ret_addr op) := by
  cases op with
  | mutexLock lock =>
      simp only [enter, beforeMutexLock] at h
      split at h <;> cases h
      · exact follows_of_passesOn rfl rfl fun _ => rfl
      · exact ⟨rfl, rfl, rfl, by rintro _ ⟨⟩⟩
  | mutexTrylock lock => cases h; exact ⟨rfl, rfl, rfl, by rintro _ ⟨⟩⟩
  | mutexDestroy lock =>
      simp only [enter] at h
      split at h <;> cases h <;> exact follows_of_passesOn rfl rfl fun _ => rfl
  | condSignal cond =>
      simp only [enter, beforeCond, safe_assert_bind] at h
      cases h.2
      exact follows_of_passesOn rfl rfl fun _ => rfl
  | condBroadcast cond =>
      simp only [enter, beforeCond, safe_assert_bind] at h
      cases h.2
      exact follows_of_passesOn rfl rfl fun _ => rfl
  | semWait sem =>
      simp only [enter, beforeSemWait, safe_assert_bind] at h
      cases h.2
      exact ⟨rfl, rfl, rfl, by rintro _ ⟨⟩⟩
  | semPost sem =>
      simp only [enter, simulateSemPost, safe_assert_bind] at h
      cases h.2
      exact ⟨rfl, rfl, rfl, by rintro _ ⟨⟩⟩
  | barrierWait barrier =>
      simp only [enter, ok_bind] at h
      obtain ⟨tracker, _, h⟩ := h
      cases h
      exact ⟨rfl, rfl, rfl, by rintro _ ⟨⟩⟩
  | create ret_val =>
      cases h
      refine ⟨rfl, fun _ => rfl, by rintro _ _ ⟨⟩, fun ret_addr child ret_val heq => ?_,
        by rintro _ _ _ ⟨⟩⟩
      cases heq
      exact ⟨rfl, rfl⟩
  | join target =>
      simp only [enter, ok_bind] at h
      obtain ⟨tracker, _, h⟩ := h
      cases h
      exact ⟨rfl, rfl, rfl, by rintro _ ⟨⟩⟩
  | exit => cases h; exact ⟨rfl, rfl, rfl, by rintro _ ⟨⟩⟩
  | threadReturn =>
      simp only [enter] at h
      split at h <;> cases h
      exact ⟨rfl, rfl, rfl, by rintro _ ⟨⟩⟩
  | point p =>
      simp only [enter, thrillePoint, safe_assert_bind] at h
      cases h.2
      exact ⟨rfl, rfl, rfl, by rintro _ ⟨⟩⟩
  | _ =>
      cases h
      exact follows_of_passesOn rfl rfl fun _ => rfl

theorem runSection_follows (pc : Pc) (h : self.runSection t pc = .ok (tr, eff)) :
    eff.Follows self tr t pc := by
  cases pc with
  | enter ret_addr op => exact enter_follows ret_addr op h
  | afterUnlock ret_addr lock ret_val =>
      simp only [runSection, afterMutexUnlock] at h
      split at h <;> cases h
      · exact follows_of_passesOn rfl rfl fun _ => rfl
      · exact ⟨rfl, rfl, rfl, by rintro _ ⟨⟩⟩
  | simulateWait w =>
      simp only [runSection, simulateCondWait, safe_assert_bind] at h
      obtain ⟨_, _, h⟩ := h
      split at h <;> cases h <;> exact ⟨rfl, rfl, rfl, by rintro _ ⟨⟩⟩
  | relock w =>
      simp only [runSection, beforeMutexLockInWait, safe_assert_bind] at h
      cases h.2
      exact follows_of_passesOn rfl rfl fun _ => rfl
  | signalReady w => cases h; rfl
  | checkTimeout w =>
      simp only [runSection, checkTimeout] at h
      split at h <;> cases h
      · rename_i hsignalled
        exact ⟨rfl, hsignalled⟩
      · rename_i hnot
        refine ⟨rfl, rfl, rfl, fun w' heq => ?_⟩
        cases heq
        exact ⟨rfl, by simpa using hnot⟩
  | simulateSignal ret_addr cond isBroadcast =>
      simp only [runSection, wakeThreadWaitingOnCond] at h
      split at h
      · cases h
        exact follows_of_passesOn rfl rfl fun _ => rfl
      · split at h
        · split at h <;> cases h
          refine ⟨rfl, fun _ => rfl, fun s u heq => ?_, by rintro _ _ _ ⟨⟩, by rintro _ _ _ ⟨⟩⟩
          cases heq
          rfl
        · cases h
          exact ⟨rfl, rfl, rfl⟩
  | handoff s target =>
      simp only [runSection, scheduleThreadWaitingOnCond, safe_assert_bind] at h
      obtain ⟨hcond, h⟩ := h
      cases h
      exact ⟨rfl, by simpa using hcond⟩
  | waitReady s target =>
      simp only [runSection, waitThreadReady] at h
      split at h
      · split at h <;> cases h
        · refine ⟨rfl, fun _ => rfl, fun s u heq => ?_, by rintro _ _ _ ⟨⟩, by rintro _ _ _ ⟨⟩⟩
          cases heq
          rfl
        · exact follows_of_passesOn rfl rfl fun _ => rfl
      · cases h
        exact follows_of_passesOn rfl rfl fun _ => rfl
  | beforeCreate ret_addr child ret_val => cases h; exact ⟨ret_addr, ret_val, rfl, rfl⟩
  | signalDone ret_addr isBroadcast => cases h; exact ⟨rfl, rfl, rfl, by rintro _ ⟨⟩⟩
  | afterCreate ret_addr ret_val => cases h; exact ⟨rfl, rfl, rfl, by rintro _ ⟨⟩⟩
  | resume k =>
      cases k with
      | semWait sem =>
          simp only [runSection, resume, ok_bind] at h
          obtain ⟨tracker, _, h⟩ := h
          cases h
          exact follows_of_passesOn rfl rfl fun _ => rfl
      | _ =>
          cases h
          exact follows_of_passesOn rfl rfl fun _ => rfl
  | woken w =>
      cases h
      exact follows_of_passesOn rfl rfl fun _ => rfl
  | originalLock lock =>
      cases h
      exact follows_of_passesOn rfl rfl fun _ => rfl
  | _ => cases h; exact ⟨rfl, id, by rintro _ _ ⟨⟩, by rintro _ _ _ ⟨⟩, fun _ _ _ _ => rfl⟩

end ExecutionTracker

end Thrille
