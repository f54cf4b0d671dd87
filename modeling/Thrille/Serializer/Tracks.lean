import Thrille.Serializer.BarrierRuns

namespace Thrille

open ExecutionTracker

-- The mutex that a thread is at.
def Pending.mutex : Pending → Option Addr
  | lock m => some m
  | relock w _ => some w.lock
  | trylock m => some m
  | _ => none

def Stage.mutex : Stage → Option Addr
  | between w => some w.lock
  | waiting w => some w.lock
  | pending k => k.mutex
  | resumed k => k.mutex
  | _ => none

-- The lock maps agree with the mutexes. `late` is one that has been unlocked while the threads
-- that wait for it have not been told.
structure LockMaps (tr : ExecutionTracker) (late : Option Addr) : Prop where
  ready : ∀ u m, (tr.entries u).lockReady = some m → ∀ o, tr.mutexes m ≠ .held o
  wait : ∀ u m, (tr.entries u).lockWait = some m → late = some m ∨ ∃ o, tr.mutexes m = .held o
  free : ∀ m, late = some m → ∀ o, tr.mutexes m ≠ .held o

namespace LockMaps

variable {tr tr' : ExecutionTracker} {late : Option Addr} {t : ThrID}

-- Entries may go away.
theorem sub (h : LockMaps tr late)
    (hready : ∀ u m, (tr'.entries u).lockReady = some m → (tr.entries u).lockReady = some m)
    (hwait : ∀ u m, (tr'.entries u).lockWait = some m → (tr.entries u).lockWait = some m)
    (hmutexes : tr'.mutexes = tr.mutexes) : LockMaps tr' late := by
  refine ⟨fun u m hu => ?_, fun u m hu => ?_, ?_⟩
  · rw [hmutexes]
    exact h.ready u m (hready u m hu)
  · rw [hmutexes]
    exact h.wait u m (hwait u m hu)
  · rw [hmutexes]
    exact h.free

theorem mutexes_determineLockStatus (lock : Addr) :
    (tr.determineLockStatus t lock).mutexes = tr.mutexes := by
  unfold ExecutionTracker.determineLockStatus
  split <;> rfl

theorem determineLockStatus (h : LockMaps tr none) (lock : Addr) :
    LockMaps (tr.determineLockStatus t lock) none := by
  refine ⟨fun u m hu => ?_, fun u m hu => ?_, nofun⟩
  · rw [mutexes_determineLockStatus]
    rw [entries_determineLockStatus] at hu
    split at hu
    · split at hu
      · exact h.ready u m hu
      · rename_i hfree
        have heq : lock = m := Option.some.inj hu
        rw [← heq]
        exact hfree
    · exact h.ready u m hu
  · rw [mutexes_determineLockStatus]
    rw [entries_determineLockStatus] at hu
    split at hu
    · split at hu
      · rename_i o hheld
        have heq : lock = m := Option.some.inj hu
        rw [← heq]
        exact Or.inr ⟨o, hheld⟩
      · exact h.wait u m hu
    · exact h.wait u m hu

-- What the other threads have to be told.
theorem mutexUnlock (h : LockMaps tr none) (lock : Addr) :
    LockMaps (tr.mutexUnlock lock).2 (some lock) := by
  have hmutexes (m : Addr) (hm : m ≠ lock) : (tr.mutexUnlock lock).2.mutexes m = tr.mutexes m := by
    unfold ExecutionTracker.mutexUnlock
    split
    · rfl
    · exact Function.update_of_ne hm _ _
  have hfree (o : ThrID) : (tr.mutexUnlock lock).2.mutexes lock ≠ .held o := by
    unfold ExecutionTracker.mutexUnlock
    split
    · rename_i hdestroyed
      rw [hdestroyed]
      nofun
    · show Function.update tr.mutexes lock MutexState.free lock ≠ .held o
      rw [Function.update_self]
      nofun
  have hentries (u : ThrID) : (tr.mutexUnlock lock).2.entries u = tr.entries u := by
    unfold ExecutionTracker.mutexUnlock
    split <;> rfl
  refine ⟨fun u m hu => ?_, fun u m hu => ?_, fun m hm => ?_⟩
  · by_cases hm : m = lock
    · rw [hm]
      exact hfree
    · rw [hmutexes m hm]
      rw [hentries] at hu
      exact h.ready u m hu
  · by_cases hm : m = lock
    · exact Or.inl (congrArg some hm.symm)
    · rw [hmutexes m hm]
      rw [hentries] at hu
      exact Or.inr ((h.wait u m hu).resolve_left nofun)
  · cases hm
    exact hfree

theorem threadHasReleasedLock {lock : Addr} (h : LockMaps tr (some lock)) :
    LockMaps (tr.threadHasReleasedLock lock) none := by
  refine ⟨fun u m hu => ?_, fun u m hu => ?_, nofun⟩
  · show ∀ o, tr.mutexes m ≠ .held o
    rw [entries_threadHasReleasedLock, Entries.released] at hu
    split at hu
    · have heq : lock = m := Option.some.inj hu
      rw [← heq]
      exact h.free lock rfl
    · exact h.ready u m hu
  · show none = some m ∨ ∃ o, tr.mutexes m = .held o
    rw [entries_threadHasReleasedLock, Entries.released] at hu
    split at hu
    · cases hu
    · rename_i hnot
      refine Or.inr ((h.wait u m hu).resolve_left fun heq => ?_)
      rw [← heq] at hu
      exact hnot hu

-- A thread takes a mutex that is free, and the others that may take it are told.
theorem threadHasAcquiredLock (h : LockMaps tr none) {lock : Addr} {o : ThrID}
    (hentries : ∀ u, tr'.entries u = (tr.threadHasAcquiredLock t lock).entries u)
    (hmutexes : tr'.mutexes = Function.update tr.mutexes lock (.held o)) : LockMaps tr' none := by
  have hready (u : ThrID) (m : Addr) (hu : (tr'.entries u).lockReady = some m) :
      m ≠ lock ∧ (tr.entries u).lockReady = some m := by
    rw [hentries, entries_threadHasAcquiredLock] at hu
    unfold Entries.acquired at hu
    by_cases htu : t = u
    · simp [htu] at hu
    · rw [if_neg htu] at hu
      by_cases hat : (tr.entries u).lockReady = some lock
      · simp [hat] at hu
      · rw [if_neg hat] at hu
        refine ⟨fun hm => ?_, hu⟩
        rw [hm] at hu
        exact hat hu
  have hwait (u : ThrID) (m : Addr) (hu : (tr'.entries u).lockWait = some m) :
      m = lock ∨ (tr.entries u).lockWait = some m := by
    rw [hentries, entries_threadHasAcquiredLock] at hu
    unfold Entries.acquired at hu
    by_cases htu : t = u
    · simp [htu] at hu
      exact Or.inr hu
    · rw [if_neg htu] at hu
      by_cases hat : (tr.entries u).lockReady = some lock
      · rw [if_pos hat] at hu
        exact Or.inl (Option.some.inj hu).symm
      · rw [if_neg hat] at hu
        exact Or.inr hu
  refine ⟨fun u m hu => ?_, fun u m hu => ?_, nofun⟩
  · obtain ⟨hm, hold⟩ := hready u m hu
    rw [hmutexes, Function.update_of_ne hm]
    exact h.ready u m hold
  · right
    rw [hmutexes]
    by_cases hm : m = lock
    · exact ⟨o, by rw [hm, Function.update_self]⟩
    · rw [Function.update_of_ne hm]
      exact (h.wait u m ((hwait u m hu).resolve_left hm)).resolve_left nofun

theorem simulateMutexLock (h : LockMaps tr none) {lock : Addr} (hfree : tr.mutexes lock = .free) :
    (tr.simulateMutexLock t lock).1 = OPERATION_SUCCESSFUL ∧
      LockMaps (tr.simulateMutexLock t lock).2 none := by
  have hsame : (tr.threadHasAcquiredLock t lock).mutexes lock = .free := hfree
  have heq : tr.simulateMutexLock t lock = (OPERATION_SUCCESSFUL,
      { tr.threadHasAcquiredLock t lock with
        mutexes := Function.update (tr.threadHasAcquiredLock t lock).mutexes lock (.held t) }) := by
    unfold ExecutionTracker.simulateMutexLock ExecutionTracker.mutexTrylock
    rw [hsame]
  rw [heq]
  exact ⟨rfl, h.threadHasAcquiredLock (fun _ => rfl) rfl⟩

theorem simulateMutexTrylock (h : LockMaps tr none) (lock : Addr) :
    LockMaps (tr.simulateMutexTrylock t lock).2 none := by
  unfold ExecutionTracker.simulateMutexTrylock ExecutionTracker.mutexTrylock
  cases hmutex : tr.mutexes lock with
  | free => exact h.threadHasAcquiredLock (fun _ => rfl) rfl
  | held o => exact h
  | destroyed => exact h

-- A mutex that no thread waits for is initialised or destroyed.
theorem renew (h : LockMaps tr none) {lock : Addr} {state : MutexState}
    (hstate : ∀ o, state ≠ .held o) (hnobody : ∀ u, (tr.entries u).lockWait ≠ some lock)
    (hentries : ∀ u, tr'.entries u = tr.entries u)
    (hmutexes : tr'.mutexes = Function.update tr.mutexes lock state) : LockMaps tr' none := by
  refine ⟨fun u m hu => ?_, fun u m hu => ?_, nofun⟩
  · rw [hentries] at hu
    rw [hmutexes]
    by_cases hm : m = lock
    · rw [hm, Function.update_self]
      exact hstate
    · rw [Function.update_of_ne hm]
      exact h.ready u m hu
  · rw [hentries] at hu
    have hm : m ≠ lock := by
      rintro rfl
      exact hnobody u hu
    rw [hmutexes, Function.update_of_ne hm]
    exact h.wait u m hu

end LockMaps

-- The semaphore maps agree with the semaphores.
structure SemMaps (tr : ExecutionTracker) : Prop where
  ready : ∀ u x, (tr.entries u).semReady = some x → 0 < tr.semaphores x
  wait : ∀ u x, (tr.entries u).semWait = some x → tr.semaphores x = 0

namespace SemMaps

variable {tr tr' : ExecutionTracker} {t : ThrID}

theorem sub (h : SemMaps tr)
    (hready : ∀ u x, (tr'.entries u).semReady = some x → (tr.entries u).semReady = some x)
    (hwait : ∀ u x, (tr'.entries u).semWait = some x → (tr.entries u).semWait = some x)
    (hsemaphores : tr'.semaphores = tr.semaphores) : SemMaps tr' := by
  refine ⟨fun u x hu => ?_, fun u x hu => ?_⟩
  · rw [hsemaphores]
    exact h.ready u x (hready u x hu)
  · rw [hsemaphores]
    exact h.wait u x (hwait u x hu)

theorem determineSemaphoreStatus (h : SemMaps tr) (sem : Addr) :
    SemMaps (tr.determineSemaphoreStatus t sem) := by
  have hsame : (tr.determineSemaphoreStatus t sem).semaphores = tr.semaphores := by
    unfold ExecutionTracker.determineSemaphoreStatus
    split <;> rfl
  refine ⟨fun u x hu => ?_, fun u x hu => ?_⟩
  · rw [hsame]
    rw [entries_determineSemaphoreStatus] at hu
    split at hu
    · split at hu
      · rename_i hpos
        have heq : sem = x := Option.some.inj hu
        rw [← heq]
        exact hpos
      · exact h.ready u x hu
    · exact h.ready u x hu
  · rw [hsame]
    rw [entries_determineSemaphoreStatus] at hu
    split at hu
    · split at hu
      · exact h.wait u x hu
      · rename_i hzero
        have heq : sem = x := Option.some.inj hu
        rw [← heq]
        exact Nat.eq_zero_of_not_pos hzero
    · exact h.wait u x hu

theorem semPost (h : SemMaps tr) (sem : Addr) :
    SemMaps ((tr.semPost sem).semaphoreIsPosted sem) := by
  have hentries (u : ThrID) : ((tr.semPost sem).semaphoreIsPosted sem).entries u =
      (tr.entries u).posted sem := entries_semaphoreIsPosted (tr.semPost sem) u sem
  have hself : ((tr.semPost sem).semaphoreIsPosted sem).semaphores sem = tr.semaphores sem + 1 :=
    Function.update_self _ _ _
  have hother (x : Addr) (hx : x ≠ sem) :
      ((tr.semPost sem).semaphoreIsPosted sem).semaphores x = tr.semaphores x :=
    Function.update_of_ne hx _ _
  refine ⟨fun u x hu => ?_, fun u x hu => ?_⟩
  · by_cases hx : x = sem
    · rw [hx, hself]
      exact Nat.succ_pos _
    · rw [hother x hx]
      rw [hentries, Entries.posted] at hu
      split at hu
      · exact absurd (Option.some.inj hu).symm hx
      · exact h.ready u x hu
  · rw [hentries, Entries.posted] at hu
    split at hu
    · cases hu
    · rename_i hnot
      have hx : x ≠ sem := by
        rintro rfl
        exact hnot hu
      rw [hother x hx]
      exact h.wait u x hu

theorem simulateSemWait (h : SemMaps tr) (sem : Addr) (hwait : tr.simulateSemWait t sem = .ok tr') :
    SemMaps tr' := by
  simp only [ExecutionTracker.simulateSemWait, safe_assert_bind,
    ExecutionTracker.threadHasPassedSemaphore] at hwait
  obtain ⟨hpos, _, _, hwait⟩ := hwait
  have hpos : 0 < tr.semaphores sem := of_decide_eq_true hpos
  have hself : ((tr.semWait sem).clearSemReady t).semaphores sem = tr.semaphores sem - 1 :=
    Function.update_self _ _ _
  have hother (x : Addr) (hx : x ≠ sem) :
      ((tr.semWait sem).clearSemReady t).semaphores x = tr.semaphores x :=
    Function.update_of_ne hx _ _
  have hready (u : ThrID) (x : Addr)
      (hu : (((tr.semWait sem).clearSemReady t).entries u).semReady = some x) :
      (tr.entries u).semReady = some x := by
    rw [entries_clearSemReady] at hu
    split at hu
    · cases hu
    · exact hu
  have hwaits (u : ThrID) (x : Addr)
      (hu : (((tr.semWait sem).clearSemReady t).entries u).semWait = some x) :
      x ≠ sem ∧ (tr.entries u).semWait = some x := by
    have hold : (tr.entries u).semWait = some x := by
      rw [entries_clearSemReady] at hu
      split at hu
      · exact hu
      · exact hu
    refine ⟨fun hx => ?_, hold⟩
    have hzero := h.wait u x hold
    rw [hx] at hzero
    omega
  cases hwait
  split
  · rename_i hzero
    -- the semaphore is empty now
    have hentries (u : ThrID) := entries_semaphoreIsDrained ((tr.semWait sem).clearSemReady t) u sem
    refine ⟨fun u x hu => ?_, fun u x hu => ?_⟩
    · show 0 < ((tr.semWait sem).clearSemReady t).semaphores x
      rw [hentries, Entries.drained] at hu
      split at hu
      · cases hu
      · rename_i hnot
        have hx : x ≠ sem := by
          rintro rfl
          exact hnot hu
        rw [hother x hx]
        exact h.ready u x (hready u x hu)
    · show ((tr.semWait sem).clearSemReady t).semaphores x = 0
      rw [hentries, Entries.drained] at hu
      split at hu
      · rw [← Option.some.inj hu]
        exact hzero
      · obtain ⟨hx, hold⟩ := hwaits u x hu
        rw [hother x hx]
        exact h.wait u x hold
  · rename_i hzero
    refine ⟨fun u x hu => ?_, fun u x hu => ?_⟩
    · by_cases hx : x = sem
      · rw [hx]
        exact Nat.pos_of_ne_zero hzero
      · rw [hother x hx]
        exact h.ready u x (hready u x hu)
    · obtain ⟨hx, hold⟩ := hwaits u x hu
      rw [hother x hx]
      exact h.wait u x hold

-- A semaphore that no thread is at is initialised.
theorem renew (h : SemMaps tr) {sem : Addr} {value : Nat}
    (hnobody : ∀ u, (tr.entries u).semReady ≠ some sem ∧ (tr.entries u).semWait ≠ some sem)
    (hentries : ∀ u, tr'.entries u = tr.entries u)
    (hsemaphores : tr'.semaphores = Function.update tr.semaphores sem value) : SemMaps tr' := by
  refine ⟨fun u x hu => ?_, fun u x hu => ?_⟩
  · rw [hentries] at hu
    have hx : x ≠ sem := by
      rintro rfl
      exact (hnobody u).1 hu
    rw [hsemaphores, Function.update_of_ne hx]
    exact h.ready u x hu
  · rw [hentries] at hu
    have hx : x ≠ sem := by
      rintro rfl
      exact (hnobody u).2 hu
    rw [hsemaphores, Function.update_of_ne hx]
    exact h.wait u x hu

end SemMaps

-- The sections that change the lock maps or a mutex, and those that change the semaphore maps or a
-- semaphore.
def Pc.locks : Pc → Bool
  | enter _ (.mutexLock _) => true
  | enter _ (.mutexUnlock _) => true
  | enter _ (.mutexInit _) => true
  | enter _ (.mutexDestroy _) => true
  | originalLock _ => true
  | afterUnlock .. => true
  | simulateWait _ => true
  | relock _ => true
  | beforeCreate .. => true
  | resume (.lock _) => true
  | resume (.relock ..) => true
  | resume (.trylock _) => true
  | _ => false

def Pc.sems : Pc → Bool
  | enter _ (.semWait _) => true
  | enter _ (.semPost _) => true
  | enter _ (.semInit ..) => true
  | beforeCreate .. => true
  | resume (.semWait _) => true
  | _ => false

namespace ExecutionTracker

variable (self : ExecutionTracker) (t : ThrID)

def lockState : PtrMap × PtrMap × (Addr → MutexState) :=
  (self.lock_ready_map, self.lock_wait_map, self.mutexes)

def semState : PtrMap × PtrMap × (Addr → Nat) :=
  (self.sem_ready_map, self.sem_wait_map, self.semaphores)

theorem semState_determineLockStatus (lock : Addr) :
    (self.determineLockStatus t lock).semState = self.semState := by
  unfold determineLockStatus
  split <;> rfl

theorem semState_mutexTrylock (lock : Addr) :
    (self.mutexTrylock t lock).2.semState = self.semState := by
  unfold mutexTrylock
  split <;> rfl

theorem semState_mutexUnlock (lock : Addr) :
    (self.mutexUnlock lock).2.semState = self.semState := by
  unfold mutexUnlock
  split <;> rfl

theorem semState_simulateMutexTrylock (lock : Addr) :
    (self.simulateMutexTrylock t lock).2.semState = self.semState := by
  simp only [simulateMutexTrylock]
  split
  · exact semState_mutexTrylock self t lock
  · exact semState_mutexTrylock self t lock

theorem lockState_determineSemaphoreStatus (sem : Addr) :
    (self.determineSemaphoreStatus t sem).lockState = self.lockState := by
  unfold determineSemaphoreStatus
  split <;> rfl

theorem states_finalizeThread : (self.finalizeThread t).lockState = self.lockState ∧
    (self.finalizeThread t).semState = self.semState := by
  unfold finalizeThread enableJoiningThread
  split
  · exact ⟨rfl, rfl⟩
  · exact ⟨rfl, rfl⟩

variable {self t} {tr : ExecutionTracker} {eff : Effect}

theorem states_beforeJoin (target : ThrID) (h : self.beforeJoin t target = .ok tr) :
    tr.lockState = self.lockState ∧ tr.semState = self.semState := by
  simp only [beforeJoin, safe_assert_bind] at h
  obtain ⟨_, h⟩ := h
  split at h
  · cases h
    exact ⟨rfl, rfl⟩
  · simp only [registerThreadJoin, safe_assert_bind] at h
    cases h.2
    exact ⟨rfl, rfl⟩

theorem lockState_simulateSemWait (sem : Addr) (h : self.simulateSemWait t sem = .ok tr) :
    tr.lockState = self.lockState := by
  simp only [simulateSemWait, safe_assert_bind, threadHasPassedSemaphore] at h
  obtain ⟨_, _, _, h⟩ := h
  cases h
  split <;> rfl

theorem semState_simulateCondWait (w : Wait) (h : self.simulateCondWait t w = .ok (tr, eff)) :
    tr.semState = self.semState := by
  simp only [simulateCondWait, safe_assert_bind] at h
  obtain ⟨_, _, h⟩ := h
  rw [← semState_mutexUnlock self w.lock]
  split at h <;> cases h <;> simp only [setCond] <;> split <;> rfl

theorem states_beforeBarrierWait (barrier : Addr)
    (h : self.beforeBarrierWait t barrier = .ok tr) :
    tr.lockState = self.lockState ∧ tr.semState = self.semState := by
  obtain ⟨_, _, ⟨_, rfl⟩ | ⟨_, rfl⟩⟩ := beforeBarrierWait_cases barrier h
  · exact ⟨rfl, rfl⟩
  · exact ⟨rfl, rfl⟩

theorem states_enter (ret_addr : Addr) (op : Op) (h : self.enter t ret_addr op = .ok (tr, eff)) :
    ((Pc.enter ret_addr op).locks = false → tr.lockState = self.lockState) ∧
      ((Pc.enter ret_addr op).sems = false → tr.semState = self.semState) := by
  cases op with
  | mutexLock lock =>
      refine ⟨by rintro ⟨⟩, fun _ => ?_⟩
      simp only [enter, beforeMutexLock] at h
      split at h
      · cases h
        rfl
      · cases h
        exact semState_determineLockStatus self t lock
  | mutexUnlock lock =>
      cases h
      exact ⟨by rintro ⟨⟩, fun _ => semState_mutexUnlock self lock⟩
  | mutexInit lock =>
      cases h
      exact ⟨by rintro ⟨⟩, fun _ => rfl⟩
  | mutexDestroy lock =>
      refine ⟨by rintro ⟨⟩, fun _ => ?_⟩
      simp only [enter] at h
      split at h
      · cases h
        rfl
      · cases h
        rfl
  | condSignal cond =>
      simp only [enter, beforeCond, safe_assert_bind] at h
      cases h.2
      exact ⟨fun _ => rfl, fun _ => rfl⟩
  | condBroadcast cond =>
      simp only [enter, beforeCond, safe_assert_bind] at h
      cases h.2
      exact ⟨fun _ => rfl, fun _ => rfl⟩
  | semWait sem =>
      simp only [enter, beforeSemWait, safe_assert_bind] at h
      cases h.2
      exact ⟨fun _ => lockState_determineSemaphoreStatus self t sem, by rintro ⟨⟩⟩
  | semPost sem =>
      simp only [enter, simulateSemPost, safe_assert_bind] at h
      cases h.2
      exact ⟨fun _ => rfl, by rintro ⟨⟩⟩
  | semInit sem value =>
      cases h
      exact ⟨fun _ => rfl, by rintro ⟨⟩⟩
  | barrierWait barrier =>
      simp only [enter, ok_bind] at h
      obtain ⟨tracker, hwait, h⟩ := h
      cases h
      obtain ⟨hlocks, hsems⟩ := states_beforeBarrierWait barrier hwait
      exact ⟨fun _ => hlocks, fun _ => hsems⟩
  | join target =>
      simp only [enter, ok_bind] at h
      obtain ⟨tracker, hjoin, h⟩ := h
      cases h
      obtain ⟨hlocks, hsems⟩ := states_beforeJoin target hjoin
      exact ⟨fun _ => hlocks, fun _ => hsems⟩
  | exit =>
      cases h
      obtain ⟨hlocks, hsems⟩ := states_finalizeThread self t
      exact ⟨fun _ => hlocks, fun _ => hsems⟩
  | threadReturn =>
      simp only [enter] at h
      split at h
      · cases h
      · cases h
        obtain ⟨hlocks, hsems⟩ := states_finalizeThread self t
        exact ⟨fun _ => hlocks, fun _ => hsems⟩
  | point p =>
      simp only [enter, thrillePoint, safe_assert_bind] at h
      cases h.2
      exact ⟨fun _ => rfl, fun _ => rfl⟩
  | _ =>
      cases h
      exact ⟨fun _ => rfl, fun _ => rfl⟩

-- The other sections leave them alone.
theorem states_runSection (pc : Pc) (h : self.runSection t pc = .ok (tr, eff)) :
    (pc.locks = false → tr.lockState = self.lockState) ∧
      (pc.sems = false → tr.semState = self.semState) := by
  cases pc with
  | enter ret_addr op => exact states_enter ret_addr op h
  | originalLock lock =>
      cases h
      exact ⟨by rintro ⟨⟩, fun _ => semState_mutexTrylock self t lock⟩
  | afterUnlock ret_addr lock ret_val =>
      refine ⟨by rintro ⟨⟩, fun _ => ?_⟩
      simp only [runSection, afterMutexUnlock] at h
      split at h
      · cases h
        rfl
      · cases h
        rfl
  | simulateWait w => exact ⟨by rintro ⟨⟩, fun _ => semState_simulateCondWait w h⟩
  | relock w =>
      simp only [runSection, beforeMutexLockInWait, safe_assert_bind] at h
      cases h.2
      exact ⟨by rintro ⟨⟩, fun _ => semState_determineLockStatus self t w.lock⟩
  | checkTimeout w =>
      simp only [runSection, checkTimeout] at h
      split at h
      · cases h
        exact ⟨fun _ => rfl, fun _ => rfl⟩
      · cases h
        exact ⟨fun _ => rfl, fun _ => rfl⟩
  | simulateSignal ret_addr cond isBroadcast =>
      simp only [runSection, wakeThreadWaitingOnCond] at h
      split at h
      · cases h
        exact ⟨fun _ => rfl, fun _ => rfl⟩
      · split at h
        · split at h
          · cases h
            exact ⟨fun _ => rfl, fun _ => rfl⟩
          · cases h
        · cases h
          exact ⟨fun _ => rfl, fun _ => rfl⟩
  | handoff s target =>
      simp only [runSection, scheduleThreadWaitingOnCond, safe_assert_bind] at h
      cases h.2
      exact ⟨fun _ => rfl, fun _ => rfl⟩
  | waitReady s target =>
      simp only [runSection, waitThreadReady] at h
      split at h
      · split at h
        · cases h
          exact ⟨fun _ => rfl, fun _ => rfl⟩
        · cases h
          exact ⟨fun _ => rfl, fun _ => rfl⟩
      · cases h
        exact ⟨fun _ => rfl, fun _ => rfl⟩
  | beforeCreate ret_addr child ret_val => exact ⟨by rintro ⟨⟩, by rintro ⟨⟩⟩
  | resume k =>
      cases k with
      | lock lock =>
          cases h
          exact ⟨by rintro ⟨⟩, fun _ =>
            semState_mutexTrylock (self.threadHasAcquiredLock t lock) t lock⟩
      | relock w timedOut =>
          cases h
          exact ⟨by rintro ⟨⟩, fun _ =>
            semState_mutexTrylock (self.threadHasAcquiredLock t w.lock) t w.lock⟩
      | trylock lock =>
          cases h
          exact ⟨by rintro ⟨⟩, fun _ => semState_simulateMutexTrylock self t lock⟩
      | semWait sem =>
          simp only [runSection, resume, ok_bind] at h
          obtain ⟨tracker, hwait, h⟩ := h
          cases h
          exact ⟨fun _ => lockState_simulateSemWait sem hwait, by rintro ⟨⟩⟩
      | _ =>
          cases h
          exact ⟨fun _ => rfl, fun _ => rfl⟩
  | _ =>
      cases h
      exact ⟨fun _ => rfl, fun _ => rfl⟩

end ExecutionTracker

end Thrille
