import Thrille.Serializer.Tracks

namespace Thrille

open ExecutionTracker

-- The semaphore that a thread is at.
def Stage.sem : Stage → Option Addr
  | pending (.semWait sem) => some sem
  | resumed (.semWait sem) => some sem
  | _ => none

-- The mutex that an operation uses.
def Op.mutex : Op → Option Addr
  | mutexLock lock => some lock
  | mutexTrylock lock => some lock
  | condWait _ lock => some lock
  | condTimedwait _ lock => some lock
  | _ => none

-- A mutex that the thread has unlocked without having told the threads that wait for it.
def Pc.late : Pc → Option Addr
  | afterUnlock _ lock _ => some lock
  | _ => none

-- The mutex that a section unlocks without telling them.
def Pc.unlocks : Pc → Option Addr
  | enter _ (.mutexUnlock lock) => some lock
  | _ => none

theorem Pc.Next.mutex {pc pc' : Pc} {m : Addr} (h : pc.Next pc')
    (hmutex : pc'.stage.mutex = some m) :
    pc.stage.mutex = some m ∨ ∃ ret_addr op, pc = .enter ret_addr op ∧ op.mutex = some m := by
  cases pc with
  | enter ret_addr op =>
      right
      refine ⟨ret_addr, op, rfl, ?_⟩
      cases op with
      | mutexLock lock =>
          rcases h with rfl | rfl
          · cases hmutex
          · exact hmutex
      | mutexTrylock lock =>
          obtain rfl := h
          exact hmutex
      | mutexUnlock lock =>
          obtain ⟨_, _, rfl⟩ := h
          cases hmutex
      | condWait cond lock =>
          obtain ⟨_, rfl⟩ := h
          exact hmutex
      | condTimedwait cond lock =>
          obtain ⟨_, rfl⟩ := h
          exact hmutex
      | create ret_val =>
          obtain ⟨_, _, rfl⟩ := h
          cases hmutex
      | semWait sem => obtain rfl := h; cases hmutex
      | semPost sem => obtain rfl := h; cases hmutex
      | barrierWait barrier => obtain rfl := h; cases hmutex
      | join target => obtain rfl := h; cases hmutex
      | exit => obtain rfl := h; cases hmutex
      | threadReturn => obtain rfl := h; cases hmutex
      | point p => obtain rfl := h; cases hmutex
      | _ =>
          obtain ⟨_, rfl⟩ := h
          cases hmutex
  | originalLock lock =>
      obtain ⟨_, rfl⟩ := h
      cases hmutex
  | afterUnlock ret_addr lock ret_val =>
      rcases h with rfl | rfl
      · cases hmutex
      · cases hmutex
  | simulateWait w =>
      obtain rfl := h
      exact Or.inl hmutex
  | woken w =>
      obtain rfl := h
      exact Or.inl hmutex
  | relock w =>
      obtain rfl := h
      exact Or.inl hmutex
  | signalReady w =>
      simp only [Next] at h
      split at h
      · subst h
        exact Or.inl hmutex
      · subst h
        exact Or.inl hmutex
  | checkTimeout w =>
      rcases h with rfl | rfl
      · exact Or.inl hmutex
      · exact Or.inl hmutex
  | simulateSignal ret_addr cond isBroadcast =>
      rcases h with rfl | ⟨_, _, rfl, _⟩
      · cases hmutex
      · cases hmutex
  | waitReady info u =>
      rcases h with rfl | ⟨_, _, rfl, _⟩
      · cases hmutex
      · cases hmutex
  | resume k =>
      cases k with
      | simple ret_val =>
          obtain rfl := h
          cases hmutex
      | relock w timedOut =>
          obtain rfl := h
          cases hmutex
      | _ =>
          obtain ⟨_, rfl⟩ := h
          cases hmutex
  | _ =>
      first
        | exact h.elim
        | obtain rfl := h
          cases hmutex

def Pc.enters : Pc → Bool
  | enter .. => true
  | originalLock _ => true
  | _ => false

theorem Pc.comes_of_enters {pc pc' : Pc} (henters : pc'.enters = false)
    (hlate : pc'.late = pc.unlocks) :
    pc'.late = pc.unlocks ∧ (∀ ret_addr op, pc' ≠ .enter ret_addr op) ∧
      ∀ lock, pc' = .originalLock lock → ∃ ret_addr, pc = .enter ret_addr (.mutexLock lock) := by
  refine ⟨hlate, ?_, ?_⟩
  · rintro ret_addr op rfl
    cases henters
  · rintro lock rfl
    cases henters

-- What else a section cannot come to.
theorem Pc.Next.comes {pc pc' : Pc} (h : pc.Next pc') :
    pc'.late = pc.unlocks ∧ (∀ ret_addr op, pc' ≠ .enter ret_addr op) ∧
      ∀ lock, pc' = .originalLock lock → ∃ ret_addr, pc = .enter ret_addr (.mutexLock lock) := by
  cases pc with
  | enter ret_addr op =>
      cases op with
      | mutexLock lock =>
          rcases h with rfl | rfl
          · refine ⟨rfl, by rintro _ _ ⟨⟩, fun lock hlock => ?_⟩
            cases hlock
            exact ⟨ret_addr, rfl⟩
          · exact comes_of_enters rfl rfl
      | mutexUnlock lock =>
          obtain ⟨_, _, rfl⟩ := h
          exact comes_of_enters rfl rfl
      | create ret_val =>
          obtain ⟨_, _, rfl⟩ := h
          exact comes_of_enters rfl rfl
      | mutexTrylock lock => obtain rfl := h; exact comes_of_enters rfl rfl
      | semWait sem => obtain rfl := h; exact comes_of_enters rfl rfl
      | semPost sem => obtain rfl := h; exact comes_of_enters rfl rfl
      | barrierWait barrier => obtain rfl := h; exact comes_of_enters rfl rfl
      | join target => obtain rfl := h; exact comes_of_enters rfl rfl
      | exit => obtain rfl := h; exact comes_of_enters rfl rfl
      | threadReturn => obtain rfl := h; exact comes_of_enters rfl rfl
      | point p => obtain rfl := h; exact comes_of_enters rfl rfl
      | _ =>
          obtain ⟨_, rfl⟩ := h
          exact comes_of_enters rfl rfl
  | originalLock lock =>
      obtain ⟨_, rfl⟩ := h
      exact comes_of_enters rfl rfl
  | afterUnlock ret_addr lock ret_val =>
      rcases h with rfl | rfl
      · exact comes_of_enters rfl rfl
      · exact comes_of_enters rfl rfl
  | signalReady w =>
      simp only [Next] at h
      split at h
      · subst h
        exact comes_of_enters rfl rfl
      · subst h
        exact comes_of_enters rfl rfl
  | checkTimeout w =>
      rcases h with rfl | rfl
      · exact comes_of_enters rfl rfl
      · exact comes_of_enters rfl rfl
  | simulateSignal ret_addr cond isBroadcast =>
      rcases h with rfl | ⟨_, _, rfl, _⟩
      · exact comes_of_enters rfl rfl
      · exact comes_of_enters rfl rfl
  | waitReady info u =>
      rcases h with rfl | ⟨_, _, rfl, _⟩
      · exact comes_of_enters rfl rfl
      · exact comes_of_enters rfl rfl
  | resume k =>
      cases k with
      | simple ret_val =>
          obtain rfl := h
          exact comes_of_enters rfl rfl
      | relock w timedOut =>
          obtain rfl := h
          exact comes_of_enters rfl rfl
      | _ =>
          obtain ⟨_, rfl⟩ := h
          exact comes_of_enters rfl rfl
  | _ =>
      first
        | exact h.elim
        | obtain rfl := h
          exact comes_of_enters rfl rfl

namespace Consistent

variable {tr : ExecutionTracker} {st : ThrID → Stage} {u : ThrID}

-- Only a thread that is at an object has an entry for it.
theorem mutex_of_entry (hc : Consistent tr st) {m : Addr}
    (h : (tr.entries u).lockReady = some m ∨ (tr.entries u).lockWait = some m) :
    (st u).mutex = some m := by
  have hfit := hc.fits u
  generalize tr.entries u = e at h hfit
  cases hst : st u with
  | pending k =>
      rw [hst] at hfit
      cases k <;> simp only [Stage.Fits, Pending.Fits, Stage.mutex, Pending.mutex] at hfit ⊢ <;>
        grind
  | resumed k =>
      rw [hst] at hfit
      obtain ⟨hfit, _⟩ := hfit
      cases k <;> simp only [Pending.Fits, Stage.mutex, Pending.mutex] at hfit ⊢ <;> grind
  | _ =>
      rw [hst] at hfit
      simp only [Stage.Fits] at hfit
      subst hfit
      rcases h with h | h
      · cases h
      · cases h

theorem sem_of_entry (hc : Consistent tr st) {sem : Addr}
    (h : (tr.entries u).semReady = some sem ∨ (tr.entries u).semWait = some sem) :
    (st u).sem = some sem := by
  have hfit := hc.fits u
  generalize tr.entries u = e at h hfit
  cases hst : st u with
  | pending k =>
      rw [hst] at hfit
      cases k <;> simp only [Stage.Fits, Pending.Fits, Stage.sem] at hfit ⊢ <;> grind
  | resumed k =>
      rw [hst] at hfit
      obtain ⟨hfit, _⟩ := hfit
      cases k <;> simp only [Pending.Fits, Stage.sem] at hfit ⊢ <;> grind
  | _ =>
      rw [hst] at hfit
      simp only [Stage.Fits] at hfit
      subst hfit
      rcases h with h | h
      · cases h
      · cases h

-- A thread that has come out of its pause for a mutex may take it.
theorem ready_of_resumed (hc : Consistent tr st) {k : Pending} {m : Addr}
    (hst : st u = .resumed k) (hk : k = .lock m ∨ ∃ w timedOut, k = .relock w timedOut ∧ w.lock = m) :
    (tr.entries u).lockReady = some m := by
  have hfit := hc.fits u
  rw [hst] at hfit
  obtain ⟨hfit, henabled⟩ := hfit
  rcases hk with rfl | ⟨w, timedOut, rfl, rfl⟩
  · rcases hfit with hready | hwait
    · rw [hready]
    · rw [hwait] at henabled
      cases henabled
  · rcases hfit with hready | hwait
    · rw [hready]
    · rw [hwait] at henabled
      cases henabled

end Consistent

section Sections

variable {tr tr' : ExecutionTracker} {st : ThrID → Stage} {t : ThrID} {pc : Pc} {eff : Effect}

theorem ExecutionTracker.lockEntries {u : ThrID} (h : tr'.lockState = tr.lockState) :
    (tr'.entries u).lockReady = (tr.entries u).lockReady ∧
      (tr'.entries u).lockWait = (tr.entries u).lockWait ∧ tr'.mutexes = tr.mutexes :=
  ⟨congrArg (fun maps => maps.1[u]?) h, congrArg (fun maps => maps.2.1[u]?) h,
    congrArg (fun maps => maps.2.2) h⟩

theorem ExecutionTracker.semEntries {u : ThrID} (h : tr'.semState = tr.semState) :
    (tr'.entries u).semReady = (tr.entries u).semReady ∧
      (tr'.entries u).semWait = (tr.entries u).semWait ∧ tr'.semaphores = tr.semaphores :=
  ⟨congrArg (fun maps => maps.1[u]?) h, congrArg (fun maps => maps.2.1[u]?) h,
    congrArg (fun maps => maps.2.2) h⟩

theorem LockMaps.congr {late : Option Addr} (h : LockMaps tr late)
    (hstate : tr'.lockState = tr.lockState) : LockMaps tr' late := by
  refine h.sub (fun u m hu => ?_) (fun u m hu => ?_) (lockEntries (u := 0) hstate).2.2
  · rwa [(lockEntries hstate).1] at hu
  · rwa [(lockEntries hstate).2.1] at hu

theorem SemMaps.congr (h : SemMaps tr) (hstate : tr'.semState = tr.semState) : SemMaps tr' := by
  refine h.sub (fun u m hu => ?_) (fun u m hu => ?_) (semEntries (u := 0) hstate).2.2
  · rwa [(semEntries hstate).1] at hu
  · rwa [(semEntries hstate).2.1] at hu

-- A section of thread `t`, which does not lock, initialise or destroy a mutex against the rules.
theorem LockMaps.runSection (h : LockMaps tr pc.late) (hc : Consistent tr st) (hst : st t = pc.stage)
    (hopen : ∀ m, pc ≠ .originalLock m)
    (halive : ∀ m, pc.stage.mutex = some m → tr.mutexes m ≠ .destroyed)
    (hunused : ∀ ret_addr m, pc = .enter ret_addr (.mutexInit m) ∨
      pc = .enter ret_addr (.mutexDestroy m) → ∀ u, (st u).mutex ≠ some m)
    (hrun : tr.runSection t pc = .ok (tr', eff)) : LockMaps tr' pc.unlocks := by
  have hnobody (ret_addr m : Addr) (hpc : pc = .enter ret_addr (.mutexInit m) ∨
      pc = .enter ret_addr (.mutexDestroy m)) (u : ThrID) : (tr.entries u).lockWait ≠ some m := by
    intro hwait
    exact hunused ret_addr m hpc u (hc.mutex_of_entry (Or.inr hwait))
  have hfree (m : Addr) (k : Pending) (hpc : pc = .resume k)
      (hk : k = .lock m ∨ ∃ w timedOut, k = .relock w timedOut ∧ w.lock = m) :
      tr.mutexes m = .free := by
    have hready := hc.ready_of_resumed (hst.trans (by rw [hpc]; rfl)) hk
    have hmutex : pc.stage.mutex = some m := by
      rw [← hst]
      exact hc.mutex_of_entry (Or.inl hready)
    cases hm : tr.mutexes m with
    | free => rfl
    | held o => exact absurd hm (h.ready t m hready o)
    | destroyed => exact absurd hm (halive m hmutex)
  cases pc with
  | enter ret_addr op =>
      cases op with
      | mutexLock lock =>
          have hfin : tr.threadIsFinished t = false := by
            rw [threadIsFinished, hc.finished_eq, hst]
            rfl
          simp only [ExecutionTracker.runSection, ExecutionTracker.enter, beforeMutexLock, hfin,
            Bool.false_eq_true, if_false] at hrun
          cases hrun
          exact h.determineLockStatus lock
      | mutexUnlock lock =>
          cases hrun
          exact h.mutexUnlock lock
      | mutexInit lock =>
          cases hrun
          refine h.renew ?_ (hnobody ret_addr lock (Or.inl rfl)) (fun _ => rfl) rfl
          rintro _ ⟨⟩
      | mutexDestroy lock =>
          simp only [ExecutionTracker.runSection, ExecutionTracker.enter] at hrun
          split at hrun
          · cases hrun
            exact h.congr rfl
          · cases hrun
            refine h.renew ?_ (hnobody ret_addr lock (Or.inr rfl)) (fun _ => rfl) rfl
            rintro _ ⟨⟩
      | _ => exact h.congr ((states_runSection _ hrun).1 rfl)
  | originalLock lock => exact absurd rfl (hopen lock)
  | afterUnlock ret_addr lock ret_val =>
      have hfin : tr.threadIsFinished t = false := by
        rw [threadIsFinished, hc.finished_eq, hst]
        rfl
      simp only [ExecutionTracker.runSection, afterMutexUnlock, hfin, Bool.false_eq_true,
        if_false] at hrun
      cases hrun
      exact h.threadHasReleasedLock
  | simulateWait w =>
      have hfin : (tr.mutexUnlock w.lock).2.threadIsFinished t = false := by
        have hsame : (tr.mutexUnlock w.lock).2.finish_map = tr.finish_map := by
          unfold ExecutionTracker.mutexUnlock
          split <;> rfl
        rw [threadIsFinished, hsame, hc.finished_eq, hst]
        rfl
      simp only [ExecutionTracker.runSection, ExecutionTracker.simulateCondWait,
        safe_assert_bind, hfin, Bool.false_eq_true, if_false] at hrun
      obtain ⟨_, _, hrun⟩ := hrun
      have hreleased := (h.mutexUnlock w.lock).threadHasReleasedLock
      split at hrun
      · cases hrun
        exact hreleased.congr rfl
      · cases hrun
        exact hreleased.congr rfl
  | relock w =>
      simp only [ExecutionTracker.runSection, ExecutionTracker.beforeMutexLockInWait,
        safe_assert_bind] at hrun
      cases hrun.2
      exact h.determineLockStatus w.lock
  | beforeCreate ret_addr child ret_val =>
      cases hrun
      refine h.sub (fun u m hu => ?_) (fun u m hu => ?_) rfl
      · rw [entries_initializeThreadData] at hu
        split at hu
        · cases hu
        · exact hu
      · rw [entries_initializeThreadData] at hu
        split at hu
        · cases hu
        · exact hu
  | resume k =>
      cases k with
      | lock lock =>
          cases hrun
          exact (h.simulateMutexLock (hfree lock _ rfl (Or.inl rfl))).2
      | relock w timedOut =>
          cases hrun
          exact (h.simulateMutexLock (hfree w.lock _ rfl (Or.inr ⟨w, timedOut, rfl, rfl⟩))).2
      | trylock lock =>
          cases hrun
          exact h.simulateMutexTrylock lock
      | _ => exact h.congr ((states_runSection _ hrun).1 rfl)
  | _ => exact h.congr ((states_runSection _ hrun).1 rfl)

theorem ExecutionTracker.mutexes_simulateMutexTrylock (lock : Addr) :
    (tr.simulateMutexTrylock t lock).2.mutexes = (tr.mutexTrylock t lock).2.mutexes := by
  simp only [ExecutionTracker.simulateMutexTrylock]
  split
  · rfl
  · rfl

-- Only `pthread_mutex_destroy` destroys a mutex.
theorem destroyed_of_runSection {m : Addr} (hrun : tr.runSection t pc = .ok (tr', eff))
    (hdestroyed : tr'.mutexes m = .destroyed) :
    tr.mutexes m = .destroyed ∨ ∃ ret_addr, pc = .enter ret_addr (.mutexDestroy m) := by
  have htrylock (self : ExecutionTracker) (lock : Addr)
      (h : (self.mutexTrylock t lock).2.mutexes m = .destroyed) : self.mutexes m = .destroyed := by
    unfold ExecutionTracker.mutexTrylock at h
    split at h
    · by_cases hm : m = lock
      · rw [hm] at h
        simp at h
      · simpa [hm] using h
    · exact h
    · exact h
  have hunlock (lock : Addr) (h : (tr.mutexUnlock lock).2.mutexes m = .destroyed) :
      tr.mutexes m = .destroyed := by
    unfold ExecutionTracker.mutexUnlock at h
    split at h
    · exact h
    · by_cases hm : m = lock
      · rw [hm] at h
        simp at h
      · simpa [hm] using h
  have hsame (hstate : tr'.lockState = tr.lockState) : tr.mutexes m = .destroyed := by
    rw [← (lockEntries (u := 0) hstate).2.2]
    exact hdestroyed
  cases pc with
  | enter ret_addr op =>
      cases op with
      | mutexLock lock =>
          left
          simp only [ExecutionTracker.runSection, ExecutionTracker.enter, beforeMutexLock] at hrun
          split at hrun
          · cases hrun
            exact hdestroyed
          · cases hrun
            rwa [LockMaps.mutexes_determineLockStatus] at hdestroyed
      | mutexUnlock lock =>
          cases hrun
          exact Or.inl (hunlock lock hdestroyed)
      | mutexInit lock =>
          cases hrun
          left
          by_cases hm : m = lock
          · rw [hm] at hdestroyed
            simp at hdestroyed
          · simpa [hm] using hdestroyed
      | mutexDestroy lock =>
          simp only [ExecutionTracker.runSection, ExecutionTracker.enter] at hrun
          split at hrun
          · cases hrun
            exact Or.inl hdestroyed
          · cases hrun
            by_cases hm : m = lock
            · exact Or.inr ⟨ret_addr, by rw [hm]⟩
            · left
              simpa [hm] using hdestroyed
      | _ => exact Or.inl (hsame ((states_runSection _ hrun).1 rfl))
  | originalLock lock =>
      cases hrun
      exact Or.inl (htrylock tr lock hdestroyed)
  | afterUnlock ret_addr lock ret_val =>
      left
      simp only [ExecutionTracker.runSection, afterMutexUnlock] at hrun
      split at hrun
      · cases hrun
        exact hdestroyed
      · cases hrun
        exact hdestroyed
  | simulateWait w =>
      left
      apply hunlock w.lock
      simp only [ExecutionTracker.runSection, ExecutionTracker.simulateCondWait,
        safe_assert_bind] at hrun
      obtain ⟨_, _, hrun⟩ := hrun
      split at hrun
      · cases hrun
        simp only [setCond] at hdestroyed
        split at hdestroyed
        · exact hdestroyed
        · exact hdestroyed
      · cases hrun
        simp only [setCond] at hdestroyed
        split at hdestroyed
        · exact hdestroyed
        · exact hdestroyed
  | relock w =>
      left
      simp only [ExecutionTracker.runSection, ExecutionTracker.beforeMutexLockInWait,
        safe_assert_bind] at hrun
      cases hrun.2
      rwa [LockMaps.mutexes_determineLockStatus] at hdestroyed
  | beforeCreate ret_addr child ret_val =>
      cases hrun
      exact Or.inl hdestroyed
  | resume k =>
      left
      cases k with
      | lock lock =>
          cases hrun
          exact htrylock (tr.threadHasAcquiredLock t lock) lock hdestroyed
      | relock w timedOut =>
          cases hrun
          exact htrylock (tr.threadHasAcquiredLock t w.lock) w.lock hdestroyed
      | trylock lock =>
          cases hrun
          have hsimulated : (tr.simulateMutexTrylock t lock).2.mutexes m = .destroyed := hdestroyed
          rw [mutexes_simulateMutexTrylock] at hsimulated
          exact htrylock tr lock hsimulated
      | _ => exact hsame ((states_runSection _ hrun).1 rfl)
  | _ => exact Or.inl (hsame ((states_runSection _ hrun).1 rfl))

theorem SemMaps.runSection (h : SemMaps tr) (hc : Consistent tr st)
    (hunused : ∀ ret_addr sem value, pc = .enter ret_addr (.semInit sem value) →
      ∀ u, (st u).sem ≠ some sem)
    (hrun : tr.runSection t pc = .ok (tr', eff)) : SemMaps tr' := by
  cases pc with
  | enter ret_addr op =>
      cases op with
      | semWait sem =>
          simp only [ExecutionTracker.runSection, ExecutionTracker.enter, beforeSemWait,
            safe_assert_bind] at hrun
          cases hrun.2
          exact h.determineSemaphoreStatus sem
      | semPost sem =>
          simp only [ExecutionTracker.runSection, ExecutionTracker.enter, simulateSemPost,
            safe_assert_bind] at hrun
          cases hrun.2
          exact h.semPost sem
      | semInit sem value =>
          cases hrun
          refine h.renew (fun u => ⟨fun hready => ?_, fun hwait => ?_⟩) (fun _ => rfl) rfl
          · exact hunused ret_addr sem value rfl u (hc.sem_of_entry (Or.inl hready))
          · exact hunused ret_addr sem value rfl u (hc.sem_of_entry (Or.inr hwait))
      | _ => exact h.congr ((states_runSection _ hrun).2 rfl)
  | beforeCreate ret_addr child ret_val =>
      cases hrun
      refine h.sub (fun u x hu => ?_) (fun u x hu => ?_) rfl
      · rw [entries_initializeThreadData] at hu
        split at hu
        · cases hu
        · exact hu
      · rw [entries_initializeThreadData] at hu
        split at hu
        · cases hu
        · exact hu
  | resume k =>
      cases k with
      | semWait sem =>
          simp only [ExecutionTracker.runSection, ExecutionTracker.resume, ok_bind] at hrun
          obtain ⟨tracker, hwait, hrun⟩ := hrun
          cases hrun
          exact h.simulateSemWait sem hwait
      | _ => exact h.congr ((states_runSection _ hrun).2 rfl)
  | _ => exact h.congr ((states_runSection _ hrun).2 rfl)

end Sections

end Thrille
