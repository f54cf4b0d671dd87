import Thrille.Serializer.Exclusion

namespace Thrille

inductive ObjectKind
  | mutex
  | cond
  | sem
  | barrier
  deriving DecidableEq, Repr

-- An initialisation, or a destruction, of an object.
structure Lifetime where
  kind : ObjectKind
  object : Addr
  destroy : Bool
  deriving DecidableEq, Repr

def Op.lifetime : Op → Option Lifetime
  | mutexInit lock => some ⟨.mutex, lock, false⟩
  | mutexDestroy lock => some ⟨.mutex, lock, true⟩
  | condInit cond => some ⟨.cond, cond, false⟩
  | condDestroy cond => some ⟨.cond, cond, true⟩
  | semInit sem _ => some ⟨.sem, sem, false⟩
  | semDestroy sem => some ⟨.sem, sem, true⟩
  | barrierInit barrier _ => some ⟨.barrier, barrier, false⟩
  | barrierDestroy barrier => some ⟨.barrier, barrier, true⟩
  | _ => none

def Pc.lifetime : Pc → Option Lifetime
  | enter _ op => op.lifetime
  | _ => none

-- Whether the latest event on an object was a destruction.
def LatestDestroy (past : List Lifetime) (kind : ObjectKind) (object : Addr) : Bool :=
  ((past.filter fun e => e.kind == kind && e.object == object).getLast?).any (·.destroy)

theorem latestDestroy_append (past : List Lifetime) (e : Lifetime) (kind : ObjectKind)
    (object : Addr) :
    LatestDestroy (past ++ [e]) kind object =
      if e.kind = kind ∧ e.object = object then e.destroy
      else LatestDestroy past kind object := by
  rw [LatestDestroy, List.filter_append]
  by_cases hsame : e.kind = kind ∧ e.object = object
  · simp [hsame]
  · have hfilter : (e.kind == kind && e.object == object) = false := by simpa using hsame
    rw [List.filter_singleton, hfilter, if_neg hsame]
    simp [LatestDestroy]

namespace ExecutionTracker

variable {self tr : ExecutionTracker} {t : ThrID} {eff : Effect}

def destroyed (self : ExecutionTracker) : ObjectKind → List Addr
  | .mutex => self.mutex_destroy
  | .cond => self.cond_destroy
  | .sem => self.sem_destroy
  | .barrier => self.barrier_destroy

-- What an event makes of the lists.
def lists (self : ExecutionTracker) : Option Lifetime → ObjectKind → List Addr
  | none => self.destroyed
  | some e => Function.update self.destroyed e.kind
      (if e.destroy then self.destroyed e.kind ++ [e.object]
        else (self.destroyed e.kind).filter (· != e.object))

theorem destroyed_mutexTrylock (lock : Addr) :
    (self.mutexTrylock t lock).2.destroyed = self.destroyed := by
  unfold mutexTrylock
  split <;> rfl

theorem destroyed_mutexUnlock (lock : Addr) :
    (self.mutexUnlock lock).2.destroyed = self.destroyed := by
  unfold mutexUnlock
  split <;> rfl

theorem destroyed_determineLockStatus (lock : Addr) :
    (self.determineLockStatus t lock).destroyed = self.destroyed := by
  unfold determineLockStatus
  split <;> rfl

theorem destroyed_determineSemaphoreStatus (sem : Addr) :
    (self.determineSemaphoreStatus t sem).destroyed = self.destroyed := by
  unfold determineSemaphoreStatus
  split <;> rfl

theorem destroyed_finalizeThread : (self.finalizeThread t).destroyed = self.destroyed := by
  unfold finalizeThread enableJoiningThread
  split <;> rfl

theorem destroyed_simulateMutexTrylock (lock : Addr) :
    (self.simulateMutexTrylock t lock).2.destroyed = self.destroyed := by
  have hkeep : (self.mutexTrylock t lock).2.destroyed = self.destroyed :=
    destroyed_mutexTrylock lock
  unfold simulateMutexTrylock
  dsimp only
  split
  · exact hkeep
  · exact hkeep

theorem destroyed_beforeBarrierWait (barrier : Addr)
    (h : self.beforeBarrierWait t barrier = .ok tr) : tr.destroyed = self.destroyed := by
  simp only [beforeBarrierWait, safe_assert_bind] at h
  obtain ⟨_, h⟩ := h
  split at h
  · cases h
  · split at h
    · simp only [safe_assert_bind] at h
      cases h.2.2
      rfl
    · cases h
      rfl

theorem destroyed_beforeJoin (target : ThrID) (h : self.beforeJoin t target = .ok tr) :
    tr.destroyed = self.destroyed := by
  simp only [beforeJoin, safe_assert_bind] at h
  obtain ⟨_, h⟩ := h
  split at h
  · cases h
    rfl
  · simp only [registerThreadJoin, safe_assert_bind] at h
    cases h.2
    rfl

theorem destroyed_simulateSemWait (sem : Addr) (h : self.simulateSemWait t sem = .ok tr) :
    tr.destroyed = self.destroyed := by
  simp only [simulateSemWait, safe_assert_bind, threadHasPassedSemaphore] at h
  cases h.2.2.2
  split <;> rfl

theorem destroyed_simulateCondWait (w : Wait) (h : self.simulateCondWait t w = .ok (tr, eff)) :
    tr.destroyed = self.destroyed := by
  simp only [simulateCondWait, safe_assert_bind] at h
  obtain ⟨_, _, h⟩ := h
  have hkeep : (self.mutexUnlock w.lock).2.destroyed = self.destroyed :=
    destroyed_mutexUnlock w.lock
  split at h <;> cases h
  · split
    · exact hkeep
    · exact hkeep
  · split
    · exact hkeep
    · exact hkeep

theorem destroyed_enter (ret_addr : Addr) (op : Op) (h : self.enter t ret_addr op = .ok (tr, eff)) :
    tr.destroyed = self.lists op.lifetime := by
  have hupdate : ∀ (kind : ObjectKind) (objects : List Addr) (new : ExecutionTracker),
      (∀ k, new.destroyed k = if k = kind then objects else self.destroyed k) →
      new.destroyed = Function.update self.destroyed kind objects := by
    intro kind objects new hnew
    funext k
    rw [hnew, Function.update_apply]
  cases op with
  | mutexLock lock =>
      simp only [enter, beforeMutexLock] at h
      split at h <;> cases h
      · rfl
      · exact destroyed_determineLockStatus lock
  | mutexUnlock lock => cases h; exact destroyed_mutexUnlock lock
  | mutexInit lock =>
      cases h
      exact hupdate .mutex _ _ fun k => by cases k <;> rfl
  | mutexDestroy lock =>
      simp only [enter] at h
      split at h <;> cases h
      · exact hupdate .mutex _ _ fun k => by cases k <;> rfl
      · exact hupdate .mutex _ _ fun k => by cases k <;> rfl
  | condInit cond =>
      cases h
      exact hupdate .cond _ _ fun k => by cases k <;> rfl
  | condDestroy cond =>
      cases h
      exact hupdate .cond _ _ fun k => by cases k <;> rfl
  | semInit sem value =>
      cases h
      exact hupdate .sem _ _ fun k => by cases k <;> rfl
  | semDestroy sem =>
      cases h
      exact hupdate .sem _ _ fun k => by cases k <;> rfl
  | barrierInit barrier count =>
      cases h
      exact hupdate .barrier _ _ fun k => by cases k <;> rfl
  | barrierDestroy barrier =>
      cases h
      exact hupdate .barrier _ _ fun k => by cases k <;> rfl
  | condSignal cond =>
      simp only [enter, beforeCond, safe_assert_bind] at h
      cases h.2
      rfl
  | condBroadcast cond =>
      simp only [enter, beforeCond, safe_assert_bind] at h
      cases h.2
      rfl
  | semWait sem =>
      simp only [enter, beforeSemWait, safe_assert_bind] at h
      cases h.2
      exact destroyed_determineSemaphoreStatus sem
  | semPost sem =>
      simp only [enter, simulateSemPost, safe_assert_bind] at h
      cases h.2
      rfl
  | barrierWait barrier =>
      simp only [enter, ok_bind] at h
      obtain ⟨tracker, hwait, h⟩ := h
      cases h
      exact destroyed_beforeBarrierWait barrier hwait
  | join target =>
      simp only [enter, ok_bind] at h
      obtain ⟨tracker, hjoin, h⟩ := h
      cases h
      exact destroyed_beforeJoin target hjoin
  | exit => cases h; exact destroyed_finalizeThread
  | threadReturn =>
      simp only [enter] at h
      split at h <;> cases h
      exact destroyed_finalizeThread
  | point p =>
      simp only [enter, thrillePoint, safe_assert_bind] at h
      cases h.2
      rfl
  | _ => cases h; rfl

theorem destroyed_runSection (pc : Pc) (h : self.runSection t pc = .ok (tr, eff)) :
    tr.destroyed = self.lists pc.lifetime := by
  cases pc with
  | enter ret_addr op => exact destroyed_enter ret_addr op h
  | originalLock lock => cases h; exact destroyed_mutexTrylock lock
  | afterUnlock ret_addr lock ret_val =>
      simp only [runSection, afterMutexUnlock] at h
      split at h <;> cases h <;> rfl
  | simulateWait w => exact destroyed_simulateCondWait w h
  | relock w =>
      simp only [runSection, beforeMutexLockInWait, safe_assert_bind] at h
      cases h.2
      exact destroyed_determineLockStatus w.lock
  | checkTimeout w =>
      simp only [runSection, checkTimeout] at h
      split at h <;> cases h <;> rfl
  | simulateSignal ret_addr cond isBroadcast =>
      simp only [runSection, wakeThreadWaitingOnCond] at h
      split at h
      · cases h
        rfl
      · split at h
        · split at h <;> cases h
          rfl
        · cases h
          rfl
  | handoff s target =>
      simp only [runSection, scheduleThreadWaitingOnCond, safe_assert_bind] at h
      cases h.2
      rfl
  | waitReady s target =>
      simp only [runSection, waitThreadReady] at h
      split at h
      · split at h <;> cases h <;> rfl
      · cases h
        rfl
  | resume k =>
      cases k with
      | lock lock => cases h; exact destroyed_mutexTrylock lock
      | relock w timedOut => cases h; exact destroyed_mutexTrylock w.lock
      | trylock lock => cases h; exact destroyed_simulateMutexTrylock lock
      | semWait sem =>
          simp only [runSection, resume, ok_bind] at h
          obtain ⟨tracker, hwait, h⟩ := h
          cases h
          exact destroyed_simulateSemWait sem hwait
      | _ => cases h; rfl
  | _ => cases h; rfl

theorem destroyed_recordScheduleInfo (target : ThrID) :
    (self.recordScheduleInfo t target).destroyed = self.destroyed := by
  unfold recordScheduleInfo
  split
  · rfl
  · split <;> rfl

theorem destroyed_wakeThread (target : ThrID) (h : self.wakeThread target = .ok tr) :
    tr.destroyed = self.destroyed := by
  unfold wakeThread at h
  split at h <;> cases h
  rfl

theorem destroyed_waitWakeThread (target : ThrID) (h : self.waitWakeThread target = .ok tr) :
    tr.destroyed = self.destroyed := by
  unfold waitWakeThread at h
  split at h <;> cases h
  rfl

theorem destroyed_launch (target : ThrID) (h : self.launch target = .ok tr) :
    tr.destroyed = self.destroyed := by
  unfold launch at h
  split at h
  · exact (destroyed_waitWakeThread target h).trans rfl
  · exact destroyed_wakeThread target h

theorem destroyed_afterSchedule (pc : Pc) : (self.afterSchedule t pc).destroyed = self.destroyed := by
  unfold afterSchedule
  split <;> rfl

-- An object is in its list exactly when it was destroyed last.
def Records (self : ExecutionTracker) (past : List Lifetime) : Prop :=
  ∀ kind object, (self.destroyed kind).contains object = LatestDestroy past kind object

theorem Records.lists {past : List Lifetime} (h : self.Records past) (event : Option Lifetime)
    (hlists : tr.destroyed = self.lists event) : tr.Records (past ++ event.toList) := by
  intro kind object
  rw [hlists]
  cases event with
  | none =>
      rw [Option.toList_none, List.append_nil]
      exact h kind object
  | some e =>
      rw [Option.toList_some, latestDestroy_append, ← h kind object, ExecutionTracker.lists]
      by_cases hkind : e.kind = kind
      · subst hkind
        rw [Function.update_self]
        by_cases hobject : e.object = object
        · subst hobject
          cases hdestroy : e.destroy <;> simp
        · cases hdestroy : e.destroy <;> simp [hobject, Ne.symm hobject]
      · rw [Function.update_of_ne (Ne.symm hkind), if_neg fun h => hkind h.1]

end ExecutionTracker

namespace System

variable {σ : Type} {v : Virtual σ} {s s' : System σ} {t : ThrID} {ret_addr : Addr} {op : Op}

theorem destroyed_launchThread (target : ThrID) (info : SchedPointInfo) :
    (s.launchThread v target info).tracker.destroyed = s.tracker.destroyed := by
  unfold launchThread
  dsimp only
  split
  · rfl
  · split
    · rfl
    · split
      · rename_i tracker hlaunch
        exact ExecutionTracker.destroyed_launch target hlaunch
      · rfl

theorem destroyed_schedule (info : SchedPointInfo) :
    (s.schedule v info).tracker.destroyed = s.tracker.destroyed := by
  unfold schedule
  split
  · dsimp only
    split
    · unfold deadlockCheck
      split <;> rfl
    · rw [destroyed_launchThread]
      exact ExecutionTracker.destroyed_recordScheduleInfo _
  · rw [destroyed_launchThread]
    exact ExecutionTracker.destroyed_recordScheduleInfo _

theorem destroyed_perform (pc : Pc) (eff : Effect) :
    (s.perform v t pc eff).tracker.destroyed = s.tracker.destroyed := by
  cases eff with
  | goto pc => rfl
  | created child pc => rfl
  | signalChoice info =>
      simp only [perform]
      split
      · rfl
      · split <;> rfl
  | signalled info target =>
      simp only [perform]
      split
      · rename_i tracker hwake
        exact ExecutionTracker.destroyed_waitWakeThread target hwake
      · rfl
  | schedule info r =>
      simp only [perform]
      split
      · exact destroyed_schedule info
      · rw [ExecutionTracker.destroyed_afterSchedule]
        exact destroyed_schedule info

-- A run together with the initialisations and destructions in it.
inductive History (v : Virtual σ) : System σ → List Lifetime → Prop
  | initial (scheduler : σ) (read_schedule : List DecisionInfo) :
      History v (System.initial scheduler read_schedule) []
  | step (s s' : System σ) (past : List Lifetime) (t : ThrID) (ret_addr : Addr) (op : Op)
      (hpast : History v s past) (hstep : s.step v t ret_addr op = some s') :
      History v s' (past ++ (s.pcs t).lifetime.toList)

-- Initialising and destroying never fail.
theorem lifetime_of_error {pc : Pc} {reason : Stop}
    (herror : s.tracker.runSection t pc = .error reason) : pc.lifetime = none := by
  cases pc with
  | enter ret_addr op =>
      cases op with
      | mutexDestroy lock =>
          simp only [ExecutionTracker.runSection, ExecutionTracker.enter] at herror
          split at herror <;> cases herror
      | _ => first | rfl | cases herror
  | _ => rfl

theorem runThread_records {past : List Lifetime} (h : s.tracker.Records past) :
    (s.runThread v t (s.pcs t)).tracker.Records (past ++ (s.pcs t).lifetime.toList) := by
  unfold runThread
  split
  · rename_i reason herror
    rw [lifetime_of_error herror, Option.toList_none, List.append_nil]
    exact h
  · rename_i tr eff hrun
    apply h.lists
    rw [destroyed_perform]
    exact ExecutionTracker.destroyed_runSection _ hrun

theorem History.records {past : List Lifetime} (h : History v s past) :
    s.tracker.Records past := by
  induction h with
  | initial scheduler read_schedule =>
      intro kind object
      cases kind <;> rfl
  | step s s' past t ret_addr op _ hstep ih =>
      obtain ⟨_, htransition⟩ := step_iff.mp hstep
      have hquiet (hnone : (s.pcs t).lifetime = none) (tr : ExecutionTracker)
          (hrecords : tr.Records past) : tr.Records (past ++ (s.pcs t).lifetime.toList) := by
        rw [hnone, Option.toList_none, List.append_nil]
        exact hrecords
      cases htransition with
      | asks ret_val hpc => exact hquiet (by rw [hpc]; rfl) _ ih
      | spawns addr child hpc => exact hquiet (by rw [hpc]; rfl) _ ih
      | starts hpc _ => exact hquiet (by rw [hpc]; rfl) _ ih
      | unlocks r hpc => exact hquiet (by rw [hpc]; rfl) _ ih
      | leaves r hpc _ => exact hquiet (by rw [hpc]; rfl) _ ih
      | resumes k n hpc _ => exact hquiet (by rw [hpc]; rfl) _ ih
      | wakes w n hpc _ => exact hquiet (by rw [hpc]; rfl) _ ih
      | runs _ _ _ => exact runThread_records ih

-- The events of a list of steps.
def lifetimes (v : Virtual σ) : System σ → List (ThrID × Addr × Op) → List Lifetime
  | _, [] => []
  | s, (t, ret_addr, op) :: steps =>
      (s.pcs t).lifetime.toList ++ (s.step v t ret_addr op).elim [] (lifetimes v · steps)

theorem History.run {past : List Lifetime} (steps : List (ThrID × Addr × Op))
    (h : History v s past) (hrun : s.run v steps = some s') :
    History v s' (past ++ lifetimes v s steps) := by
  induction steps generalizing s past with
  | nil =>
      cases hrun
      rw [lifetimes, List.append_nil]
      exact h
  | cons next steps ih =>
      obtain ⟨t, ret_addr, op⟩ := next
      obtain ⟨middle, hstep, hrest⟩ := Option.bind_eq_some_iff.mp hrun
      have hnext := ih (History.step s middle past t ret_addr op h hstep) hrest
      rw [List.append_assoc] at hnext
      have hstep' : s.step v t ret_addr op = some middle := hstep
      rw [lifetimes, hstep']
      exact hnext

end System

end Thrille
