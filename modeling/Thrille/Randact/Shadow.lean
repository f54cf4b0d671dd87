import Thrille.Serializer.Control

namespace Thrille

open ExecutionTracker

-- Two computations that end alike, with results that are related.
def Both {α β : Type} (R : α → β → Prop) : Except Stop α → Except Stop β → Prop
  | .ok a, .ok b => R a b
  | .error reason, .error reason' => reason' = reason
  | _, _ => False

namespace Both

variable {α β γ δ : Type} {R : α → β → Prop} {S : γ → δ → Prop}

theorem assert {f : Unit → Except Stop α} {g : Unit → Except Stop β} (cond : Bool) (stop : Stop)
    (h : cond = true → Both R (f ()) (g ())) :
    Both R (safe_assert cond stop >>= f) (safe_assert cond stop >>= g) := by
  cases cond with
  | false => exact rfl
  | true => exact h rfl

theorem bind {x : Except Stop α} {y : Except Stop β} {f : α → Except Stop γ}
    {g : β → Except Stop δ} (h : Both R x y) (hnext : ∀ a b, R a b → Both S (f a) (g b)) :
    Both S (x >>= f) (y >>= g) := by
  cases x with
  | error reason =>
      cases y with
      | error reason' => exact h
      | ok b => exact h.elim
  | ok a =>
      cases y with
      | error reason' => exact h.elim
      | ok b => exact hnext a b h

theorem of_ok {x : Except Stop α} {b : β} (h : Both R x (.ok b)) : ∃ a, x = .ok a ∧ R a b := by
  cases x with
  | error reason => exact h.elim
  | ok a => exact ⟨a, rfl, h⟩

end Both

-- Only the entries that have to do with mutexes are set.
def Entries.Bare (e : Entries) : Prop :=
  e = { enabled := e.enabled, lockReady := e.lockReady, lockWait := e.lockWait }

theorem Entries.Bare.acquired {e : Entries} (h : e.Bare) (lock : Addr) :
    (e.acquired lock).Bare := by
  unfold Entries.acquired
  split
  · rw [h]
    rfl
  · exact h

theorem Entries.Bare.released {e : Entries} (h : e.Bare) (lock : Addr) :
    (e.released lock).Bare := by
  unfold Entries.released
  split
  · rw [h]
    rfl
  · exact h

-- `self` with the enabled threads, the lock maps and the counters of `other`.
@[simps]
def ExecutionTracker.shade (self other : ExecutionTracker) : ExecutionTracker :=
  { self with
    enable_map := other.enable_map
    lock_ready_map := other.lock_ready_map
    lock_wait_map := other.lock_wait_map
    preemptions := other.preemptions
    nonpreemptions := other.nonpreemptions
    contextswitch := other.contextswitch }

-- `x` is `s` but for the threads of `P`, which are disabled where `D` holds; what the lock maps say
-- of those of `H` is not there yet.
structure Shadow (P H : ThrID → Prop) (D : Prop) (s x : ExecutionTracker) : Prop where
  same : s.shade x = x
  free : ∀ u, ¬P u → x.entries u = s.entries u
  bare : ∀ u, P u → (s.entries u).Bare
  shown : ∀ u, P u → ¬H u → (x.entries u).lockReady = (s.entries u).lockReady ∧
    (x.entries u).lockWait = (s.entries u).lockWait
  hidden : ∀ u, P u → H u → (x.entries u).lockReady = none ∧ (x.entries u).lockWait = none
  down : D → ∀ u, P u → (x.entries u).enabled = false

namespace Shadow

variable {P H : ThrID → Prop} {D : Prop} {s x s' x' : ExecutionTracker} {t : ThrID}

theorem bare_shade (h : Shadow P H D s x) (u : ThrID) (hu : P u) : (x.entries u).Bare := by
  have hbare := h.bare u hu
  rw [← h.same]
  have hfinished : s.finish_map u = false := congrArg Entries.finished hbare
  have hsemReady : s.sem_ready_map[u]? = none := congrArg Entries.semReady hbare
  have hsemWait : s.sem_wait_map[u]? = none := congrArg Entries.semWait hbare
  have hcond : s.cond_map[u]? = none := congrArg Entries.cond hbare
  have hbarrier : s.bt.thread_map[u]? = none := congrArg Entries.barrier hbare
  simp only [Entries.Bare, entries, shade_finish_map, shade_sem_ready_map, shade_sem_wait_map,
    shade_cond_map, shade_bt, hfinished, hsemReady, hsemWait, hcond, hbarrier]

-- An operation that does the same to the entries of one thread wherever it finds them.
theorem map (h : Shadow P H D s x) (F : ThrID → Entries → Entries) (hsame : s'.shade x' = x')
    (hs : ∀ u, s'.entries u = F u (s.entries u)) (hx : ∀ u, x'.entries u = F u (x.entries u))
    (hF : ∀ u, P u → (∀ e : Entries, e.Bare → F u e = e) ∨ ∃ lock, ∀ e, F u e = e.acquired lock) :
    Shadow P H D s' x' where
  same := hsame
  free u hu := by rw [hs, hx, h.free u hu]
  bare u hu := by
    rw [hs]
    rcases hF u hu with hkeep | ⟨lock, hacquired⟩
    · rw [hkeep _ (h.bare u hu)]
      exact h.bare u hu
    · rw [hacquired]
      exact (h.bare u hu).acquired lock
  shown u hu hshown := by
    rw [hs, hx]
    have hlocks := h.shown u hu hshown
    rcases hF u hu with hkeep | ⟨lock, hacquired⟩
    · rw [hkeep _ (h.bare u hu), hkeep _ (h.bare_shade u hu)]
      exact hlocks
    · rw [hacquired, hacquired]
      simp only [Entries.acquired, hlocks.1]
      split
      · exact ⟨rfl, rfl⟩
      · exact hlocks
  hidden u hu hhidden := by
    rw [hx]
    have hlocks := h.hidden u hu hhidden
    rcases hF u hu with hkeep | ⟨lock, hacquired⟩
    · rw [hkeep _ (h.bare_shade u hu)]
      exact hlocks
    · rw [hacquired]
      simp only [Entries.acquired, hlocks.1]
      split
      · contradiction
      · exact hlocks
  down hd u hu := by
    rw [hx]
    have hdown := h.down hd u hu
    rcases hF u hu with hkeep | ⟨lock, hacquired⟩
    · rw [hkeep _ (h.bare_shade u hu)]
      exact hdown
    · rw [hacquired, Entries.acquired]
      split
      · rfl
      · exact hdown

-- One that does not change the entries.
theorem keep (h : Shadow P H D s x) (hsame : s'.shade x' = x')
    (hs : ∀ u, s'.entries u = s.entries u) (hx : ∀ u, x'.entries u = x.entries u) :
    Shadow P H D s' x' :=
  h.map (fun _ e => e) hsame hs hx fun _ _ => Or.inl fun _ _ => rfl

theorem exists_shade (h : Shadow P H D s x) : ∃ y, x = s.shade y := ⟨x, h.same.symm⟩

-- One that changes the entries of a thread that is not postponed.
theorem update (h : Shadow P H D s x) (F : Entries → Entries) (ht : ¬P t)
    (hsame : s'.shade x' = x')
    (hs : ∀ u, s'.entries u = if t = u then F (s.entries u) else s.entries u)
    (hx : ∀ u, x'.entries u = if t = u then F (x.entries u) else x.entries u) :
    Shadow P H D s' x' := by
  refine h.map (fun u e => if t = u then F e else e) hsame hs hx fun u hu => Or.inl fun e _ => ?_
  refine if_neg ?_
  rintro rfl
  exact ht hu

theorem enableThread (h : Shadow P H D s x) (ht : ¬P t) :
    Shadow P H D (s.enableThread t) (x.enableThread t) :=
  h.update (fun e => { e with enabled := true }) ht
    (congrArg (fun y => y.enableThread t) h.same)
    (fun u => entries_enableThread s t u) fun u => entries_enableThread x t u

theorem disableThread (h : Shadow P H D s x) (ht : ¬P t) :
    Shadow P H D (s.disableThread t) (x.disableThread t) :=
  h.update (fun e => { e with enabled := false }) ht
    (congrArg (fun y => y.disableThread t) h.same)
    (fun u => entries_disableThread s t u) fun u => entries_disableThread x t u

theorem threadHasAcquiredLock (h : Shadow P H D s x) (ht : ¬P t) (lock : Addr) :
    Shadow P H D (s.threadHasAcquiredLock t lock) (x.threadHasAcquiredLock t lock) := by
  refine h.map (fun u e => (if t = u then { e with lockReady := none } else e).acquired lock)
    (congrArg (fun y => y.threadHasAcquiredLock t lock) h.same)
    (fun u => entries_threadHasAcquiredLock s t u lock)
    (fun u => entries_threadHasAcquiredLock x t u lock) fun u hu => Or.inr ⟨lock, fun e => ?_⟩
  rw [if_neg]
  rintro rfl
  exact ht hu

-- The release of a mutex enables threads, so it must not find a postponed one that has to stay
-- disabled.
theorem threadHasReleasedLock (h : Shadow P H D s x) (lock : Addr)
    (hclear : D → ∀ u, P u → (x.entries u).lockWait ≠ some lock) :
    Shadow P H D (s.threadHasReleasedLock lock) (x.threadHasReleasedLock lock) where
  same := congrArg (fun y => y.threadHasReleasedLock lock) h.same
  free u hu := by
    rw [entries_threadHasReleasedLock, entries_threadHasReleasedLock, h.free u hu]
  bare u hu := by
    rw [entries_threadHasReleasedLock]
    exact (h.bare u hu).released lock
  shown u hu hshown := by
    have hlocks := h.shown u hu hshown
    simp only [entries_threadHasReleasedLock, Entries.released, hlocks.2]
    split
    · exact ⟨rfl, rfl⟩
    · exact hlocks
  hidden u hu hhidden := by
    have hlocks := h.hidden u hu hhidden
    simp only [entries_threadHasReleasedLock, Entries.released, hlocks.2]
    split
    · contradiction
    · exact hlocks
  down hd u hu := by
    rw [entries_threadHasReleasedLock, Entries.released, if_neg (hclear hd u hu)]
    exact h.down hd u hu

theorem mutexTrylock (h : Shadow P H D s x) (lock : Addr) :
    (x.mutexTrylock t lock).1 = (s.mutexTrylock t lock).1 ∧
      Shadow P H D (s.mutexTrylock t lock).2 (x.mutexTrylock t lock).2 := by
  obtain ⟨y, rfl⟩ := h.exists_shade
  simp only [ExecutionTracker.mutexTrylock, shade_mutexes]
  split
  · exact ⟨rfl, h.keep rfl (fun _ => rfl) fun _ => rfl⟩
  · exact ⟨rfl, h⟩
  · exact ⟨rfl, h⟩

theorem mutexUnlock (h : Shadow P H D s x) (lock : Addr) :
    (x.mutexUnlock lock).1 = (s.mutexUnlock lock).1 ∧
      Shadow P H D (s.mutexUnlock lock).2 (x.mutexUnlock lock).2 := by
  obtain ⟨y, rfl⟩ := h.exists_shade
  simp only [ExecutionTracker.mutexUnlock, shade_mutexes]
  split
  · exact ⟨rfl, h⟩
  · exact ⟨rfl, h.keep rfl (fun _ => rfl) fun _ => rfl⟩

-- What the state of a mutex makes of the entries of a thread that comes to it.
def lockStatus (lock : Addr) (m : MutexState) (e : Entries) : Entries :=
  match m with
  | .held _ => { e with enabled := false, lockWait := some lock }
  | _ => { e with enabled := true, lockReady := some lock }

theorem determineLockStatus (h : Shadow P H D s x) (ht : ¬P t) (lock : Addr) :
    Shadow P H D (s.determineLockStatus t lock) (x.determineLockStatus t lock) := by
  have hs (u : ThrID) := entries_determineLockStatus s t u lock
  have hx (u : ThrID) := entries_determineLockStatus x t u lock
  have hmutexes : x.mutexes lock = s.mutexes lock := by rw [← h.same, shade_mutexes]
  rw [hmutexes] at hx
  refine h.update (lockStatus lock (s.mutexes lock)) ht ?_ hs hx
  simp only [ExecutionTracker.determineLockStatus, hmutexes]
  split
  · exact congrArg (fun y => { y.disableThread t with
      lock_wait_map := y.lock_wait_map.insert t lock }) h.same
  · exact congrArg (fun y => { y.enableThread t with
      lock_ready_map := y.lock_ready_map.insert t lock }) h.same

theorem simulateMutexLock (h : Shadow P H D s x) (ht : ¬P t) (lock : Addr) :
    (x.simulateMutexLock t lock).1 = (s.simulateMutexLock t lock).1 ∧
      Shadow P H D (s.simulateMutexLock t lock).2 (x.simulateMutexLock t lock).2 :=
  (h.threadHasAcquiredLock ht lock).mutexTrylock lock

theorem simulateMutexTrylock (h : Shadow P H D s x) (ht : ¬P t) (lock : Addr) :
    (x.simulateMutexTrylock t lock).1 = (s.simulateMutexTrylock t lock).1 ∧
      Shadow P H D (s.simulateMutexTrylock t lock).2 (x.simulateMutexTrylock t lock).2 := by
  obtain ⟨hresult, hnext⟩ := h.mutexTrylock (t := t) lock
  simp only [ExecutionTracker.simulateMutexTrylock, hresult]
  split
  · exact ⟨rfl, hnext.threadHasAcquiredLock ht lock⟩
  · exact ⟨rfl, hnext⟩

theorem determineSemaphoreStatus (h : Shadow P H D s x) (ht : ¬P t) (sem : Addr) :
    Shadow P H D (s.determineSemaphoreStatus t sem) (x.determineSemaphoreStatus t sem) := by
  have hs (u : ThrID) := entries_determineSemaphoreStatus s t u sem
  have hx (u : ThrID) := entries_determineSemaphoreStatus x t u sem
  have hsem : x.semaphores sem = s.semaphores sem := by rw [← h.same, shade_semaphores]
  rw [hsem] at hx
  refine h.update (fun e => if 0 < s.semaphores sem then
    { e with enabled := true, semReady := some sem }
    else { e with enabled := false, semWait := some sem }) ht ?_ hs hx
  simp only [ExecutionTracker.determineSemaphoreStatus, hsem]
  split
  · exact congrArg (fun y => { y.enableThread t with
      sem_ready_map := y.sem_ready_map.insert t sem }) h.same
  · exact congrArg (fun y => { y.disableThread t with
      sem_wait_map := y.sem_wait_map.insert t sem }) h.same

-- The loops over the maps of the semaphores and barriers find no postponed thread.
theorem semaphoreIsPosted (h : Shadow P H D s x) (sem : Addr) :
    Shadow P H D (s.semaphoreIsPosted sem) (x.semaphoreIsPosted sem) := by
  obtain ⟨y, rfl⟩ := h.exists_shade
  refine h.map (fun _ e => e.posted sem) rfl (fun u => entries_semaphoreIsPosted s u sem)
    (fun u => entries_semaphoreIsPosted _ u sem) fun u _ => Or.inl fun e he => ?_
  rw [he]
  rfl

theorem semaphoreIsDrained (h : Shadow P H D s x) (sem : Addr) :
    Shadow P H D (s.semaphoreIsDrained sem) (x.semaphoreIsDrained sem) := by
  obtain ⟨y, rfl⟩ := h.exists_shade
  refine h.map (fun _ e => e.drained sem) rfl (fun u => entries_semaphoreIsDrained s u sem)
    (fun u => entries_semaphoreIsDrained _ u sem) fun u _ => Or.inl fun e he => ?_
  rw [he]
  rfl

theorem clearSemReady (h : Shadow P H D s x) (ht : ¬P t) :
    Shadow P H D (s.clearSemReady t) (x.clearSemReady t) :=
  h.update (fun e => { e with semReady := none }) ht
    (congrArg (fun y => y.clearSemReady t) h.same)
    (fun u => entries_clearSemReady s t u) fun u => entries_clearSemReady x t u

theorem simulateSemWait (h : Shadow P H D s x) (ht : ¬P t) (sem : Addr) :
    Both (Shadow P H D) (s.simulateSemWait t sem) (x.simulateSemWait t sem) := by
  obtain ⟨y, rfl⟩ := h.exists_shade
  unfold ExecutionTracker.simulateSemWait
  simp only [shade_semaphores, shade_sem_destroy]
  refine Both.assert _ _ fun _ => Both.assert _ _ fun _ => ?_
  have hwait : Shadow P H D (s.semWait sem) ((s.shade y).semWait sem) :=
    h.keep rfl (fun _ => rfl) fun _ => rfl
  have hclear := hwait.clearSemReady ht
  unfold threadHasPassedSemaphore
  refine Both.assert _ _ fun _ => ?_
  show Shadow P H D (if ((s.semWait sem).clearSemReady t).semaphores sem = 0 then
      ((s.semWait sem).clearSemReady t).semaphoreIsDrained sem else (s.semWait sem).clearSemReady t)
    (if ((s.semWait sem).clearSemReady t).semaphores sem = 0 then
      (((s.shade y).semWait sem).clearSemReady t).semaphoreIsDrained sem
      else ((s.shade y).semWait sem).clearSemReady t)
  split
  · exact hclear.semaphoreIsDrained sem
  · exact hclear

theorem beforeBarrierWait (h : Shadow P H D s x) (ht : ¬P t) (barrier : Addr) :
    Both (Shadow P H D) (s.beforeBarrierWait t barrier) (x.beforeBarrierWait t barrier) := by
  -- a thread that waits on a barrier is not postponed
  have hwaiting : (s.bt.getThreadsWaitingOnBarrier barrier).all (fun u => !x.isEnabled u) =
      (s.bt.getThreadsWaitingOnBarrier barrier).all fun u => !s.isEnabled u := by
    rw [Bool.eq_iff_iff, List.all_eq_true, List.all_eq_true]
    refine forall₂_congr fun u hu => ?_
    have hat : (s.entries u).barrier = some barrier := (PtrMap.mem_threadsAt _ _ _).mp hu
    have hfree : ¬P u := by
      intro hpaused
      rw [h.bare u hpaused] at hat
      cases hat
    have hsame : x.isEnabled u = s.isEnabled u := congrArg Entries.enabled (h.free u hfree)
    rw [hsame]
  obtain ⟨y, rfl⟩ := h.exists_shade
  unfold ExecutionTracker.beforeBarrierWait
  simp only [shade_barrier_destroy, shade_bt]
  refine Both.assert _ _ fun _ => ?_
  split
  · exact rfl
  · split
    · rw [hwaiting]
      refine Both.assert _ _ fun _ => Both.assert _ _ fun _ => ?_
      refine h.map (fun u e => if t = u then { e.opened barrier with enabled := true }
        else e.opened barrier) rfl (fun u => entries_openBarrier s t u barrier)
        (fun u => entries_openBarrier _ t u barrier) fun u hu => Or.inl fun e he => ?_
      rw [if_neg]
      · rw [he]
        rfl
      · rintro rfl
        exact ht hu
    · exact h.update (fun e => { e with enabled := false, barrier := some barrier }) ht rfl
        (fun u => entries_waitOnBarrier s t u barrier) fun u => entries_waitOnBarrier _ t u barrier

theorem beforeJoin (h : Shadow P H D s x) (ht : ¬P t) (target : ThrID) :
    Both (Shadow P H D) (s.beforeJoin t target) (x.beforeJoin t target) := by
  have henabled := h.enableThread ht
  have hdisabled := h.disableThread ht
  obtain ⟨y, rfl⟩ := h.exists_shade
  have hsame : (s.shade y).threadIsFinished target = s.threadIsFinished target := rfl
  unfold ExecutionTracker.beforeJoin
  simp only [shade_sem_map, hsame]
  refine Both.assert _ _ fun _ => ?_
  by_cases hfinished : s.threadIsFinished target = true
  · rw [if_pos hfinished, if_pos hfinished]
    exact henabled
  · rw [if_neg hfinished, if_neg hfinished]
    unfold registerThreadJoin
    refine Both.assert _ _ fun _ => ?_
    exact hdisabled.keep rfl (fun _ => rfl) fun _ => rfl

-- The thread that joins the one that finishes is not postponed.
theorem finalizeThread (h : Shadow P H D s x) (ht : ¬P t)
    (hjoin : ∀ u, s.join_map t = some u → ¬P u) :
    Shadow P H D (s.finalizeThread t) (x.finalizeThread t) := by
  have hfinished : Shadow P H D ((s.disableThread t).setFinished t)
      ((x.disableThread t).setFinished t) :=
    (h.disableThread ht).update (fun e => { e with finished := true }) ht
      (congrArg (fun y => (y.disableThread t).setFinished t) h.same)
      (fun u => entries_setFinished _ t u) fun u => entries_setFinished _ t u
  obtain ⟨y, rfl⟩ := h.exists_shade
  simp only [ExecutionTracker.finalizeThread, enableJoiningThread]
  cases hjoiner : s.join_map t with
  | none =>
      have hs : ((s.disableThread t).setFinished t).join_map t = none := hjoiner
      have hx : (((s.shade y).disableThread t).setFinished t).join_map t = none := hjoiner
      simp only [hs, hx]
      exact hfinished
  | some joiner =>
      have hs : ((s.disableThread t).setFinished t).join_map t = some joiner := hjoiner
      have hx : (((s.shade y).disableThread t).setFinished t).join_map t = some joiner := hjoiner
      simp only [hs, hx]
      exact hfinished.enableThread (hjoin joiner hjoiner)

theorem initializeThreadData (h : Shadow P H D s x) {child : ThrID} (hchild : ¬P child) :
    Shadow P H D (s.initializeThreadData child) (x.initializeThreadData child) :=
  h.update (fun e => { e with
      enabled := true, finished := false, lockReady := none, lockWait := none, semReady := none,
      semWait := none, cond := none }) hchild
    (congrArg (fun y => y.initializeThreadData child) h.same)
    (fun u => entries_initializeThreadData s child u)
    fun u => entries_initializeThreadData x child u

theorem recordScheduleInfo (h : Shadow P H D s x) (myself target : ThrID) :
    Shadow P H D (s.recordScheduleInfo myself target) (x.recordScheduleInfo myself target) := by
  have hrecord (y : ExecutionTracker) : ∃ a b c, y.recordScheduleInfo myself target =
      { y with preemptions := a, nonpreemptions := b, contextswitch := c } := by
    unfold ExecutionTracker.recordScheduleInfo
    split
    · exact ⟨_, _, _, rfl⟩
    · split
      · exact ⟨_, _, _, rfl⟩
      · exact ⟨_, _, _, rfl⟩
  obtain ⟨a, b, c, hs⟩ := hrecord s
  obtain ⟨a', b', c', hx⟩ := hrecord x
  rw [hs, hx]
  exact h.keep (congrArg (fun y => { y with
    preemptions := a', nonpreemptions := b', contextswitch := c' }) h.same) (fun _ => rfl)
    fun _ => rfl

theorem wakeThread (h : Shadow P H D s x) (target : ThrID) :
    Both (Shadow P H D) (s.wakeThread target) (x.wakeThread target) := by
  obtain ⟨y, rfl⟩ := h.exists_shade
  simp only [ExecutionTracker.wakeThread, shade_sem_map]
  split
  · exact h.keep rfl (fun _ => rfl) fun _ => rfl
  · exact rfl

theorem waitWakeThread (h : Shadow P H D s x) (target : ThrID) :
    Both (Shadow P H D) (s.waitWakeThread target) (x.waitWakeThread target) := by
  obtain ⟨y, rfl⟩ := h.exists_shade
  simp only [ExecutionTracker.waitWakeThread, shade_wait_sem_map]
  split
  · exact h.keep rfl (fun _ => rfl) fun _ => rfl
  · exact rfl

theorem setSignalled (h : Shadow P H D s x) (target : ThrID) (value : Bool) :
    Shadow P H D (s.setSignalled target value) (x.setSignalled target value) :=
  h.keep (congrArg (fun y => y.setSignalled target value) h.same) (fun _ => rfl) fun _ => rfl

theorem launch (h : Shadow P H D s x) (target : ThrID) :
    Both (Shadow P H D) (s.launch target) (x.launch target) := by
  have hsignalled := h.setSignalled target false
  have hmap : x.cond_map = s.cond_map := by rw [← h.same, shade_cond_map]
  unfold ExecutionTracker.launch
  rw [hmap]
  split
  · exact hsignalled.waitWakeThread target
  · exact h.wakeThread target

end Shadow

-- The same effect, but for the enabled threads that a schedule point shows.
def Effect.Like : Effect → Effect → Prop
  | schedule info r, schedule info' r' => info'.thread = info.thread ∧ r' = r
  | eff, eff' => eff' = eff

-- The lock of whose release a section tells the threads that wait for it.
def Pc.tells : Pc → Option Addr
  | afterUnlock _ lock _ => some lock
  | simulateWait w => some w.lock
  | _ => none

-- The sections of a thread that may have been postponed in the same operation.
def Pc.relocked : Pc → Bool
  | signalReady _ => true
  | checkTimeout _ => true
  | _ => false

namespace Shadow

variable {P H : ThrID → Prop} {D : Prop} {s x : ExecutionTracker} {t : ThrID}

def Ends (P H : ThrID → Prop) (D : Prop) (a b : ExecutionTracker × Effect) : Prop :=
  Shadow P H D a.1 b.1 ∧ a.2.Like b.2

theorem goto (h : Shadow P H D s x) (pc : Pc) : Both (Ends P H D) (s.goto pc) (x.goto pc) :=
  ⟨h, rfl⟩

theorem schedPoint (h : Shadow P H D s x) (ret_addr : Addr) (type : String) (isYield : Bool)
    (r : Rest) : Both (Ends P H D) (s.schedPoint ret_addr type t isYield r)
      (x.schedPoint ret_addr type t isYield r) :=
  ⟨h, rfl, rfl⟩

theorem simulateCondWait (h : Shadow P H D s x) (ht : ¬P t) (w : Wait)
    (htells : D → ∀ u, P u → (x.entries u).lockWait ≠ some w.lock) :
    Both (Ends P H D) (s.simulateCondWait t w) (x.simulateCondWait t w) := by
  obtain ⟨hresult, hunlock⟩ := h.mutexUnlock w.lock
  have hentries (u : ThrID) : (x.mutexUnlock w.lock).2.entries u = x.entries u := by
    unfold ExecutionTracker.mutexUnlock
    split
    · rfl
    · rfl
  have hrelease := hunlock.threadHasReleasedLock w.lock fun hd u hu => by
    rw [hentries]
    exact htells hd u hu
  have hfinished : (x.mutexUnlock w.lock).2.threadIsFinished t =
      (s.mutexUnlock w.lock).2.threadIsFinished t := by
    rw [← hunlock.same]
    rfl
  have hdestroy : x.cond_destroy = s.cond_destroy := by rw [← h.same, shade_cond_destroy]
  unfold ExecutionTracker.simulateCondWait
  simp only [hdestroy, hresult, hfinished]
  refine Both.assert _ _ fun _ => Both.assert _ _ fun _ => ?_
  have htold : Shadow P H D
      (if (s.mutexUnlock w.lock).2.threadIsFinished t = true then (s.mutexUnlock w.lock).2
        else (s.mutexUnlock w.lock).2.threadHasReleasedLock w.lock)
      (if (s.mutexUnlock w.lock).2.threadIsFinished t = true then (x.mutexUnlock w.lock).2
        else (x.mutexUnlock w.lock).2.threadHasReleasedLock w.lock) := by
    split
    · exact hunlock
    · exact hrelease
  have hset := htold.update (fun e => { e with cond := some w.cond }) ht
    (congrArg (fun y => y.setCond t w.cond) htold.same) (fun u => entries_setCond _ t u w.cond)
    fun u => entries_setCond _ t u w.cond
  cases w.timed with
  | false => exact hset.schedPoint _ _ _ _
  | true => exact hset.schedPoint _ _ _ _

theorem enter (h : Shadow P H D s x) (ht : ¬P t) (ret_addr : Addr) (op : Op)
    (hjoin : ∀ u, s.join_map t = some u → ¬P u) :
    Both (Ends P H D) (s.enter t ret_addr op) (x.enter t ret_addr op) := by
  have henabled := h.enableThread ht
  have hdisabled := h.disableThread ht
  have hfinalized := h.finalizeThread ht hjoin
  have hisEnabled : x.isEnabled t = s.isEnabled t := congrArg Entries.enabled (h.free t ht)
  have hunlock (lock : Addr) := h.mutexUnlock lock
  have hlock (lock : Addr) := h.determineLockStatus ht lock
  have hsem (sem : Addr) := h.determineSemaphoreStatus ht sem
  have hbarrier (barrier : Addr) := h.beforeBarrierWait ht barrier
  have hjoins (target : ThrID) := h.beforeJoin ht target
  obtain ⟨y, rfl⟩ := h.exists_shade
  cases op with
  | mutexLock lock =>
      show Both _ (if s.finish_map t = true then s.goto (.originalLock lock) else _)
        (if s.finish_map t = true then (s.shade y).goto (.originalLock lock) else _)
      split
      · exact h.goto _
      · exact (hlock lock).schedPoint _ _ _ _
  | mutexTrylock lock => exact henabled.schedPoint _ _ _ _
  | mutexUnlock lock =>
      obtain ⟨hresult, hnext⟩ := hunlock lock
      simp only [ExecutionTracker.enter, hresult]
      exact hnext.goto _
  | mutexInit lock => exact ⟨h.keep rfl (fun _ => rfl) fun _ => rfl, rfl⟩
  | mutexDestroy lock =>
      simp only [ExecutionTracker.enter, shade_mutexes]
      split
      · exact ⟨h.keep rfl (fun _ => rfl) fun _ => rfl, rfl⟩
      · exact ⟨h.keep rfl (fun _ => rfl) fun _ => rfl, rfl⟩
  | condWait cond lock => exact hdisabled.goto _
  | condTimedwait cond lock => exact henabled.goto _
  | condSignal cond => exact Both.assert _ _ fun _ => h.goto _
  | condBroadcast cond => exact Both.assert _ _ fun _ => h.goto _
  | condInit cond => exact ⟨h.keep rfl (fun _ => rfl) fun _ => rfl, rfl⟩
  | condDestroy cond => exact ⟨h.keep rfl (fun _ => rfl) fun _ => rfl, rfl⟩
  | semWait sem => exact Both.assert _ _ fun _ => (hsem sem).schedPoint _ _ _ _
  | semPost sem =>
      have hpost : Shadow P H D (s.semPost sem) ((s.shade y).semPost sem) :=
        h.keep rfl (fun _ => rfl) fun _ => rfl
      exact Both.assert _ _ fun _ => (hpost.semaphoreIsPosted sem).schedPoint _ _ _ _
  | semInit sem value => exact ⟨h.keep rfl (fun _ => rfl) fun _ => rfl, rfl⟩
  | semDestroy sem => exact ⟨h.keep rfl (fun _ => rfl) fun _ => rfl, rfl⟩
  | barrierWait barrier => exact (hbarrier barrier).bind fun _ _ hnext => hnext.schedPoint _ _ _ _
  | barrierInit barrier count =>
      have hthreads (tr : ExecutionTracker) (u : ThrID) :
          (tr.bt.initBarrier barrier count).thread_map[u]? = tr.bt.thread_map[u]? := by
        unfold BarrierTracker.initBarrier
        split
        · rfl
        · rfl
      refine ⟨h.keep rfl (fun u => ?_) fun u => ?_, rfl⟩
      · simp only [entries, hthreads]
      · simp only [entries, hthreads]
  | barrierDestroy barrier => exact ⟨h.keep rfl (fun _ => rfl) fun _ => rfl, rfl⟩
  | create ret_val =>
      have hnext : Shadow P H D s.getNextTID.2 (s.shade y).getNextTID.2 :=
        h.keep rfl (fun _ => rfl) fun _ => rfl
      exact hnext.goto _
  | join target => exact (hjoins target).bind fun _ _ hnext => hnext.schedPoint _ _ _ _
  | exit => exact hfinalized.schedPoint _ _ _ _
  | threadReturn =>
      simp only [ExecutionTracker.enter]
      split
      · exact rfl
      · exact hfinalized.schedPoint _ _ _ _
  | point p =>
      simp only [ExecutionTracker.enter, thrillePoint, hisEnabled]
      exact Both.assert _ _ fun _ => h.schedPoint _ _ _ _

theorem resume (h : Shadow P H D s x) (ht : ¬P t) (k : Pending) :
    Both (Ends P H D) (s.resume t k) (x.resume t k) := by
  cases k with
  | lock lock =>
      obtain ⟨hresult, hnext⟩ := h.simulateMutexLock ht lock
      simp only [ExecutionTracker.resume, hresult]
      exact hnext.goto _
  | relock w timedOut => exact (h.simulateMutexLock ht w.lock).2.goto _
  | trylock lock =>
      obtain ⟨hresult, hnext⟩ := h.simulateMutexTrylock ht lock
      simp only [ExecutionTracker.resume, hresult]
      exact hnext.goto _
  | semWait sem => exact (h.simulateSemWait ht sem).bind fun _ _ hnext => hnext.goto _
  | _ => exact h.goto _

-- A section does the same to both, and what it does to other threads does not depend on whether
-- they are postponed.
theorem runSection (h : Shadow P H D s x) (pc : Pc) (hself : pc.relocked = true ∨ ¬P t)
    (hjoin : ∀ u, s.join_map t = some u → ¬P u)
    (hchild : ∀ ret_addr child ret_val, pc = .beforeCreate ret_addr child ret_val → ¬P child)
    (htells : ∀ lock, pc.tells = some lock → D → ∀ u, P u → (x.entries u).lockWait ≠ some lock) :
    Both (Ends P H D) (s.runSection t pc) (x.runSection t pc) := by
  have hfree (hpc : pc.relocked = false) : ¬P t := by
    rcases hself with hself | ht
    · rw [hpc] at hself
      cases hself
    · exact ht
  have hshade := h.exists_shade
  cases pc with
  | enter ret_addr op => exact h.enter (hfree rfl) ret_addr op hjoin
  | originalLock lock =>
      obtain ⟨hresult, hnext⟩ := h.mutexTrylock (t := t) lock
      simp only [ExecutionTracker.runSection, hresult]
      exact hnext.goto _
  | afterUnlock ret_addr lock ret_val =>
      have hrelease := h.threadHasReleasedLock lock (htells lock rfl)
      obtain ⟨y, rfl⟩ := hshade
      show Both _ (if s.finish_map t = true then s.goto (.program ret_val) else _)
        (if s.finish_map t = true then (s.shade y).goto (.program ret_val) else _)
      split
      · exact h.goto _
      · exact hrelease.schedPoint _ _ _ _
  | simulateWait w => exact h.simulateCondWait (hfree rfl) w (htells w.lock rfl)
  | woken w =>
      exact (h.update (fun e => { e with cond := none }) (hfree rfl)
        (congrArg (fun y => y.clearCond t) h.same) (fun u => entries_clearCond s t u)
        fun u => entries_clearCond x t u).goto _
  | relock w =>
      have hlock := h.determineLockStatus (hfree rfl) w.lock
      obtain ⟨y, rfl⟩ := hshade
      exact Both.assert _ _ fun _ => hlock.goto _
  | signalReady w =>
      exact ⟨h.keep (congrArg (fun y => y.signalThreadReady t) h.same) (fun _ => rfl)
        fun _ => rfl, rfl⟩
  | checkTimeout w =>
      obtain ⟨y, rfl⟩ := hshade
      show Both _ (if s.was_signalled_map t = true then _ else _)
        (if s.was_signalled_map t = true then _ else _)
      split
      · exact h.goto _
      · exact h.schedPoint _ _ _ _
  | simulateSignal ret_addr cond isBroadcast =>
      obtain ⟨y, rfl⟩ := hshade
      simp only [ExecutionTracker.runSection, wakeThreadWaitingOnCond, shade_cond_map]
      split
      · exact h.goto _
      · split
        · split
          · exact h.goto _
          · exact rfl
        · exact ⟨h, rfl⟩
  | handoff info u =>
      refine Both.assert _ _ fun _ => ⟨?_, rfl⟩
      exact h.keep (congrArg (fun y => y.setWaitReady u false) h.same) (fun _ => rfl) fun _ => rfl
  | waitReady info u =>
      obtain ⟨y, rfl⟩ := hshade
      simp only [ExecutionTracker.runSection, waitThreadReady, shade_cond_map]
      split
      · split
        · exact h.goto _
        · exact h.goto _
      · exact h.goto _
  | signalDone ret_addr isBroadcast => exact (h.enableThread (hfree rfl)).schedPoint _ _ _ _
  | beforeCreate ret_addr child ret_val =>
      exact ⟨h.initializeThreadData (hchild ret_addr child ret_val rfl), rfl⟩
  | afterCreate ret_addr ret_val => exact h.schedPoint _ _ _ _
  | resume k => exact h.resume (hfree rfl) k
  | _ => exact h.goto _

end Shadow

end Thrille
