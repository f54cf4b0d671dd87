import Thrille.Serializer.Consistent

namespace Thrille

open ExecutionTracker

-- The stages after a section of thread `t`.
def Effect.stages (t : ThrID) (st : ThrID → Stage) : Effect → ThrID → Stage
  | goto pc => Function.update st t pc.stage
  | created child pc => Function.update (Function.update st child (.pending .start)) t pc.stage
  | signalChoice _ => Function.update st t .active
  | signalled _ _ => Function.update st t .active
  | schedule _ r => Function.update st t r.stage

namespace Consistent

variable {tr tr' : ExecutionTracker} {st : ThrID → Stage} {t : ThrID} {eff : Effect}

section Mutexes

variable (lock : Addr)

-- An idle thread turns to a mutex; `k` is what it will be pending on.
theorem determineLockStatus (hc : Consistent tr st) (k : Pending) (b : Bool)
    (he : tr.entries t = { enabled := b })
    (hk : ∀ e, (e = { enabled := true, lockReady := some lock } ∨
      e = { enabled := false, lockWait := some lock }) → k.Fits tr.finish_map e)
    (hold : ∀ x, st t ≠ .pending (.join x)) (hnew : ∀ x, k ≠ .join x)
    (hborn : st t ≠ .unborn) :
    Consistent (tr.determineLockStatus t lock) (Function.update st t (.pending k)) := by
  have hentries (u : ThrID) := entries_determineLockStatus tr t u lock
  refine hc.move (.pending k) ?_ ?_ ?_ ?_ (fun u hu => ?_) hold (fun x h => ?_) hborn nofun
  · unfold ExecutionTracker.determineLockStatus
    split <;> rfl
  · unfold ExecutionTracker.determineLockStatus
    split <;> rfl
  · unfold ExecutionTracker.determineLockStatus
    split <;> rfl
  · apply hk
    rw [hentries, if_pos rfl, he]
    split
    · exact Or.inr rfl
    · exact Or.inl rfl
  · rw [hentries, if_neg (Ne.symm hu)]
    exact hc.fits u
  · exact hnew x (Stage.pending.inj h)

-- A thread that may take the mutex takes it.
theorem threadHasAcquiredLock (hc : Consistent tr st)
    (he : { tr.entries t with lockReady := none } = ({ enabled := true } : Entries))
    (hothers : ∀ u, u ≠ t → ∀ k, st u ≠ .resumed k)
    (hold : ∀ x, st t ≠ .pending (.join x)) (hborn : st t ≠ .unborn) :
    Consistent (tr.threadHasAcquiredLock t lock) (Function.update st t .active) := by
  have hentries (u : ThrID) := entries_threadHasAcquiredLock tr t u lock
  refine hc.move .active rfl rfl rfl ?_ (fun u hu => ?_) hold nofun hborn nofun
  · rw [hentries, if_pos rfl, he]
    rfl
  · rw [hentries, if_neg (Ne.symm hu)]
    exact (hc.fits u).acquired (hothers u hu) lock

theorem threadHasReleasedLock (hc : Consistent tr st) :
    Consistent (tr.threadHasReleasedLock lock) st where
  fits u := by
    rw [entries_threadHasReleasedLock]
    exact (hc.fits u).released lock
  joins := hc.joins
  born := hc.born
  targets := hc.targets

theorem mutexTrylock (hc : Consistent tr st) : Consistent (tr.mutexTrylock t lock).2 st := by
  unfold ExecutionTracker.mutexTrylock
  split <;> exact hc.same rfl rfl rfl fun _ => rfl

theorem mutexUnlock (hc : Consistent tr st) : Consistent (tr.mutexUnlock lock).2 st := by
  unfold ExecutionTracker.mutexUnlock
  split <;> exact hc.same rfl rfl rfl fun _ => rfl

end Mutexes

section Semaphores

variable (sem : Addr)

theorem determineSemaphoreStatus (hc : Consistent tr st) (hst : st t = .active) :
    Consistent (tr.determineSemaphoreStatus t sem)
      (Function.update st t (.pending (.semWait sem))) := by
  have he : tr.entries t = { enabled := true } := by
    have hfit := hc.fits t
    rwa [hst] at hfit
  have hentries (u : ThrID) := entries_determineSemaphoreStatus tr t u sem
  refine hc.move (.pending (.semWait sem)) ?_ ?_ ?_ ?_ (fun u hu => ?_) (by simp [hst]) nofun
    (by simp [hst]) nofun
  · unfold ExecutionTracker.determineSemaphoreStatus
    split <;> rfl
  · unfold ExecutionTracker.determineSemaphoreStatus
    split <;> rfl
  · unfold ExecutionTracker.determineSemaphoreStatus
    split <;> rfl
  · rw [hentries, if_pos rfl, he]
    split
    · exact Or.inl rfl
    · exact Or.inr rfl
  · rw [hentries, if_neg (Ne.symm hu)]
    exact hc.fits u

theorem semaphoreIsPosted (hc : Consistent tr st) : Consistent (tr.semaphoreIsPosted sem) st where
  fits u := by
    rw [entries_semaphoreIsPosted]
    exact (hc.fits u).posted sem
  joins := hc.joins
  born := hc.born
  targets := hc.targets

theorem semaphoreIsDrained (hc : Consistent tr st) (hall : ∀ u k, st u ≠ .resumed k) :
    Consistent (tr.semaphoreIsDrained sem) st where
  fits u := by
    rw [entries_semaphoreIsDrained]
    exact (hc.fits u).drained (hall u) sem
  joins := hc.joins
  born := hc.born
  targets := hc.targets

theorem simulateSemWait (hc : Consistent tr st) (hst : st t = .resumed (.semWait sem))
    (hothers : ∀ u, u ≠ t → ∀ k, st u ≠ .resumed k)
    (h : tr.simulateSemWait t sem = .ok tr') :
    Consistent tr' (Function.update st t .active) := by
  simp only [ExecutionTracker.simulateSemWait, safe_assert_bind,
    ExecutionTracker.threadHasPassedSemaphore] at h
  obtain ⟨_, _, hready, h⟩ := h
  -- the thread has gone past the semaphore, and then the others may find it empty
  have hpassed : Consistent ((tr.semWait sem).clearSemReady t) (Function.update st t .active) := by
    have hfit := hc.fits t
    rw [hst] at hfit
    have hentries (u : ThrID) := entries_clearSemReady (tr.semWait sem) t u
    refine hc.move .active rfl rfl rfl ?_ (fun u hu => ?_) (by simp [hst]) nofun (by simp [hst])
      nofun
    · have he : tr.entries t = { enabled := true, semReady := some sem } := by
        rcases hfit.1 with h | h
        · exact h
        · rw [h] at hfit
          exact absurd hfit.2 (by simp)
      rw [hentries, if_pos rfl]
      exact congrArg (fun e : Entries => { e with semReady := none }) he
    · rw [hentries, if_neg (Ne.symm hu)]
      exact hc.fits u
  cases h
  split
  · refine hpassed.semaphoreIsDrained sem fun u k => ?_
    by_cases hu : u = t
    · subst hu
      simp
    · simpa [hu] using hothers u hu k
  · exact hpassed

end Semaphores

section Barriers

variable (barrier : Addr)

theorem beforeBarrierWait (hc : Consistent tr st) (hst : st t = .active)
    (h : tr.beforeBarrierWait t barrier = .ok tr') :
    Consistent tr' (Function.update st t (.pending (.barrier barrier))) := by
  have he : tr.entries t = { enabled := true } := by
    have hfit := hc.fits t
    rwa [hst] at hfit
  simp only [ExecutionTracker.beforeBarrierWait, safe_assert_bind] at h
  obtain ⟨_, h⟩ := h
  split at h
  · cases h
  · split at h
    · simp only [safe_assert_bind] at h
      obtain ⟨_, _, h⟩ := h
      cases h
      have hentries (u : ThrID) := entries_openBarrier tr t u barrier
      refine hc.move (.pending (.barrier barrier)) rfl rfl rfl ?_ (fun u hu => ?_)
        (by simp [hst]) nofun (by simp [hst]) nofun
      · rw [hentries, if_pos rfl, he]
        exact Or.inl rfl
      · rw [hentries, if_neg (Ne.symm hu)]
        exact (hc.fits u).opened barrier
    · cases h
      have hentries (u : ThrID) := entries_waitOnBarrier tr t u barrier
      refine hc.move (.pending (.barrier barrier)) rfl rfl rfl ?_ (fun u hu => ?_)
        (by simp [hst]) nofun (by simp [hst]) nofun
      · rw [hentries, if_pos rfl, he]
        exact Or.inr rfl
      · rw [hentries, if_neg (Ne.symm hu)]
        exact hc.fits u

end Barriers

section Threads

theorem enableSelf (hc : Consistent tr st) (stg : Stage) (b : Bool)
    (he : tr.entries t = { enabled := b })
    (hself : stg.Fits tr.finish_map { enabled := true })
    (hold : ∀ x, st t ≠ .pending (.join x)) (hnew : ∀ x, stg ≠ .pending (.join x))
    (hborn : st t ≠ .unborn) (hborn' : stg ≠ .unborn) :
    Consistent (tr.enableThread t) (Function.update st t stg) := by
  have hentries (u : ThrID) := entries_enableThread tr t u
  refine hc.move stg rfl rfl rfl ?_ (fun u hu => ?_) hold hnew hborn hborn'
  · rw [hentries, if_pos rfl, he]
    exact hself
  · rw [hentries, if_neg (Ne.symm hu)]
    exact hc.fits u

theorem disableSelf (hc : Consistent tr st) (stg : Stage) (b : Bool)
    (he : tr.entries t = { enabled := b })
    (hself : stg.Fits tr.finish_map { enabled := false })
    (hold : ∀ x, st t ≠ .pending (.join x)) (hnew : ∀ x, stg ≠ .pending (.join x))
    (hborn : st t ≠ .unborn) (hborn' : stg ≠ .unborn) :
    Consistent (tr.disableThread t) (Function.update st t stg) := by
  have hentries (u : ThrID) := entries_disableThread tr t u
  refine hc.move stg rfl rfl rfl ?_ (fun u hu => ?_) hold hnew hborn hborn'
  · rw [hentries, if_pos rfl, he]
    exact hself
  · rw [hentries, if_neg (Ne.symm hu)]
    exact hc.fits u

theorem beforeJoin (hc : Consistent tr st) (hst : st t = .active) (target : ThrID)
    (h : tr.beforeJoin t target = .ok tr') :
    Consistent tr' (Function.update st t (.pending (.join target))) := by
  have he : tr.entries t = { enabled := true } := by
    have hfit := hc.fits t
    rwa [hst] at hfit
  have hstage (u x : ThrID) : Function.update st t (.pending (.join target)) u =
      .pending (.join x) ↔ (u = t ∧ x = target) ∨ st u = .pending (.join x) := by
    by_cases hu : u = t
    · subst hu
      simp [hst, eq_comm]
    · simp [hu]
  have hunborn (u : ThrID) :
      Function.update st t (.pending (.join target)) u = .unborn ↔ st u = .unborn := by
    by_cases hu : u = t
    · subst hu
      simp [hst]
    · simp [hu]
  simp only [ExecutionTracker.beforeJoin, safe_assert_bind] at h
  obtain ⟨hsome, h⟩ := h
  have htarget : st target ≠ .unborn := (hc.born target).mp hsome
  have htargets (x u : ThrID) (hu : Function.update st t (.pending (.join target)) u =
      .pending (.join x)) : Function.update st t (.pending (.join target)) x ≠ .unborn := by
    rw [ne_eq, hunborn]
    rcases (hstage u x).mp hu with ⟨_, rfl⟩ | hu
    · exact htarget
    · exact hc.targets x u hu
  split at h
  · rename_i hfin
    cases h
    refine ⟨fun u => ?_, fun x u hx => ?_, fun u => ?_, htargets⟩
    · rw [entries_enableThread]
      by_cases hu : u = t
      · subst hu
        rw [if_pos rfl, he, Function.update_self]
        have hdone : tr.finish_map target = true := hfin
        simp [Stage.Fits, Pending.Fits, enableThread, hdone]
      · rw [if_neg (Ne.symm hu), Function.update_of_ne hu]
        exact hc.fits u
    · have hne : x ≠ target := by
        rintro rfl
        exact absurd (hfin.symm.trans hx) (by simp)
      rw [hstage]
      exact (hc.joins x u hx).trans ⟨Or.inr, fun h => h.resolve_left fun h => hne h.2⟩
    · exact (hc.born u).trans (not_congr (hunborn u).symm)
  · rename_i hfin
    have hfin : tr.finish_map target = false := by simpa [threadIsFinished] using hfin
    simp only [registerThreadJoin, safe_assert_bind] at h
    obtain ⟨hfree, h⟩ := h
    cases h
    have hnone : tr.join_map target = none := by simpa [disableThread] using hfree
    refine ⟨fun u => ?_, fun x u hx => ?_, fun u => ?_, htargets⟩
    · have hentries : ((tr.disableThread t).setJoiner target t).entries u =
          (tr.disableThread t).entries u := rfl
      rw [hentries, entries_disableThread]
      by_cases hu : u = t
      · subst hu
        rw [if_pos rfl, he, Function.update_self]
        simp [Stage.Fits, Pending.Fits, setJoiner, disableThread, hfin]
      · rw [if_neg (Ne.symm hu), Function.update_of_ne hu]
        exact hc.fits u
    · rw [hstage]
      have hjoins := hc.joins x u hx
      by_cases hxt : x = target
      · subst hxt
        rw [hnone] at hjoins
        have hnot : st u ≠ .pending (.join x) := fun h => by simpa using hjoins.mpr h
        simp [setJoiner, hnot, eq_comm]
      · have hmap : ((tr.disableThread t).setJoiner target t).join_map x = tr.join_map x := by
          simp [setJoiner, disableThread, hxt]
        rw [hmap, hjoins]
        simp [hxt]
    · exact (hc.born u).trans (not_congr (hunborn u).symm)

theorem entries_finalizeThread (hc : Consistent tr st) (hst : st t = .active) (u : ThrID) :
    (tr.finalizeThread t).entries u =
      if t = u then { enabled := false, finished := true }
      else if st u = .pending (.join t) then { enabled := true } else tr.entries u := by
  have he : tr.entries t = { enabled := true } := by
    have hfit := hc.fits t
    rwa [hst] at hfit
  have hfin : tr.finish_map t = false := by simp [hc.finished_eq, hst]
  have hset : ((tr.disableThread t).setFinished t).entries u =
      if t = u then { enabled := false, finished := true } else tr.entries u := by
    rw [entries_setFinished, entries_disableThread]
    by_cases hu : t = u
    · subst hu
      simp [he]
    · simp [hu]
  have hjoin : ((tr.disableThread t).setFinished t).join_map t = tr.join_map t := rfl
  rw [finalizeThread, enableJoiningThread, hjoin]
  cases hjoiner : tr.join_map t with
  | none =>
      have hnot : st u ≠ .pending (.join t) := fun h => by
        rw [(hc.joins t u hfin).mpr h] at hjoiner
        cases hjoiner
      rw [if_neg hnot]
      exact hset
  | some joiner =>
      have hpending : st joiner = .pending (.join t) := (hc.joins t joiner hfin).mp hjoiner
      have hne : t ≠ joiner := by
        rintro rfl
        rw [hst] at hpending
        cases hpending
      have hfit := hc.fits joiner
      rw [hpending] at hfit
      rw [entries_enableThread, hset]
      by_cases hu : joiner = u
      · subst hu
        have hentries : tr.entries joiner = { enabled := tr.finish_map t } := hfit
        rw [if_pos rfl, if_neg hne, if_neg hne, if_pos hpending, hentries]
      · have hnot : st u ≠ .pending (.join t) := fun h => by
          rw [(hc.joins t u hfin).mpr h] at hjoiner
          exact hu (Option.some.inj hjoiner).symm
        rw [if_neg hu, if_neg hnot]

theorem finish_map_finalizeThread (u : ThrID) :
    (tr.finalizeThread t).finish_map u = if u = t then true else tr.finish_map u := by
  have hmap : (tr.finalizeThread t).finish_map = Function.update tr.finish_map t true := by
    unfold finalizeThread enableJoiningThread
    split <;> rfl
  rw [hmap, Function.update_apply]

theorem finalizeThread (hc : Consistent tr st) (hst : st t = .active)
    (hothers : ∀ u, u ≠ t → ∀ k, st u ≠ .resumed k) :
    Consistent (tr.finalizeThread t) (Function.update st t .finished) := by
  have hstage (u x : ThrID) : Function.update st t .finished u = .pending (.join x) ↔
      st u = .pending (.join x) := by
    by_cases hu : u = t
    · subst hu
      simp [hst]
    · simp [hu]
  have hunborn (u : ThrID) : Function.update st t .finished u = .unborn ↔ st u = .unborn := by
    by_cases hu : u = t
    · subst hu
      simp [hst]
    · simp [hu]
  have hjoin : (tr.finalizeThread t).join_map = tr.join_map := by
    unfold ExecutionTracker.finalizeThread enableJoiningThread
    split <;> rfl
  have hsem : (tr.finalizeThread t).sem_map = tr.sem_map := by
    unfold ExecutionTracker.finalizeThread enableJoiningThread
    split <;> rfl
  refine ⟨fun u => ?_, fun x u hx => ?_, fun u => ?_, fun x u hu => ?_⟩
  · rw [hc.entries_finalizeThread hst]
    by_cases hu : u = t
    · subst hu
      rw [if_pos rfl, Function.update_self]
      rfl
    · rw [if_neg (Ne.symm hu), Function.update_of_ne hu]
      by_cases hpending : st u = .pending (.join t)
      · -- the joiner has become enabled, as its thread is finished
        rw [if_pos hpending, hpending]
        have hfin : (tr.finalizeThread t).finish_map t = true := by
          simp [finish_map_finalizeThread]
        simp [Stage.Fits, Pending.Fits, hfin]
      · rw [if_neg hpending]
        refine (hc.fits u).congr fun x hx => ?_
        have hne : x ≠ t := by
          rintro rfl
          rcases hx with hx | hx
          · exact hpending hx
          · exact hothers u hu _ hx
        rw [finish_map_finalizeThread, if_neg hne]
  · rw [finish_map_finalizeThread] at hx
    have hx : tr.finish_map x = false := by
      split at hx
      · cases hx
      · exact hx
    rw [hjoin, hstage]
    exact hc.joins x u hx
  · rw [hsem, hc.born u]
    exact not_congr (hunborn u).symm
  · exact fun h => hc.targets x u ((hstage u x).mp hu) ((hunborn x).mp h)

theorem initializeThreadData (hc : Consistent tr st) (child : ThrID) (hst : st child = .unborn) :
    Consistent (tr.initializeThreadData child) (Function.update st child (.pending .start)) := by
  have he : tr.entries child = { enabled := false } := by
    have hfit := hc.fits child
    rwa [hst] at hfit
  have hfinish (x : ThrID) :
      (tr.initializeThreadData child).finish_map x = tr.finish_map x := by
    have hfalse : tr.finish_map child = false := by simp [hc.finished_eq, hst]
    by_cases hx : x = child
    · subst hx
      simp [ExecutionTracker.initializeThreadData, enableThread, hfalse]
    · simp [ExecutionTracker.initializeThreadData, enableThread, hx]
  have hstage (u x : ThrID) : Function.update st child (.pending .start) u =
      .pending (.join x) ↔ st u = .pending (.join x) := by
    by_cases hu : u = child
    · subst hu
      simp [hst]
    · simp [hu]
  have hunborn (u : ThrID) : Function.update st child (.pending .start) u = .unborn ↔
      st u = .unborn ∧ u ≠ child := by
    by_cases hu : u = child
    · subst hu
      simp
    · simp [hu]
  refine ⟨fun u => ?_, fun x u hx => ?_, fun u => ?_, fun x u hu => ?_⟩
  · rw [entries_initializeThreadData]
    by_cases hu : u = child
    · subst hu
      rw [if_pos rfl, Function.update_self, he]
      rfl
    · rw [if_neg (Ne.symm hu), Function.update_of_ne hu]
      exact (hc.fits u).congr fun x _ => hfinish x
  · rw [hstage]
    by_cases hxc : x = child
    · subst hxc
      have hnot : st u ≠ .pending (.join x) := fun h => hc.targets x u h hst
      simp [ExecutionTracker.initializeThreadData, hnot]
    · have hmap : (tr.initializeThreadData child).join_map x = tr.join_map x := by
        simp [ExecutionTracker.initializeThreadData, hxc]
      rw [hmap]
      exact hc.joins x u (hfinish x ▸ hx)
  · by_cases hu : u = child
    · subst hu
      simp [ExecutionTracker.initializeThreadData]
    · have hmap : (tr.initializeThreadData child).sem_map u = tr.sem_map u := by
        simp [ExecutionTracker.initializeThreadData, hu]
      rw [hmap, hc.born u, Function.update_of_ne hu]
  · rw [hstage] at hu
    intro h
    exact hc.targets x u hu ((hunborn x).mp h).1

end Threads

section Running

theorem active_entries (hc : Consistent tr st) (hst : st t = .active) :
    tr.entries t = { enabled := true } := by
  have hfit := hc.fits t
  rwa [hst] at hfit

-- A running thread that changes no map runs on.
theorem runOn (hc : Consistent tr st) (hst : st t = .active) :
    Consistent tr (Function.update st t .active) := by
  rwa [← hst, Function.update_eq_self]

-- A running thread becomes pending on something that does not hold it up.
theorem pause (hc : Consistent tr st) (hst : st t = .active) (k : Pending)
    (hk : k.Fits tr.finish_map { enabled := true }) (hnew : ∀ x, k ≠ .join x) :
    Consistent tr (Function.update st t (.pending k)) := by
  refine hc.goOn (.pending k) ?_ (by simp [hst]) (by simpa using hnew) (by simp [hst]) nofun
  rw [hc.active_entries hst]
  exact hk

theorem enter (hc : Consistent tr st) (hst : st t = .active)
    (hothers : ∀ u, u ≠ t → ∀ k, st u ≠ .resumed k) (ret_addr : Addr) (op : Op)
    (h : tr.enter t ret_addr op = .ok (tr', eff)) : Consistent tr' (eff.stages t st) := by
  have he : tr.entries t = { enabled := true } := hc.active_entries hst
  have hfin : tr.threadIsFinished t = false := by
    simp [threadIsFinished, hc.finished_eq, hst]
  have hold (x : ThrID) : st t ≠ .pending (.join x) := by simp [hst]
  have hborn : st t ≠ .unborn := by simp [hst]
  -- operations that the maps do not see
  have hsilent {tr'' : ExecutionTracker} (hsame : Consistent tr'' st) :
      Consistent tr'' (Function.update st t .active) := hsame.runOn hst
  cases op with
  | mutexLock lock =>
      simp only [ExecutionTracker.enter, beforeMutexLock, hfin, Bool.false_eq_true, if_false] at h
      cases h
      exact hc.determineLockStatus lock (.lock lock) true he (fun e h => h) hold nofun hborn
  | mutexTrylock lock =>
      cases h
      exact hc.enableSelf (.pending (.trylock lock)) true he rfl hold nofun hborn nofun
  | mutexUnlock lock =>
      cases h
      exact hsilent (hc.mutexUnlock lock)
  | mutexInit lock =>
      cases h
      exact hsilent (hc.same rfl rfl rfl fun _ => rfl)
  | mutexDestroy lock =>
      simp only [ExecutionTracker.enter] at h
      split at h
      · cases h
        exact hsilent (hc.same rfl rfl rfl fun _ => rfl)
      · cases h
        exact hsilent (hc.same rfl rfl rfl fun _ => rfl)
  | condWait cond lock =>
      cases h
      exact hc.disableSelf (.between { cond, lock, timed := false, ret_addr }) true he rfl hold
        nofun hborn nofun
  | condTimedwait cond lock =>
      cases h
      exact hc.enableSelf (.between { cond, lock, timed := true, ret_addr }) true he rfl hold
        nofun hborn nofun
  | condSignal cond =>
      simp only [ExecutionTracker.enter, beforeCond, safe_assert_bind] at h
      cases h.2
      exact hc.runOn hst
  | condBroadcast cond =>
      simp only [ExecutionTracker.enter, beforeCond, safe_assert_bind] at h
      cases h.2
      exact hc.runOn hst
  | condInit cond =>
      cases h
      exact hsilent (hc.same rfl rfl rfl fun _ => rfl)
  | condDestroy cond =>
      cases h
      exact hsilent (hc.same rfl rfl rfl fun _ => rfl)
  | semWait sem =>
      simp only [ExecutionTracker.enter, beforeSemWait, safe_assert_bind] at h
      cases h.2
      exact hc.determineSemaphoreStatus sem hst
  | semPost sem =>
      simp only [ExecutionTracker.enter, simulateSemPost, safe_assert_bind] at h
      cases h.2
      have hpost : Consistent (tr.semPost sem) st := hc.same rfl rfl rfl fun _ => rfl
      exact (hpost.semaphoreIsPosted sem).pause hst _ rfl nofun
  | semInit sem value =>
      cases h
      exact hsilent (hc.same rfl rfl rfl fun _ => rfl)
  | semDestroy sem =>
      cases h
      exact hsilent (hc.same rfl rfl rfl fun _ => rfl)
  | barrierWait barrier =>
      simp only [ExecutionTracker.enter, ok_bind] at h
      obtain ⟨tracker, hwait, h⟩ := h
      cases h
      exact hc.beforeBarrierWait barrier hst hwait
  | barrierInit barrier count =>
      cases h
      refine hsilent (hc.same rfl rfl rfl fun u => ?_)
      simp only [entries, BarrierTracker.initBarrier]
      split <;> rfl
  | barrierDestroy barrier =>
      cases h
      exact hsilent (hc.same rfl rfl rfl fun _ => rfl)
  | create ret_val =>
      cases h
      exact hsilent (hc.same rfl rfl rfl fun _ => rfl)
  | join target =>
      simp only [ExecutionTracker.enter, ok_bind] at h
      obtain ⟨tracker, hjoin, h⟩ := h
      cases h
      exact hc.beforeJoin hst target hjoin
  | exit =>
      cases h
      exact hc.finalizeThread hst hothers
  | threadReturn =>
      simp only [ExecutionTracker.enter] at h
      split at h
      · cases h
      · cases h
        exact hc.finalizeThread hst hothers
  | point p =>
      simp only [ExecutionTracker.enter, thrillePoint, safe_assert_bind] at h
      cases h.2
      exact hc.pause hst _ rfl nofun

theorem resume (hc : Consistent tr st) (k : Pending) (hst : st t = .resumed k)
    (hothers : ∀ u, u ≠ t → ∀ k, st u ≠ .resumed k)
    (h : tr.resume t k = .ok (tr', eff)) : Consistent tr' (eff.stages t st) := by
  have hfit := hc.fits t
  rw [hst] at hfit
  obtain ⟨hfit, henabled⟩ := hfit
  have hold (x : ThrID) : st t ≠ .pending (.join x) := by simp [hst]
  have hborn : st t ≠ .unborn := by simp [hst]
  -- operations that are over once the thread runs
  have hover (he : tr.entries t = { enabled := true }) :
      Consistent tr (Function.update st t .active) :=
    hc.goOn .active he hold nofun hborn nofun
  have hacquire (lock : Addr)
      (he : { tr.entries t with lockReady := none } = ({ enabled := true } : Entries)) :
      Consistent (tr.threadHasAcquiredLock t lock) (Function.update st t .active) :=
    hc.threadHasAcquiredLock lock he hothers hold hborn
  cases k with
  | lock lock =>
      cases h
      refine (hacquire lock ?_).mutexTrylock lock
      rcases hfit with h | h
      · rw [h]
      · rw [h] at henabled
        cases henabled
  | relock w timedOut =>
      cases h
      refine (hacquire w.lock ?_).mutexTrylock w.lock
      rcases hfit with h | h
      · rw [h]
      · rw [h] at henabled
        cases henabled
  | trylock lock =>
      have he : tr.entries t = { enabled := true } := hfit
      have htry : Consistent (tr.mutexTrylock t lock).2 st := hc.mutexTrylock lock
      simp only [ExecutionTracker.resume, simulateMutexTrylock] at h
      split at h
      · cases h
        refine htry.threadHasAcquiredLock lock ?_ hothers hold hborn
        have hsame : (tr.mutexTrylock t lock).2.entries t = tr.entries t := by
          unfold ExecutionTracker.mutexTrylock
          split <;> rfl
        rw [hsame, he]
      · cases h
        refine htry.goOn .active ?_ hold nofun hborn nofun
        have hsame : (tr.mutexTrylock t lock).2.entries t = tr.entries t := by
          unfold ExecutionTracker.mutexTrylock
          split <;> rfl
        rw [hsame]
        exact he
  | semWait sem =>
      simp only [ExecutionTracker.resume, ok_bind] at h
      obtain ⟨tracker, hwait, h⟩ := h
      cases h
      exact hc.simulateSemWait sem hst hothers hwait
  | join target =>
      cases h
      refine hover ?_
      have he : tr.entries t = { enabled := tr.finish_map target } := hfit
      rw [he] at henabled
      rw [he, show tr.finish_map target = true from henabled]
  | barrier b =>
      cases h
      refine hover ?_
      rcases hfit with h | h
      · exact h
      · rw [h] at henabled
        cases henabled
  | start => cases h; exact hover hfit
  | simple ret_val => cases h; exact hover hfit

theorem simulateCondWait (hc : Consistent tr st) (w : Wait) (hst : st t = .between w)
    (h : tr.simulateCondWait t w = .ok (tr', eff)) : Consistent tr' (eff.stages t st) := by
  have hfin : tr.threadIsFinished t = false := by
    simp [threadIsFinished, hc.finished_eq, hst]
  simp only [ExecutionTracker.simulateCondWait, safe_assert_bind] at h
  obtain ⟨_, _, h⟩ := h
  -- the mutex is free now, and the threads that wait for it are enabled
  have hreleased : Consistent (if (tr.mutexUnlock w.lock).2.threadIsFinished t
      then (tr.mutexUnlock w.lock).2
      else (tr.mutexUnlock w.lock).2.threadHasReleasedLock w.lock) st := by
    split
    · exact hc.mutexUnlock w.lock
    · exact (hc.mutexUnlock w.lock).threadHasReleasedLock w.lock
  generalize (if (tr.mutexUnlock w.lock).2.threadIsFinished t
      then (tr.mutexUnlock w.lock).2
      else (tr.mutexUnlock w.lock).2.threadHasReleasedLock w.lock) = released at h hreleased
  have hwaiting : Consistent (released.setCond t w.cond) (Function.update st t (.waiting w)) := by
    have hentries (u : ThrID) := entries_setCond released t u w.cond
    refine hreleased.move (.waiting w) rfl rfl rfl ?_ (fun u hu => ?_) (by simp [hst]) nofun
      (by simp [hst]) nofun
    · have hfit := hreleased.fits t
      rw [hst] at hfit
      rw [hentries, if_pos rfl, show released.entries t = { enabled := w.timed } from hfit]
      rfl
    · rw [hentries, if_neg (Ne.symm hu)]
      exact hreleased.fits u
  split at h
  · cases h
    exact hwaiting
  · cases h
    exact hwaiting

theorem clearCond (hc : Consistent tr st) (w : Wait) (hst : st t = .waiting w) :
    Consistent (tr.clearCond t) (Function.update st t (.between w)) := by
  have hentries (u : ThrID) := entries_clearCond tr t u
  refine hc.move (.between w) rfl rfl rfl ?_ (fun u hu => ?_) (by simp [hst]) nofun
    (by simp [hst]) nofun
  · have hfit := hc.fits t
    rw [hst] at hfit
    rw [hentries, if_pos rfl,
      show tr.entries t = { enabled := w.timed, cond := some w.cond } from hfit]
    rfl
  · rw [hentries, if_neg (Ne.symm hu)]
    exact hc.fits u

theorem beforeMutexLockInWait (hc : Consistent tr st) (w : Wait) (hst : st t = .between w)
    (h : tr.beforeMutexLockInWait t w = .ok (tr', eff)) : Consistent tr' (eff.stages t st) := by
  simp only [ExecutionTracker.beforeMutexLockInWait, safe_assert_bind] at h
  cases h.2
  have hfit := hc.fits t
  rw [hst] at hfit
  exact hc.determineLockStatus w.lock (.relock w false) w.timed hfit (fun e h => h)
    (by simp [hst]) nofun (by simp [hst])

-- A thread that has turned to its mutex after a wait goes on to the next schedule point.
theorem toPause (hc : Consistent tr st) (w : Wait) (timedOut : Bool)
    (hst : st t = .pending (.relock w false)) :
    Consistent tr (Function.update st t (.pending (.relock w timedOut))) := by
  refine hc.goOn _ ?_ (by simp [hst]) nofun (by simp [hst]) nofun
  have hfit := hc.fits t
  rwa [hst] at hfit

theorem runSection (hc : Consistent tr st) (pc : Pc) (hst : st t = pc.stage)
    (hothers : ∀ u, u ≠ t → ∀ k, st u ≠ .resumed k)
    (hchild : ∀ ret_addr child ret_val, pc = .beforeCreate ret_addr child ret_val →
      st child = .unborn)
    (h : tr.runSection t pc = .ok (tr', eff)) : Consistent tr' (eff.stages t st) := by
  -- where the catch-all case of `runSection` leaves everything as it is
  have hstay (h : tr.goto pc = .ok (tr', eff)) : Consistent tr' (eff.stages t st) := by
    cases h
    rw [Effect.stages, ← hst, Function.update_eq_self]
    exact hc
  cases pc with
  | enter ret_addr op => exact hc.enter hst hothers ret_addr op h
  | originalLock lock =>
      cases h
      exact (hc.mutexTrylock lock).runOn hst
  | afterUnlock ret_addr lock ret_val =>
      simp only [ExecutionTracker.runSection, afterMutexUnlock] at h
      split at h
      · cases h
        exact hc.runOn hst
      · cases h
        exact (hc.threadHasReleasedLock lock).pause hst _ rfl nofun
  | simulateWait w => exact hc.simulateCondWait w hst h
  | woken w =>
      cases h
      exact hc.clearCond w hst
  | relock w => exact hc.beforeMutexLockInWait w hst h
  | signalReady w =>
      have hready : Consistent (tr.signalThreadReady t) st := hc.same rfl rfl rfl fun _ => rfl
      cases h
      have hstage : (if w.timed then Pc.checkTimeout w
          else .leaving (.pause (.relock w false))).stage = .pending (.relock w false) := by
        split <;> rfl
      rw [Effect.stages, hstage]
      exact hready.toPause w false hst
  | checkTimeout w =>
      simp only [ExecutionTracker.runSection, ExecutionTracker.checkTimeout] at h
      split at h
      · cases h
        exact hc.toPause w false hst
      · cases h
        exact hc.toPause w true hst
  | simulateSignal ret_addr cond isBroadcast =>
      simp only [ExecutionTracker.runSection, wakeThreadWaitingOnCond] at h
      split at h
      · cases h
        exact hc.runOn hst
      · split at h
        · split at h
          · cases h
            exact hc.runOn hst
          · cases h
        · cases h
          exact hc.runOn hst
  | handoff s target =>
      simp only [ExecutionTracker.runSection, scheduleThreadWaitingOnCond, safe_assert_bind] at h
      cases h.2
      have hready : Consistent (tr.setWaitReady target false) st :=
        hc.same rfl rfl rfl fun _ => rfl
      exact hready.runOn hst
  | waitReady s target =>
      simp only [ExecutionTracker.runSection, waitThreadReady] at h
      split at h
      · split at h
        · cases h
          exact hc.runOn hst
        · cases h
          exact hc.runOn hst
      · cases h
        exact hc.runOn hst
  | signalDone ret_addr isBroadcast =>
      cases h
      exact hc.enableSelf (.pending (.simple OPERATION_SUCCESSFUL)) true (hc.active_entries hst)
        rfl (by simp [hst, Pc.stage]) nofun (by simp [hst, Pc.stage]) nofun
  | beforeCreate ret_addr child ret_val =>
      cases h
      have hunborn : st child = .unborn := hchild ret_addr child ret_val rfl
      have hne : t ≠ child := by
        rintro rfl
        rw [hst] at hunborn
        cases hunborn
      have hrun : Function.update st child (.pending .start) t = .active := by
        rw [Function.update_of_ne hne]
        exact hst
      exact (hc.initializeThreadData child hunborn).runOn hrun
  | afterCreate ret_addr ret_val =>
      cases h
      exact hc.pause hst _ rfl nofun
  | resume k => exact hc.resume k hst hothers h
  | _ => exact hstay h

end Running

end Consistent

end Thrille
