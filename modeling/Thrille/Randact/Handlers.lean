import Thrille.Randact.Picks

namespace Thrille

open ExecutionTracker

-- A thread is postponed: the base class has it at a mutex or at a memory access, and the tester
-- disables it.
theorem Shadow.postpone {P P' H H' : ThrID → Prop} {s x s' x' : ExecutionTracker} {t : ThrID}
    (h : Shadow P H True s x) (hP : ∀ u, P' u ↔ P u ∨ u = t) (hH : ∀ u, u ≠ t → (H' u ↔ H u))
    (hsame : s'.shade x' = x') (hs : ∀ u, u ≠ t → s'.entries u = s.entries u)
    (hx : ∀ u, u ≠ t → x'.entries u = x.entries u) (hbare : (s'.entries t).Bare)
    (hdown : (x'.entries t).enabled = false)
    (hshown : ¬H' t → (x'.entries t).lockReady = (s'.entries t).lockReady ∧
      (x'.entries t).lockWait = (s'.entries t).lockWait)
    (hhidden : H' t → (x'.entries t).lockReady = none ∧ (x'.entries t).lockWait = none) :
    Shadow P' H' True s' x' where
  same := hsame
  free u hu := by
    have hut : u ≠ t := fun heq => hu ((hP u).mpr (Or.inr heq))
    rw [hs u hut, hx u hut]
    exact h.free u fun hpaused => hu ((hP u).mpr (Or.inl hpaused))
  bare u hu := by
    by_cases hut : u = t
    · rw [hut]
      exact hbare
    · rw [hs u hut]
      exact h.bare u (((hP u).mp hu).resolve_right hut)
  shown u hu hnot := by
    by_cases hut : u = t
    · rw [hut] at hnot ⊢
      exact hshown hnot
    · rw [hs u hut, hx u hut]
      exact h.shown u (((hP u).mp hu).resolve_right hut) fun hold => hnot ((hH u hut).mpr hold)
  hidden u hu hyes := by
    by_cases hut : u = t
    · rw [hut] at hyes ⊢
      exact hhidden hyes
    · rw [hx u hut]
      exact h.hidden u (((hP u).mp hu).resolve_right hut) ((hH u hut).mp hyes)
  down _ u hu := by
    by_cases hut : u = t
    · rw [hut]
      exact hdown
    · rw [hx u hut]
      exact h.down trivial u (((hP u).mp hu).resolve_right hut)

-- The lock of whose release a section tells the threads that wait for it, or a lock that a thread
-- asks for: the tester looks there at whether the thread has finished.
def Pc.checked : Pc → Bool
  | enter _ (.mutexLock _) => true
  | pc => pc.tells.isSome

theorem ExecutionTracker.finish_map_runSection {self tr : ExecutionTracker} {t : ThrID} {pc : Pc}
    {eff : Effect} (hpc : pc.checked = true) (h : self.runSection t pc = .ok (tr, eff)) :
    tr.finish_map = self.finish_map := by
  cases pc with
  | enter ret_addr op =>
      cases op with
      | mutexLock lock =>
          simp only [runSection, enter, beforeMutexLock] at h
          split at h
          · cases h
            rfl
          · cases h
            unfold determineLockStatus
            split
            · rfl
            · rfl
      | _ => cases hpc
  | afterUnlock ret_addr lock ret_val =>
      simp only [runSection, afterMutexUnlock] at h
      split at h
      · cases h
        rfl
      · cases h
        rfl
  | simulateWait w =>
      simp only [runSection, simulateCondWait, safe_assert_bind] at h
      obtain ⟨_, _, h⟩ := h
      have hunlock : (self.mutexUnlock w.lock).2.finish_map = self.finish_map := by
        unfold mutexUnlock
        split
        · rfl
        · rfl
      rw [← hunlock]
      split at h
      · cases h
        simp only [setCond]
        split
        · rfl
        · rfl
      · cases h
        simp only [setCond]
        split
        · rfl
        · rfl
  | _ => cases hpc

namespace RandomActiveTester

variable {ρ : Type} {isLockRace : Bool} {st : ThrID → Stage} {H : ThrID → Prop}
  {s x : ExecutionTracker} {self self' : RandomActiveTester ρ} {reenableThreadIfLegal : Reenable ρ}
  {t : ThrID}

-- What thread `myself` is about to do where a tester looks at it: the place in the code, the
-- address, and whether it writes.
def watched (isLockRace : Bool) (self : RandomActiveTester ρ) (myself : ThrID) :
    Pc → Option (Addr × Addr × Bool)
  | .enter ret_addr (.mutexLock lock) => if isLockRace then some (ret_addr, lock, true) else none
  | .enter ret_addr (.mutexTrylock lock) =>
      if isLockRace then some (ret_addr, lock, true) else none
  | .relock w => if isLockRace then some (w.ret_addr, w.lock, true) else none
  | .enter ret_addr (.point .memoryRead) =>
      if isLockRace then none else some (ret_addr, self.access myself, false)
  | .enter ret_addr (.point .memoryWrite) =>
      if isLockRace then none else some (ret_addr, self.access myself, true)
  | _ => none

-- The handlers of the two testers.
theorem handle_eq (tracker : ExecutionTracker) (pc : Pc)
    (hunfinished : pc.checked = true → tracker.threadIsFinished t = false) :
    self.handle (RandactHandler.getNewExecutionTracker isLockRace) tracker t pc =
      match self.watched isLockRace t pc with
      | some (ret_addr, addr, iswrite) =>
          self.handleAccess
            (RandactHandler.getNewExecutionTracker isLockRace).reenableThreadIfLegal tracker t
            ret_addr addr iswrite
      | none =>
          if isLockRace = true ∧ pc.tells.isSome = true then
            RandomLockTester.handleAfterMutexUnlock self tracker
          else .ok (tracker, self) := by
  cases isLockRace with
  | false =>
      cases pc with
      | enter ret_addr op =>
          cases op with
          | mutexLock lock => simp [handle, hunfinished rfl, watched]; rfl
          | point p => cases p <;> rfl
          | _ => rfl
      | afterUnlock ret_addr lock ret_val => simp [handle, hunfinished rfl, watched]; rfl
      | simulateWait w => simp [handle, hunfinished rfl, watched]; rfl
      | _ => rfl
  | true =>
      cases pc with
      | enter ret_addr op =>
          cases op with
          | mutexLock lock => simp [handle, hunfinished rfl, watched]; rfl
          | point p => cases p <;> rfl
          | _ => rfl
      | afterUnlock ret_addr lock ret_val =>
          simp [handle, hunfinished rfl, watched, Pc.tells]; rfl
      | simulateWait w => simp [handle, hunfinished rfl, watched, Pc.tells]; rfl
      | _ => rfl

variable (st) in
-- The sections that a tester watches: the caller is about to take a mutex, or to access memory.
theorem watched_spec {pc : Pc} {ret_addr addr : Addr} {iswrite : Bool} {tr tr' : ExecutionTracker}
    {eff : Effect} (hwatched : self.watched isLockRace t pc = some (ret_addr, addr, iswrite))
    (hunfinished : tr.threadIsFinished t = false) (hrun : tr.runSection t pc = .ok (tr', eff)) :
    (pc.relocked = false ∧ pc.tells = none ∧ pc.unlocks = none) ∧
      (∀ child pc', eff ≠ .created child pc') ∧
      (isLockRace = true ∧ (∃ ret_addr, pc = .enter ret_addr (.mutexTrylock addr)) ∨
        Postponed isLockRace addr (eff.stages t st t)) := by
  cases pc with
  | enter ret_addr' op =>
      refine ⟨⟨rfl, rfl, ?_⟩, ?_⟩
      · cases op with
        | mutexUnlock lock => cases hwatched
        | _ => rfl
      · cases op with
        | mutexLock lock =>
            cases isLockRace with
            | false => cases hwatched
            | true =>
                cases hwatched
                simp only [ExecutionTracker.runSection, ExecutionTracker.enter, beforeMutexLock,
                  hunfinished] at hrun
                cases hrun
                refine ⟨fun _ _ => by rintro ⟨⟩, Or.inr ⟨.lock addr, ?_, rfl,
                  fun _ => by rintro ⟨⟩⟩⟩
                exact Function.update_self _ _ _
        | mutexTrylock lock =>
            cases isLockRace with
            | false => cases hwatched
            | true =>
                cases hwatched
                cases hrun
                exact ⟨fun _ _ => by rintro ⟨⟩, Or.inl ⟨rfl, _, rfl⟩⟩
        | point p =>
            simp only [ExecutionTracker.runSection, ExecutionTracker.enter, thrillePoint,
              safe_assert_bind] at hrun
            obtain ⟨_, hrun⟩ := hrun
            cases hrun
            refine ⟨fun _ _ => by rintro ⟨⟩, Or.inr ?_⟩
            cases isLockRace with
            | false => exact Function.update_self _ _ _
            | true => cases p <;> cases hwatched
        | _ => cases hwatched
  | relock w =>
      refine ⟨⟨rfl, rfl, rfl⟩, ?_⟩
      cases isLockRace with
      | false => cases hwatched
      | true =>
          cases hwatched
          simp only [ExecutionTracker.runSection, ExecutionTracker.beforeMutexLockInWait,
            safe_assert_bind] at hrun
          obtain ⟨_, hrun⟩ := hrun
          cases hrun
          refine ⟨fun _ _ => by rintro ⟨⟩, Or.inr ⟨.relock w false, ?_, rfl, fun _ => by rintro ⟨⟩⟩⟩
          exact Function.update_self _ _ _
  | _ => cases hwatched

-- The assertions in `isRacing` hold: what is postponed is known, and is not the caller.
theorem racersAmong_spec (h : Covers isLockRace st H s (x, self)) (hself : self.isPaused t = false)
    (info : ActiveRaceInfo) (hme : info.me = some t) (threads : List ThrID)
    (hthreads : ∀ u ∈ threads, self.isPaused u = true) :
    ∃ racers, self.racersAmong info threads = .ok racers ∧ racers.Sublist threads ∧
      ∀ u ∈ racers, (self.infoOf u).addr = info.addr := by
  induction threads with
  | nil => exact ⟨[], rfl, List.Sublist.refl _, nofun⟩
  | cons thread threads ih =>
      obtain ⟨racers, hracers, hsub, hraces⟩ :=
        ih fun u hu => hthreads u (List.mem_cons_of_mem _ hu)
      have hpaused := hthreads thread List.mem_cons_self
      obtain ⟨hknown, _⟩ := h.known thread hpaused
      have hknown : (self.infoOf thread).me = some thread := hknown
      have hdiffer : ((self.infoOf thread).me != info.me) = true := by
        rw [hknown, hme]
        refine bne_iff_ne.mpr fun heq => ?_
        cases heq
        rw [hself] at hpaused
        cases hpaused
      obtain ⟨isRace, hrace, hsame⟩ : ∃ isRace, (self.infoOf thread).racesWith info = .ok isRace ∧
          (isRace = true → (self.infoOf thread).addr = info.addr) := by
        rw [ActiveRaceInfo.racesWith, hdiffer]
        refine ⟨_, rfl, fun hrace => ?_⟩
        by_contra hother
        rw [if_pos hother] at hrace
        cases hrace
      refine ⟨if isRace then thread :: racers else racers, ?_, ?_⟩
      · rw [racersAmong, hknown, hrace, hracers]
        rfl
      · cases isRace with
        | true =>
            refine ⟨hsub.cons_cons thread, fun u hu => ?_⟩
            rcases List.mem_cons.mp hu with rfl | hu
            · exact hsame rfl
            · exact hraces u hu
        | false => exact ⟨hsub.cons thread, hraces⟩

-- A handler lets the threads go that race with the caller, or postpones the caller.
theorem handleAccess_spec (hre : Reenables isLockRace st H s reenableThreadIfLegal)
    (h : Covers isLockRace st H s (x, self)) (hself : self.isPaused t = false)
    (ret_addr addr : Addr) (iswrite : Bool) :
    (∃ x' self' raceFound, self.handleAccess reenableThreadIfLegal x t ret_addr addr iswrite =
        .ok (x', self') ∧ Covers isLockRace st H s (x', self') ∧
      Later { self with raceFound } self' ∧ (raceFound = self.raceFound ∨
        (ret_addr = self.target1 ∨ ret_addr = self.target2) ∧
          ∃ u, self.isPaused u = true ∧ (self.infoOf u).addr = addr)) ∨
      self.handleAccess reenableThreadIfLegal x t ret_addr addr iswrite =
        .ok (x.disableThread t,
          (self.setPaused t true).setInfo t { me := some t, addr, iswrite }) := by
  unfold handleAccess
  split
  · rename_i htarget
    obtain ⟨racers, hracers, hsub, hraces⟩ := racersAmong_spec h hself
      { me := some t, addr, iswrite } rfl self.postponed fun u hu => (mem_postponed self u).mp hu
    have hracing : self.isRacing { me := some t, addr, iswrite } = .ok racers := hracers
    by_cases hsome : 0 < racers.length
    · left
      have hfound : Covers isLockRace st H s (x, { self with raceFound := true }) :=
        ⟨h.shadow, h.known⟩
      obtain ⟨x', self', hresult, hcovers, hlater⟩ :=
        enableSpecificActiveTestingPaused_spec hre hfound racers
          (hsub.nodup (nodup_postponed self)) fun u hu => (mem_postponed self u).mp (hsub.subset hu)
      refine ⟨x', self', true, ?_, hcovers, hlater, Or.inr ⟨htarget, ?_⟩⟩
      · simp only [hracing, bind, Except.bind, if_pos hsome]
        exact hresult
      · obtain ⟨u, hu⟩ := List.exists_mem_of_length_pos hsome
        exact ⟨u, (mem_postponed self u).mp (hsub.subset hu), hraces u hu⟩
    · right
      simp only [hracing, bind, Except.bind, if_neg hsome]
      rfl
  · exact Or.inl ⟨x, self, self.raceFound, rfl, h, .refl self, Or.inl rfl⟩

-- What is postponed after the caller has been.
theorem postponed_self (info : ActiveRaceInfo) (u : ThrID) :
    ((self.setPaused t true).setInfo t info).isPaused u = true ↔
      self.isPaused u = true ∨ u = t := by
  show (self.setPaused t true).isPaused u = true ↔ _
  rw [isPaused_setPaused]
  by_cases hut : t = u
  · rw [if_pos hut]
    exact ⟨fun _ => Or.inr hut.symm, fun _ => rfl⟩
  · rw [if_neg hut]
    exact ⟨Or.inl, fun hu => hu.resolve_right (Ne.symm hut)⟩

theorem infoOf_self (info : ActiveRaceInfo) (u : ThrID) :
    ((self.setPaused t true).setInfo t info).infoOf u = if t = u then info else self.infoOf u :=
  OrderedMap.getD_insert_eq _ _ _ _ _

end RandomActiveTester

namespace Covers

variable {ρ : Type} {isLockRace : Bool} {st : ThrID → Stage} {H H' : ThrID → Prop}
  {s x : ExecutionTracker} {self : RandomActiveTester ρ} {t : ThrID}

-- The caller is postponed where it is.
theorem postpone (h : Covers isLockRace st H s (x, self)) (hs : Settled st s)
    (hself : self.isPaused t = false) (hH : ¬H t) (info : ActiveRaceInfo) (hme : info.me = some t)
    (hpostponed : Postponed isLockRace info.addr (st t)) :
    Covers isLockRace st H s (x.disableThread t, (self.setPaused t true).setInfo t info) where
  shadow := by
    have hentries : x.entries t = s.entries t := h.shadow.free t (by rw [hself]; nofun)
    have hdisabled : (x.disableThread t).entries t = { s.entries t with enabled := false } := by
      rw [entries_disableThread, if_pos rfl, hentries]
    refine h.shadow.postpone (RandomActiveTester.postponed_self info) (fun _ _ => Iff.rfl)
      (congrArg (fun y => y.disableThread t) h.shadow.same) (fun _ _ => rfl) (fun u hut => ?_) ?_ ?_
      (fun _ => ?_) fun hyes => absurd hyes hH
    · rw [entries_disableThread, if_neg (Ne.symm hut)]
    · cases isLockRace with
      | false =>
          rw [hs.at_access hpostponed]
          rfl
      | true =>
          rcases hs.at_mutex hpostponed with ⟨_, hready⟩ | ⟨_, hwait⟩
          · rw [hready]
            rfl
          · rw [hwait]
            rfl
    · rw [hdisabled]
    · rw [hdisabled]
      exact ⟨rfl, rfl⟩
  known u hu := by
    rw [RandomActiveTester.infoOf_self]
    by_cases hut : t = u
    · rw [if_pos hut, ← hut]
      exact ⟨hme, hpostponed⟩
    · rw [if_neg hut]
      exact h.known u (((RandomActiveTester.postponed_self info u).mp hu).resolve_right
        (Ne.symm hut))

-- The caller is postponed at a trylock, where the base class has it at a lock.
theorem relock (h : Covers true st H s (x, self)) (hself : self.isPaused t = false)
    (hactive : s.entries t = { enabled := true }) (hH : ∀ u, u ≠ t → (H' u ↔ H u)) (hH' : H' t)
    (info : ActiveRaceInfo) (hme : info.me = some t) :
    Covers true (Function.update st t (.pending (.lock info.addr))) H'
      (s.determineLockStatus t info.addr)
      ((x.enableThread t).disableThread t, (self.setPaused t true).setInfo t info) where
  shadow := by
    have hentries : x.entries t = { enabled := true } :=
      (h.shadow.free t (by rw [hself]; rintro ⟨⟩)).trans hactive
    have hx (u : ThrID) : ((x.enableThread t).disableThread t).entries u =
        if t = u then { x.entries u with enabled := false } else x.entries u := by
      rw [entries_disableThread, entries_enableThread]
      split
      · rfl
      · rfl
    have hdisabled : ((x.enableThread t).disableThread t).entries t = { enabled := false } := by
      rw [hx, if_pos rfl, hentries]
    refine h.shadow.postpone (RandomActiveTester.postponed_self info) hH ?_ (fun u hut => ?_)
      (fun u hut => ?_) ?_ ?_ (fun hnot => absurd hH' hnot) fun _ => ?_
    · have hshade : (s.determineLockStatus t info.addr).shade
          ((x.enableThread t).disableThread t) = s.shade ((x.enableThread t).disableThread t) := by
        unfold ExecutionTracker.determineLockStatus
        split
        · rfl
        · rfl
      rw [hshade]
      exact congrArg (fun y => (y.enableThread t).disableThread t) h.shadow.same
    · rw [entries_determineLockStatus, if_neg (Ne.symm hut)]
    · rw [hx, if_neg (Ne.symm hut)]
    · rw [entries_determineLockStatus, if_pos rfl, hactive]
      split
      · rfl
      · rfl
    · rw [hdisabled]
    · rw [hdisabled]
      exact ⟨rfl, rfl⟩
  known u hu := by
    rw [RandomActiveTester.infoOf_self]
    by_cases hut : t = u
    · subst hut
      rw [if_pos rfl, Function.update_self]
      exact ⟨hme, .lock info.addr, rfl, rfl, fun _ => by rintro ⟨⟩⟩
    · rw [if_neg hut, Function.update_of_ne (Ne.symm hut)]
      exact h.known u (((RandomActiveTester.postponed_self info u).mp hu).resolve_right
        (Ne.symm hut))

end Covers

-- The release of a mutex: what the tester disables again is what is postponed.
theorem RandomLockTester.handleAfterMutexUnlock_spec {ρ : Type} {H : ThrID → Prop} {D : Prop}
    {s x : ExecutionTracker} {self : RandomActiveTester ρ}
    (h : Shadow (fun u => self.isPaused u = true) H D s x) :
    ∃ x', RandomLockTester.handleAfterMutexUnlock self x = .ok (x', self) ∧
      Shadow (fun u => self.isPaused u = true) H True s x' := by
  have hmem (u : ThrID) : u ∈ self.postponed ↔ self.isPaused u = true := self.mem_postponed u
  refine ⟨_, rfl, ?_⟩
  have hentries (u : ThrID) : ({ x with
      enable_map := setAll x.enable_map self.postponed false } : ExecutionTracker).entries u =
      if self.isPaused u = true then { x.entries u with enabled := false } else x.entries u := by
    simp only [entries, setAll_getD, hmem]
    split
    · rfl
    · rfl
  refine ⟨congrArg (fun y => { y with
    enable_map := setAll x.enable_map self.postponed false }) h.same, fun u hu => ?_, h.bare,
    fun u hu hshown => ?_, fun u hu hhidden => ?_, fun _ u hu => ?_⟩
  · rw [hentries, if_neg hu]
    exact h.free u hu
  · rw [hentries, if_pos hu]
    exact h.shown u hu hshown
  · rw [hentries, if_pos hu]
    exact h.hidden u hu hhidden
  · rw [hentries, if_pos hu]

end Thrille
