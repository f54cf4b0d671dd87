import Thrille.Serializer.Meets

namespace Thrille

open ExecutionTracker

namespace ExecutionTracker

variable {self tr : ExecutionTracker} {t : ThrID}

theorem states_waitWakeThread (target : ThrID) (h : self.waitWakeThread target = .ok tr) :
    tr.lockState = self.lockState ∧ tr.semState = self.semState := by
  unfold waitWakeThread at h
  split at h
  · cases h
    exact ⟨rfl, rfl⟩
  · cases h

theorem states_launch (target : ThrID) (h : self.launch target = .ok tr) :
    tr.lockState = self.lockState ∧ tr.semState = self.semState := by
  unfold launch at h
  split at h
  · obtain ⟨hlocks, hsems⟩ := states_waitWakeThread target h
    exact ⟨hlocks, hsems⟩
  · unfold wakeThread at h
    split at h
    · cases h
      exact ⟨rfl, rfl⟩
    · cases h

variable (self t)

theorem states_recordScheduleInfo (target : ThrID) :
    (self.recordScheduleInfo t target).lockState = self.lockState ∧
      (self.recordScheduleInfo t target).semState = self.semState := by
  unfold recordScheduleInfo
  split
  · exact ⟨rfl, rfl⟩
  · split
    · exact ⟨rfl, rfl⟩
    · exact ⟨rfl, rfl⟩

theorem states_afterSchedule (pc : Pc) :
    (self.afterSchedule t pc).lockState = self.lockState ∧
      (self.afterSchedule t pc).semState = self.semState := by
  unfold afterSchedule
  split
  · exact ⟨rfl, rfl⟩
  · exact ⟨rfl, rfl⟩

end ExecutionTracker

namespace System

variable {σ : Type} {v : Virtual σ} {s s' : System σ} {t : ThrID} {ret_addr : Addr} {op : Op}
  {c : Control}

theorem Performed.states {pc : Pc} {tr tr' : ExecutionTracker} {pcs pcs' : ThrID → Pc} {eff : Effect}
    (h : Performed t pc tr pcs eff tr' pcs') :
    tr'.lockState = tr.lockState ∧ tr'.semState = tr.semState := by
  cases h with
  | goto pc' => exact ⟨rfl, rfl⟩
  | created child pc' => exact ⟨rfl, rfl⟩
  | signalChoice info u => exact ⟨rfl, rfl⟩
  | signalled info u tracker hwake => exact states_waitWakeThread u hwake
  | schedule info r target tracker henabled hlaunch =>
      obtain ⟨hlocks, hsems⟩ := states_launch target hlaunch
      obtain ⟨hlocks', hsems'⟩ := states_recordScheduleInfo tr info.thread target
      obtain ⟨hlocks'', hsems''⟩ := states_afterSchedule tracker t pc
      exact ⟨hlocks''.trans (hlocks.trans hlocks'), hsems''.trans (hsems.trans hsems')⟩

-- The other threads stay where they are, apart from one that is made.
theorem Performed.others {pc : Pc} {tr tr' : ExecutionTracker} {pcs pcs' : ThrID → Pc} {eff : Effect}
    (h : Performed t pc tr pcs eff tr' pcs') (u : ThrID) (hut : u ≠ t) :
    pcs' u = pcs u ∨ pcs' u = .created := by
  cases h with
  | created child pc' =>
      rw [Function.update_of_ne hut]
      by_cases hchild : u = child
      · rw [hchild, Function.update_self]
        exact Or.inr rfl
      · rw [Function.update_of_ne hchild]
        exact Or.inl rfl
  | _ => exact Or.inl (Function.update_of_ne hut _ _)

theorem runThread_barriers (pc : Pc) (hrunning : (s.runThread v t pc).stopped = none) :
    (s.runThread v t pc).barriers = s.barriers.observe t pc := by
  unfold runThread at hrunning ⊢
  cases hrun : s.tracker.runSection t pc with
  | error reason =>
      rw [hrun] at hrunning
      cases hrunning
  | ok result =>
      obtain ⟨tr, eff⟩ := result
      rw [hrun] at hrunning
      dsimp only at hrunning ⊢
      cases eff with
      | goto pc' => rfl
      | created child pc' => rfl
      | signalChoice info =>
          simp only [perform] at hrunning ⊢
          split
          · rfl
          · split
            · rfl
            · rfl
      | signalled info u =>
          simp only [perform] at hrunning ⊢
          split
          · rfl
          · rfl
      | schedule info r =>
          simp only [perform] at hrunning ⊢
          split at hrunning
          · rename_i hstopped
            rw [hrunning] at hstopped
            cases hstopped
          · rename_i hstopped
            rw [if_neg hstopped]
            have hnone : (schedule v { s with
                tracker := tr
                barriers := s.barriers.observe t pc } info).stopped = none := by
              simpa using hstopped
            obtain ⟨_, _, _, _, _, _, _, _, _, _, heq⟩ := schedule_cases info hnone
            rw [heq]
            rfl

-- What POSIX asks of a program as far as it matters here: no mutex is used that is destroyed, no
-- object is initialised, and no mutex destroyed, while a thread is at it, and threads are created.
def Posix (s : System σ) (_ : ThrID) (_ : Addr) (op : Op) : Prop :=
  (∀ m, op.mutex = some m → s.tracker.mutexes m ≠ .destroyed) ∧
  match op with
  | .mutexInit lock => ∀ u, (s.pcs u).stage.mutex ≠ some lock
  | .mutexDestroy lock => ∀ u, (s.pcs u).stage.mutex ≠ some lock
  | .semInit sem _ => ∀ u, (s.pcs u).stage.sem ≠ some sem
  | .barrierInit barrier _ => s.barriers.arrived barrier = 0
  | .create ret_val => ret_val = OPERATION_SUCCESSFUL
  | _ => True

theorem Posix.congr (h : s.Posix t ret_addr op) (hmutexes : s'.tracker.mutexes = s.tracker.mutexes)
    (hmutex : ∀ u, (s'.pcs u).stage.mutex = (s.pcs u).stage.mutex)
    (hsem : ∀ u, (s'.pcs u).stage.sem = (s.pcs u).stage.sem)
    (hbarriers : s'.barriers = s.barriers) : s'.Posix t ret_addr op := by
  obtain ⟨halive, hrest⟩ := h
  refine ⟨fun m hm => ?_, ?_⟩
  · rw [hmutexes]
    exact halive m hm
  · cases op with
    | mutexInit lock =>
        intro u
        rw [hmutex]
        exact hrest u
    | mutexDestroy lock =>
        intro u
        rw [hmutex]
        exact hrest u
    | semInit sem value =>
        intro u
        rw [hsem]
        exact hrest u
    | barrierInit barrier count =>
        show s'.barriers.arrived barrier = 0
        rw [hbarriers]
        exact hrest
    | _ => exact hrest

-- The maps of the tracker agree with the objects.
structure Tracked (s : System σ) : Prop where
  locks : ∃ late, LockMaps s.tracker late ∧ ∀ m, late = some m ↔ ∃ u, (s.pcs u).late = some m
  alive : ∀ u m, (s.pcs u).stage.mutex = some m → s.tracker.mutexes m ≠ .destroyed
  sems : SemMaps s.tracker
  meets : Meets s.tracker s.barriers s.pcs
  asked : ∀ u ret_addr op, s.pcs u = .enter ret_addr op → s.Posix u ret_addr op
  opens : ∀ u m, s.pcs u ≠ .originalLock m

namespace Tracked

theorem initial (scheduler : σ) (read_schedule : List DecisionInfo) :
    Tracked (System.initial scheduler read_schedule) := by
  have hstage (u : ThrID) : ((System.initial scheduler read_schedule).pcs u).stage = .active ∨
      ((System.initial scheduler read_schedule).pcs u).stage = .unborn := by
    rw [initial_pcs]
    split
    · exact Or.inl rfl
    · exact Or.inr rfl
  have hpcs (u : ThrID) : (System.initial scheduler read_schedule).pcs u = .unborn ∨
      (System.initial scheduler read_schedule).pcs u = .program OPERATION_SUCCESSFUL := by
    rw [initial_pcs]
    split
    · exact Or.inr rfl
    · exact Or.inl rfl
  have hentries (u : ThrID) : (System.initial scheduler read_schedule).tracker.entries u =
      { enabled := u = 0 } := by
    have hmap : (System.initial scheduler read_schedule).tracker.entries u =
        (ExecutionTracker.new).entries u := rfl
    rw [hmap, ExecutionTracker.new, entries_initializeThreadData]
    by_cases hu : 0 = u
    · subst hu
      simp [ExecutionTracker.entries]
    · simp [ExecutionTracker.entries, hu, Ne.symm hu]
  refine ⟨⟨none, ⟨fun u m hu => ?_, fun u m hu => ?_, by rintro _ ⟨⟩⟩, fun m => ?_⟩,
    fun u m hu => ?_, ⟨fun u x hu => ?_, fun u x hu => ?_⟩,
    ⟨by rintro _ _ ⟨⟩, fun k => ?_, fun u k hu => ?_, fun u k hu => ?_⟩,
    fun u addr op hu => ?_, fun u m hu => ?_⟩
  · rw [hentries] at hu
    cases hu
  · rw [hentries] at hu
    cases hu
  · refine ⟨by rintro ⟨⟩, fun hout => ?_⟩
    obtain ⟨u, hu⟩ := hout
    rcases hpcs u with hat | hat <;> rw [hat] at hu <;> cases hu
  · rcases hstage u with hat | hat <;> rw [hat] at hu <;> cases hu
  · rw [hentries] at hu
    cases hu
  · rw [hentries] at hu
    cases hu
  · rfl
  · exact absurd hu (by simp [System.initial, ExecutionTracker.new, initializeThreadData,
      enableThread, BarrierTracker.getThreadsWaitingOnBarrier, PtrMap.mem_threadsAt])
  · rcases hstage u with hat | hat <;> rw [hat] at hu <;> rcases hu with hu | hu <;> cases hu
  · rcases hpcs u with hat | hat <;> rw [hat] at hu <;> cases hu
  · rcases hpcs u with hat | hat <;> rw [hat] at hu <;> cases hu

-- A thread takes a step that changes neither an object nor what it is at.
theorem move (h : Tracked s) (pc' : Pc) (hpcs : s'.pcs = Function.update s.pcs t pc')
    (hlocks : s'.tracker.lockState = s.tracker.lockState)
    (hsems : s'.tracker.semState = s.tracker.semState) (hbt : s'.tracker.bt = s.tracker.bt)
    (hbarriers : s'.barriers = s.barriers)
    (hmutex : pc'.stage.mutex = (s.pcs t).stage.mutex) (hsem : pc'.stage.sem = (s.pcs t).stage.sem)
    (hat : ∀ k, pc'.stage.At k → (s.pcs t).stage.At k) (hlate : pc'.late = (s.pcs t).late)
    (henter : ∀ ret_addr op, pc' = .enter ret_addr op → s'.Posix t ret_addr op)
    (hopen : ∀ m, pc' ≠ .originalLock m) : Tracked s' := by
  have hsame {α : Type} (f : Pc → α) (hf : f pc' = f (s.pcs t)) (u : ThrID) :
      f (s'.pcs u) = f (s.pcs u) := by
    rw [hpcs]
    by_cases hu : u = t
    · rw [hu, Function.update_self]
      exact hf
    · rw [Function.update_of_ne hu]
  have hmutexes : s'.tracker.mutexes = s.tracker.mutexes := (lockEntries (u := 0) hlocks).2.2
  have hmutex' := hsame (fun pc => pc.stage.mutex) hmutex
  have hsem' := hsame (fun pc => pc.stage.sem) hsem
  refine ⟨?_, fun u m hu => ?_, h.sems.congr hsems, ?_, fun u addr op hu => ?_, fun u m hu => ?_⟩
  · obtain ⟨late, hmaps, hiff⟩ := h.locks
    refine ⟨late, hmaps.congr hlocks, fun m => ?_⟩
    simp only [hiff, hsame (fun pc => pc.late) hlate]
  · rw [hmutexes]
    exact h.alive u m ((hmutex' u).symm.trans hu)
  · rw [hbarriers]
    refine h.meets.keeps (by rw [hbt]) (by rw [hbt]) fun u k hu => ?_
    rw [hpcs] at hu
    by_cases hut : u = t
    · rw [hut, Function.update_self] at hu
      rw [hut]
      exact hat k hu
    · rwa [Function.update_of_ne hut] at hu
  · by_cases hut : u = t
    · rw [hut, hpcs, Function.update_self] at hu
      rw [hut]
      exact henter addr op hu
    · rw [hpcs, Function.update_of_ne hut] at hu
      exact (h.asked u addr op hu).congr hmutexes hmutex' hsem' hbarriers
  · rw [hpcs] at hu
    by_cases hut : u = t
    · rw [hut, Function.update_self] at hu
      exact hopen m hu
    · rw [Function.update_of_ne hut] at hu
      exact h.opens u m hu

-- A section of the thread whose turn it is. `s'` has its end, whatever the threads that it lets go
-- are told.
theorem runSection (hserial : Serial s c) (h : Tracked s)
    (hne : ∀ u, u ≠ t → c ≠ .running u)
    {tr : ExecutionTracker} {eff : Effect}
    (hrun : s.tracker.runSection t (s.pcs t) = .ok (tr, eff))
    (hlocks : s'.tracker.lockState = tr.lockState) (hsems : s'.tracker.semState = tr.semState)
    (hbt : s'.tracker.bt = tr.bt) (hbarriers : s'.barriers = s.barriers.observe t (s.pcs t))
    (hnext : (s.pcs t).Next (s'.pcs t))
    (hscheduled : ∀ info r, eff = .schedule info r → s'.pcs t = .launched r)
    (hothers : ∀ u, u ≠ t → s'.pcs u = s.pcs u ∨ s'.pcs u = .created) : Tracked s' := by
  have hc := hserial.consistent
  obtain ⟨hlate', henter', hopen'⟩ := hnext.comes
  have hmutexes : s'.tracker.mutexes = tr.mutexes := (lockEntries (u := 0) hlocks).2.2
  -- the others are not in the middle of anything
  have hrunner (u : ThrID) (hut : u ≠ t) (hruns : (s.pcs u).runs = true)
      (hwakes : (s.pcs u).wakes = none) (hready : ∀ sig x, s.pcs u ≠ .waitReady sig x) : False :=
    hne u hut (hserial.controlled.runner hruns hwakes hready)
  have hlate (u : ThrID) (hut : u ≠ t) : (s.pcs u).late = none := by
    cases hpc : s.pcs u with
    | afterUnlock addr lock ret_val =>
        exact (hrunner u hut (by rw [hpc]; rfl) (by rw [hpc]; rfl)
          (by rw [hpc]; exact fun _ _ => nofun)).elim
    | _ => rfl
  have hasked (addr : Addr) (op : Op) (hpc : s.pcs t = .enter addr op) := h.asked t addr op hpc
  have hunused (addr m : Addr) (hpc : s.pcs t = .enter addr (.mutexInit m) ∨
      s.pcs t = .enter addr (.mutexDestroy m)) (u : ThrID) : (s.pcs u).stage.mutex ≠ some m := by
    rcases hpc with hpc | hpc
    · exact (hasked addr _ hpc).2 u
    · exact (hasked addr _ hpc).2 u
  refine ⟨⟨(s.pcs t).unlocks, ?_, fun m => ⟨fun hm => ⟨t, hlate'.trans hm⟩, ?_⟩⟩,
    fun u m hu hdestroyed => ?_, ?_, ?_, fun u addr op hu => ?_, fun u m hu => ?_⟩
  · obtain ⟨late, hmaps, hiff⟩ := h.locks
    have hself : late = (s.pcs t).late := by
      apply Option.ext
      intro m
      rw [hiff m]
      refine ⟨fun ⟨u, hu⟩ => ?_, fun hm => ⟨t, hm⟩⟩
      by_cases hut : u = t
      · rwa [hut] at hu
      · rw [hlate u hut] at hu
        cases hu
    rw [hself] at hmaps
    exact (hmaps.runSection hc rfl (h.opens t) (h.alive t) hunused hrun).congr hlocks
  · rintro ⟨u, hu⟩
    by_cases hut : u = t
    · rw [hut, hlate'] at hu
      exact hu
    · rcases hothers u hut with heq | heq
      · rw [heq, hlate u hut] at hu
        cases hu
      · rw [heq] at hu
        cases hu
  · -- the mutex was alive before, and it is not destroyed by this section
    rw [hmutexes] at hdestroyed
    have hbefore : (s.pcs u).stage.mutex = some m ∨
        ∃ addr op, s.pcs t = .enter addr op ∧ op.mutex = some m := by
      by_cases hut : u = t
      · subst hut
        exact hnext.mutex hu
      · rcases hothers u hut with heq | heq
        · rw [heq] at hu
          exact Or.inl hu
        · rw [heq] at hu
          cases hu
    rcases destroyed_of_runSection hrun hdestroyed with hold | ⟨addr, hpc⟩
    · rcases hbefore with hmutex | ⟨addr, op, hpc, hop⟩
      · exact h.alive u m hmutex hold
      · exact (hasked addr op hpc).1 m hop hold
    · rcases hbefore with hmutex | ⟨addr', op, hpc', hop⟩
      · exact hunused addr m (Or.inr hpc) u hmutex
      · rw [hpc] at hpc'
        cases hpc'
        cases hop
  · exact (h.sems.runSection hc (fun addr sem value hpc => (hasked addr _ hpc).2) hrun).congr hsems
  · rw [hbarriers]
    exact h.meets.runSection hc (fun addr bar count hpc => (hasked addr _ hpc).2) hrun hbt hnext
      hothers
  · by_cases hut : u = t
    · rw [hut] at hu
      exact absurd hu (henter' addr op)
    · rcases hothers u hut with heq | heq
      · rw [heq] at hu
        exact (hrunner u hut (by rw [hu]; rfl) (by rw [hu]; rfl)
          (by rw [hu]; exact fun _ _ => nofun)).elim
      · rw [heq] at hu
        cases hu
  · by_cases hut : u = t
    · -- only a thread that has finished would turn to the original call
      rw [hut] at hu
      obtain ⟨addr, hpc⟩ := hopen' m hu
      have hfin : s.tracker.threadIsFinished t = false := by
        rw [threadIsFinished, hc.finished_eq, hpc]
        rfl
      rw [hpc] at hrun
      simp only [ExecutionTracker.runSection, ExecutionTracker.enter, beforeMutexLock, hfin,
        Bool.false_eq_true, if_false] at hrun
      cases hrun
      rw [hscheduled _ _ rfl] at hu
      cases hu
    · rcases hothers u hut with heq | heq
      · rw [heq] at hu
        exact h.opens u m hu
      · rw [heq] at hu
        cases hu

-- A step of any thread.
theorem step (hserial : Serial s c) (h : Tracked s) (hstep : s.step v t ret_addr op = some s')
    (hrunning : s'.stopped = none)
    (hasks : (s.pcs t).inProgram = true → s.Posix t ret_addr op) : Tracked s' := by
  obtain ⟨_, htransition⟩ := step_iff.mp hstep
  cases htransition with
  | asks ret_val hpc =>
      refine h.move _ rfl rfl rfl rfl rfl (by rw [hpc]; rfl) (by rw [hpc]; rfl) (fun k hk => ?_)
        (by rw [hpc]; rfl) (fun addr op' heq => ?_) (by rintro _ ⟨⟩)
      · rcases hk with hk | hk <;> cases hk
      · cases heq
        refine (hasks (by rw [hpc]; rfl)).congr rfl (fun u => ?_) (fun u => ?_) rfl
        · by_cases hu : u = t
          · rw [hu, hpc]
            simp [goto, Pc.stage]
          · simp [goto, hu]
        · by_cases hu : u = t
          · rw [hu, hpc]
            simp [goto, Pc.stage]
          · simp [goto, hu]
  | spawns addr child hpc =>
      have hchild := hserial.controlled.spawn t addr child _ hpc
      have hne : t ≠ child := by
        rintro rfl
        rw [hpc] at hchild
        cases hchild
      have hstarted : Tracked (s.goto child .threadStart) :=
        h.move _ rfl rfl rfl rfl rfl (by rw [hchild]; rfl) (by rw [hchild]; rfl)
          (fun k hk => by rw [hchild]; exact hk) (by rw [hchild]; rfl) (by rintro _ _ ⟨⟩)
          (by rintro _ ⟨⟩)
      have hself : (s.goto child .threadStart).pcs t = .spawn addr child OPERATION_SUCCESSFUL := by
        rw [← hpc]
        exact Function.update_of_ne hne _ _
      exact hstarted.move _ rfl rfl rfl rfl rfl (by rw [hself]; rfl) (by rw [hself]; rfl)
        (fun k hk => by rw [hself]; exact hk) (by rw [hself]; rfl) (by rintro _ _ ⟨⟩)
        (by rintro _ ⟨⟩)
  | starts hpc hlock =>
      exact h.move _ rfl rfl rfl rfl rfl (by rw [hpc]; rfl) (by rw [hpc]; rfl)
        (fun k hk => by rw [hpc]; exact hk) (by rw [hpc]; rfl) (by rintro _ _ ⟨⟩) (by rintro _ ⟨⟩)
  | unlocks r hpc =>
      exact h.move _ rfl rfl rfl rfl rfl (by rw [hpc]; rfl) (by rw [hpc]; rfl)
        (fun k hk => by rw [hpc]; exact hk) (by rw [hpc]; rfl) (by rintro _ _ ⟨⟩) (by rintro _ ⟨⟩)
  | leaves r hpc hlock =>
      exact h.move _ rfl rfl rfl rfl rfl (by rw [hpc]; rfl) (by rw [hpc]; rfl)
        (fun k hk => by rw [hpc]; exact hk) (by rw [hpc]; rfl) (by rintro _ _ ⟨⟩) (by rintro _ ⟨⟩)
  | resumes k n hpc hsem =>
      refine h.move _ rfl rfl rfl rfl rfl (by rw [hpc]; rfl) ?_ (fun b hb => ?_)
        (by rw [hpc]; rfl) (by rintro _ _ ⟨⟩) (by rintro _ ⟨⟩)
      · rw [hpc]
        cases k <;> rfl
      · rw [hpc]
        rcases hb with hb | hb
        · cases hb
        · cases hb
          exact Or.inl rfl
  | wakes w n hpc hsem =>
      exact h.move _ rfl rfl rfl rfl rfl (by rw [hpc]; rfl) (by rw [hpc]; rfl)
        (fun k hk => by rw [hpc]; exact hk) (by rw [hpc]; rfl) (by rintro _ _ ⟨⟩) (by rintro _ ⟨⟩)
  | runs hsection hlock hready =>
      obtain ⟨tr, eff, hrun, hperformed⟩ := runThread_performed (s.pcs t) hrunning
      obtain ⟨hlocks, hsems⟩ := hperformed.states
      have hends (hne : ∀ u, u ≠ t → c ≠ .running u) : Tracked (s.runThread v t (s.pcs t)) := by
        refine runSection hserial h hne hrun hlocks hsems (congrArg Prod.fst hperformed.waits)
          (runThread_barriers _ hrunning) (hperformed.next (runSection_leads _ hsection hrun))
          (fun info r heq => ?_) hperformed.others
        rw [heq] at hperformed
        rw [hperformed.schedule_eq, Function.update_self]
      rcases hserial.controlled.section_cases hsection
        (fun sig u hat => by rw [hat] at hready; exact hready)
        with rfl | ⟨w, hat, hsignalled, hne⟩ | ⟨x, w, rfl, hat⟩
      · exact hends fun u hut heq => hut (Control.running.inj heq).symm
      · have hrun' := hrun
        rw [hat] at hrun'
        simp only [ExecutionTracker.runSection, ExecutionTracker.checkTimeout, if_pos hsignalled]
          at hrun'
        cases hrun'
        obtain ⟨htracker, hpcs⟩ := hperformed.goto_eq
        refine h.move _ hpcs (by rw [htracker]) (by rw [htracker]) (by rw [htracker]) ?_
          (by rw [hat]; rfl) (by rw [hat]; rfl) (fun k hk => by rw [hat]; exact hk)
          (by rw [hat]; rfl) (by rintro _ _ ⟨⟩) (by rintro _ ⟨⟩)
        rw [runThread_barriers _ hrunning, hat]
        rfl
      · exact hends (by rintro _ _ ⟨⟩)

end Tracked

-- Every state of a run of a program that keeps to the rules.
theorem Reachable.tracked (h : Reachable v Posix s) (hrunning : s.stopped = none) : Tracked s := by
  obtain ⟨scheduler, read_schedule, hrun⟩ := h
  induction hrun with
  | refl => exact Tracked.initial scheduler read_schedule
  | tail hbefore hstep ih =>
      obtain ⟨t, ret_addr, op, hasks, hstep⟩ := hstep
      have hbefore' := (step_iff.mp hstep).1
      rcases Reachable.serial ⟨scheduler, read_schedule, hbefore⟩ with ⟨c, hserial⟩ | hhalted
      · exact (ih hbefore').step hserial hstep hrunning fun _ => hasks
      · exact absurd hbefore' hhalted.stopped

end System

end Thrille
