import Thrille.Randact.Relocks

namespace Thrille

open ExecutionTracker

-- The holder of the global lock after the effect of a section of thread `t`.
def Effect.globalLock (t : ThrID) (global_lock : Option ThrID) : Effect → Option ThrID
  | schedule .. => some t
  | _ => global_lock

-- Nobody else has unlocked a mutex without having told the threads that wait for it.
theorem Serial.late_of_others {σ : Type} {s : System σ} {t : ThrID} {c : Control} (h : Serial s c)
    (hne : ∀ u, u ≠ t → c ≠ .running u) (u : ThrID) (hut : u ≠ t) : (s.pcs u).late = none := by
  cases hpc : s.pcs u with
  | afterUnlock addr lock ret_val =>
      refine absurd (h.controlled.runner (t := u) ?_ ?_ ?_) (hne u hut)
      · rw [hpc]
        rfl
      · rw [hpc]
        rfl
      · rw [hpc]
        exact fun _ _ => nofun
  | _ => rfl

namespace System

variable {σ : Type} {s : System σ} {t : ThrID} {c : Control} {str tr' : ExecutionTracker}
  {seff : Effect} {pcs' : ThrID → Pc}

-- After a section that tells of every mutex that it unlocks, and that goes on at `pc'`.
theorem Tracked.settled (h : Tracked s) (hserial : Serial s c)
    (hne : ∀ u, u ≠ t → c ≠ .running u)
    (hrun : s.tracker.runSection t (s.pcs t) = .ok (str, seff)) {pc' : Pc}
    (hnext : (s.pcs t).Next pc') (hsched : ∀ info r, seff = .schedule info r → pc' = .launched r)
    (hstages : seff.stages t (fun u => (s.pcs u).stage) =
      Function.update (fun u => (s.pcs u).stage) t pc'.stage)
    (hunlocks : (s.pcs t).unlocks = none) :
    Settled (seff.stages t fun u => (s.pcs u).stage) str := by
  have hc := hserial.consistent.runSection (s.pcs t) rfl
    (fun u hu k => hserial.controlled.no_resume hne u hu k)
    (fun ra child rv heq => by rw [(hserial.controlled.child t ra child rv heq).1]; rfl) hrun
  have hself : (s.goto t pc').pcs t = pc' := Function.update_self _ _ _
  have hothers (u : ThrID) (hut : u ≠ t) : (s.goto t pc').pcs u = s.pcs u :=
    Function.update_of_ne hut _ _
  have htracked : Tracked { s.goto t pc' with
      tracker := str, barriers := s.barriers.observe t (s.pcs t) } := by
    refine h.runSection hserial hne hrun rfl rfl rfl rfl ?_ (fun info r heq => ?_) fun u hut => ?_
    · show (s.pcs t).Next ((s.goto t pc').pcs t)
      rwa [hself]
    · show (s.goto t pc').pcs t = .launched r
      rw [hself]
      exact hsched info r heq
    · exact Or.inl (hothers u hut)
  refine ⟨hc.fits, ?_, ?_⟩
  · obtain ⟨late, hmaps, hiff⟩ := htracked.locks
    have hnone : late = none := by
      apply Option.ext
      intro m
      rw [hiff m]
      refine ⟨fun ⟨u, hu⟩ => ?_, nofun⟩
      have hu' : ((s.goto t pc').pcs u).late = some m := hu
      by_cases hut : u = t
      · rw [hut, hself, hnext.comes.1, hunlocks] at hu'
        cases hu'
      · rw [hothers u hut, hserial.late_of_others hne u hut] at hu'
        cases hu'
    rw [hnone] at hmaps
    exact hmaps
  · intro u m hu
    rw [hstages, ← Pc.stage_update] at hu
    exact htracked.alive u m hu

-- A virtual class that makes the two choices that it is given.
def guide (choice signal : Option ThrID) : Virtual σ where
  followingChoiceFromLog scheduler s := (s.fenmap, scheduler)
  pickNextSchedulingChoice scheduler s := (choice, s.fenmap, scheduler)
  selectThreadWaitingOnCond scheduler _ := (signal, scheduler)
  logged s := s.enabled
  admits _ _ := true

theorem getNextChoice_of_nil {log : Logger} (h : log.read_schedule = []) :
    log.getNextChoice = (none, log) := by
  unfold Logger.getNextChoice
  rw [h]

-- Whatever a section may leave behind, there are choices with which it does.
theorem exists_guided (hread : s.log.read_schedule = []) (hrunning : s.stopped = none)
    (hrun : s.tracker.runSection t (s.pcs t) = .ok (str, seff))
    (hperformed : Performed t (s.pcs t) str s.pcs seff tr' pcs') :
    ∃ v : Virtual σ, (s.runThread v t (s.pcs t)).tracker = tr' ∧
      (s.runThread v t (s.pcs t)).pcs = pcs' ∧ (s.runThread v t (s.pcs t)).stopped = none ∧
      (s.runThread v t (s.pcs t)).log.read_schedule = [] ∧
      (s.runThread v t (s.pcs t)).global_lock = seff.globalLock t s.global_lock := by
  have hperform (v : Virtual σ) : s.runThread v t (s.pcs t) =
      perform v { s with tracker := str, barriers := s.barriers.observe t (s.pcs t) } t (s.pcs t)
        seff := by
    unfold runThread
    rw [hrun]
  simp only [hperform]
  clear hperform hrun
  cases hperformed with
  | goto pc' =>
      refine ⟨guide none none, ?_⟩
      exact ⟨rfl, rfl, hrunning, hread, rfl⟩
  | created child pc' =>
      refine ⟨guide none none, ?_⟩
      exact ⟨rfl, rfl, hrunning, hread, rfl⟩
  | signalChoice info u =>
      refine ⟨guide none (some u), ?_⟩
      simp only [perform, Logger.getNextSignalChoice, getNextChoice_of_nil hread]
      exact ⟨rfl, rfl, hrunning, hread, rfl⟩
  | signalled info u tracker hwake =>
      refine ⟨guide none none, ?_⟩
      simp only [perform, hwake]
      refine ⟨rfl, rfl, hrunning, ?_, rfl⟩
      show (s.log.signalScheduling u info).read_schedule = []
      unfold Logger.signalScheduling
      split
      · exact hread
      · exact hread
  | schedule info r target tracker henabled hlaunch =>
      refine ⟨guide (some target) none, ?_⟩
      have hisEnabled : (str.recordScheduleInfo info.thread target).isEnabled target = true := by
        have hkeeps : (str.recordScheduleInfo info.thread target).enable_map = str.enable_map :=
          (str.recordScheduleInfo_keeps info.thread target).2.2.2.1
        rw [ExecutionTracker.isEnabled, hkeeps]
        exact henabled
      have hlaunched : schedule (guide (some target) none) { s with
          tracker := str
          barriers := s.barriers.observe t (s.pcs t) } info = { s with
            tracker
            barriers := s.barriers.observe t (s.pcs t)
            log := s.log.scheduling target { info with
              fromLog := false, enabled := str.enable_map } } := by
        unfold schedule
        simp only [Logger.getNextScheduleChoice, getNextChoice_of_nil hread, guide, launchThread,
          hisEnabled, hlaunch]
        rfl
      simp only [perform]
      rw [hlaunched, if_neg (by simp [hrunning])]
      exact ⟨rfl, rfl, hrunning, hread, rfl⟩

end System

theorem Effect.eq_of_like {seff eff : Effect} (h : seff.Like eff)
    (hnot : ∀ info r, eff ≠ .schedule info r) : eff = seff := by
  cases eff with
  | schedule info r => exact absurd rfl (hnot info r)
  | _ => cases seff <;> exact h

theorem Effect.like_schedule {seff : Effect} {info : SchedPointInfo} {r : Rest}
    (h : seff.Like (.schedule info r)) :
    ∃ info', seff = .schedule info' r ∧ info.thread = info'.thread := by
  cases seff with
  | schedule info' r' =>
      obtain ⟨hthread, rfl⟩ := h
      exact ⟨info', rfl, hthread⟩
  | _ => cases h

theorem launch_sem {tr tr' : ExecutionTracker} {target : ThrID} (h : tr.launch target = .ok tr')
    (u : ThrID) : tr'.sem_map u = tr.sem_map u ∨ u = target := by
  unfold ExecutionTracker.launch ExecutionTracker.waitWakeThread ExecutionTracker.wakeThread at h
  by_cases hu : u = target
  · exact Or.inr hu
  · left
    split at h
    · split at h
      · cases h
        rfl
      · cases h
    · split at h
      · cases h
        exact Function.update_of_ne hu _ _
      · cases h

theorem afterSchedule_sem (tr : ExecutionTracker) (t : ThrID) (pc : Pc) :
    (tr.afterSchedule t pc).sem_map = tr.sem_map := by
  cases pc <;> rfl

theorem Shadow.afterSchedule {P H : ThrID → Prop} {s x : ExecutionTracker} (h : Shadow P H True s x)
    (t : ThrID) (pc : Pc) : Shadow P H True (s.afterSchedule t pc) (x.afterSchedule t pc) := by
  cases pc with
  | checkTimeout w => exact h.setSignalled t true
  | _ => exact h

-- The end of a section over a shadow: the same threads go to the same places, and who is launched
-- is not postponed.
theorem Shadow.performed {P H : ThrID → Prop} {s x tr' : ExecutionTracker} {t : ThrID}
    {pc spc : Pc} {eff seff : Effect} {pcs pcs' : ThrID → Pc} (spcs : ThrID → Pc)
    (h : Shadow P H True s x) (hlike : seff.Like eff)
    (hafter : ∀ tr : ExecutionTracker, tr.afterSchedule t spc = tr.afterSchedule t pc)
    (hperformed : System.Performed t pc x pcs eff tr' pcs') :
    ∃ str' spcs', System.Performed t spc s spcs seff str' spcs' ∧ Shadow P H True str' tr' ∧
      spcs' t = pcs' t ∧ (∀ u, spcs' u = spcs u ∧ pcs' u = pcs u ∨ spcs' u = pcs' u) ∧
      ∀ u n, str'.sem_map u = some (n + 1) → s.sem_map u = some (n + 1) ∨ ¬P u := by
  have hupdate (f g : ThrID → Pc) (p : Pc)
      (hfg : ∀ u, f u = spcs u ∧ g u = pcs u ∨ f u = g u) (u : ThrID) :
      Function.update f t p u = spcs u ∧ Function.update g t p u = pcs u ∨
        Function.update f t p u = Function.update g t p u := by
    by_cases hut : u = t
    · subst hut
      rw [Function.update_self, Function.update_self]
      exact Or.inr rfl
    · rw [Function.update_of_ne hut, Function.update_of_ne hut]
      exact hfg u
  have hkept (u : ThrID) : spcs u = spcs u ∧ pcs u = pcs u ∨ spcs u = pcs u := Or.inl ⟨rfl, rfl⟩
  have hself (f g : ThrID → Pc) (p : Pc) :
      Function.update f t p t = Function.update g t p t := by
    rw [Function.update_self, Function.update_self]
  cases hperformed with
  | goto pc' =>
      obtain rfl := Effect.eq_of_like hlike fun _ _ => nofun
      exact ⟨s, _, .goto pc', h, hself _ _ _, hupdate _ _ _ hkept, fun _ _ => Or.inl⟩
  | created child pc' =>
      obtain rfl := Effect.eq_of_like hlike fun _ _ => nofun
      refine ⟨s, _, .created child pc', h, hself _ _ _, hupdate _ _ _ fun u => ?_, fun _ _ => Or.inl⟩
      by_cases huc : u = child
      · rw [huc, Function.update_self, Function.update_self]
        exact Or.inr rfl
      · rw [Function.update_of_ne huc, Function.update_of_ne huc]
        exact hkept u
  | signalChoice info w =>
      obtain rfl := Effect.eq_of_like hlike fun _ _ => nofun
      exact ⟨s, _, .signalChoice info w, h, hself _ _ _, hupdate _ _ _ hkept, fun _ _ => Or.inl⟩
  | signalled info w tracker hwake =>
      obtain rfl := Effect.eq_of_like hlike fun _ _ => nofun
      have hboth := h.waitWakeThread w
      rw [hwake] at hboth
      obtain ⟨str', hwake', hnext⟩ := hboth.of_ok
      refine ⟨str', _, .signalled info w str' hwake', hnext, hself _ _ _, hupdate _ _ _ hkept,
        fun u n hu => Or.inl ?_⟩
      have hsem : str'.sem_map = s.sem_map := by
        unfold ExecutionTracker.waitWakeThread at hwake'
        split at hwake'
        · cases hwake'
          rfl
        · cases hwake'
      rwa [← hsem]
  | schedule info r target tracker henabled hlaunch =>
      obtain ⟨info', rfl, hthread⟩ := Effect.like_schedule hlike
      have hfree : ¬P target := fun hpaused => by
        have hdown : x.isEnabled target = false := h.down trivial target hpaused
        rw [hdown] at henabled
        cases henabled
      have henabled' : s.isEnabled target = true := by
        have hsame : x.isEnabled target = s.isEnabled target :=
          congrArg Entries.enabled (h.free target hfree)
        rw [← hsame]
        exact henabled
      have hboth := (h.recordScheduleInfo info.thread target).launch target
      rw [hlaunch] at hboth
      obtain ⟨str', hlaunch', hnext⟩ := hboth.of_ok
      have hafter' := hnext.afterSchedule t pc
      rw [← hafter] at hafter'
      rw [hthread] at hlaunch'
      refine ⟨_, _, .schedule info' r target str' henabled' hlaunch', hafter', hself _ _ _,
        hupdate _ _ _ hkept, fun u n hu => ?_⟩
      rw [afterSchedule_sem] at hu
      rcases launch_sem hlaunch' u with hsame | rfl
      · left
        have hkeeps : (s.recordScheduleInfo info'.thread target).sem_map = s.sem_map :=
          congrArg Posts.sem (s.recordScheduleInfo_keeps info'.thread target).1
        rw [hsame] at hu
        rw [← hu]
        exact (congrFun hkeeps u).symm
      · exact Or.inr hfree

end Thrille
