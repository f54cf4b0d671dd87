import Thrille.Replay.Mirrored

namespace Thrille

open Relation Lockstep

section Stops

variable {σ : Type} {v : Virtual σ} {s s' : System σ} {t : ThrID}

namespace ExecutionTracker

variable {self other : ExecutionTracker} {target : ThrID}

theorem enable_map_of_settled (h : self.settled = other.settled) :
    self.enable_map = other.enable_map := by
  have hmap : self.settled.enable_map = other.settled.enable_map := by rw [h]
  exact hmap

-- A thread that cannot be woken in one run cannot be woken in the other one.
theorem waitWakeThread_error (h : self.settled = other.settled) (reason : Stop) :
    self.waitWakeThread target = .error reason ↔ other.waitWakeThread target = .error reason := by
  have hsome : (self.wait_sem_map target).isSome = (other.wait_sem_map target).isSome :=
    (isSome_of_settled h).2
  unfold waitWakeThread
  cases hself : self.wait_sem_map target <;> cases hother : other.wait_sem_map target <;>
    simp [hself, hother] at hsome ⊢

theorem wakeThread_error (h : self.settled = other.settled) (reason : Stop) :
    self.wakeThread target = .error reason ↔ other.wakeThread target = .error reason := by
  have hsome : (self.sem_map target).isSome = (other.sem_map target).isSome :=
    (isSome_of_settled h).1
  unfold wakeThread
  cases hself : self.sem_map target <;> cases hother : other.sem_map target <;>
    simp [hself, hother] at hsome ⊢

theorem launch_error (h : self.settled = other.settled) (reason : Stop) :
    self.launch target = .error reason ↔ other.launch target = .error reason := by
  have hcond : self.settled.cond_map = other.settled.cond_map := by rw [h]
  change self.cond_map = other.cond_map at hcond
  have hset : (self.setSignalled target false).settled =
      (other.setSignalled target false).settled := by
    change (self.settled).setSignalled target false = (other.settled).setSignalled target false
    rw [h]
  unfold launch
  rw [hcond]
  split
  · exact waitWakeThread_error hset reason
  · exact wakeThread_error h reason

end ExecutionTracker

namespace System

-- How two systems stand to each other of which one is where the other one is.
structure Alike (s s' : System σ) : Prop where
  stopped : s.stopped = s'.stopped
  schedule : s.log.schedule = s'.log.schedule

structure Same (s s' : System σ) : Prop extends Alike s s' where
  settled : s.tracker.settled = s'.tracker.settled
  scheduler : s.scheduler = s'.scheduler
  read : s.log.read_schedule.map DecisionInfo.getChosen =
    s'.log.read_schedule.map DecisionInfo.getChosen

theorem Alike.stop (h : s.log.schedule = s'.log.schedule) (reason : Stop) :
    Alike (s.stop reason) (s'.stop reason) := ⟨rfl, h⟩

-- Two launches of one thread fail in the same way, or go on.
theorem Same.launchThread (h : Same s s') (target : ThrID) (info : SchedPointInfo) :
    Alike (s.launchThread v target info) (s'.launchThread v target info) := by
  have hschedule : (s.log.scheduling target { info with enabled := v.logged info }).schedule =
      (s'.log.scheduling target { info with enabled := v.logged info }).schedule := by
    unfold Logger.scheduling
    rw [h.schedule]
  have henabled : s.tracker.isEnabled target = s'.tracker.isEnabled target := by
    unfold ExecutionTracker.isEnabled
    rw [ExecutionTracker.enable_map_of_settled h.settled]
  unfold System.launchThread
  dsimp only
  rw [henabled]
  split
  · exact .stop hschedule _
  · split
    · exact .stop hschedule _
    · cases hlaunch : s.tracker.launch target with
      | error reason =>
          rw [ExecutionTracker.launch_error h.settled] at hlaunch
          rw [hlaunch]
          exact .stop hschedule reason
      | ok tracker =>
          obtain ⟨tracker', hlaunch'⟩ := ExecutionTracker.launch_of_settled h.settled hlaunch
          rw [hlaunch']
          exact ⟨h.stopped, hschedule⟩

theorem Same.deadlockCheck (h : Same s s') : Alike s.deadlockCheck s'.deadlockCheck := by
  unfold System.deadlockCheck
  rw [ExecutionTracker.enable_map_of_settled h.settled]
  split
  · exact .stop h.schedule _
  · exact .stop h.schedule _

theorem Same.recordScheduleInfo (h : Same s s') (u target : ThrID) :
    (s.tracker.recordScheduleInfo u target).settled =
      (s'.tracker.recordScheduleInfo u target).settled := by
  rw [ExecutionTracker.settled_recordScheduleInfo, ExecutionTracker.settled_recordScheduleInfo,
    h.settled]

theorem Same.next (h : Same s s') :
    (s.log.read_schedule = [] ∧ s'.log.read_schedule = []) ∨
      ∃ d rest d' rest', s.log.read_schedule = d :: rest ∧ s'.log.read_schedule = d' :: rest' ∧
        d.getChosen = d'.getChosen ∧
        rest.map DecisionInfo.getChosen = rest'.map DecisionInfo.getChosen := by
  have hread := h.read
  cases hs : s.log.read_schedule with
  | nil =>
      rw [hs, List.map_nil, eq_comm, List.map_eq_nil_iff] at hread
      exact Or.inl ⟨rfl, hread⟩
  | cons d rest =>
      rw [hs, List.map_cons] at hread
      obtain ⟨d', rest', hs', hd, hrest⟩ := exists_read hread.symm
      exact Or.inr ⟨d, rest, d', rest', rfl, hs', hd.symm, hrest.symm⟩

theorem Same.schedule_alike (h : Same s s') (info : SchedPointInfo) :
    Alike (s.schedule v info) (s'.schedule v info) := by
  have henabled := ExecutionTracker.enable_map_of_settled h.settled
  unfold System.schedule Logger.getNextScheduleChoice Logger.getNextChoice
  rcases h.next with ⟨hs, hs'⟩ | ⟨d, rest, d', rest', hs, hs', hd, hrest⟩
  · simp only [hs, hs', h.scheduler]
    cases hpick : v.pickNextSchedulingChoice s'.scheduler info with
    | mk nextchoice answer =>
        obtain ⟨fenmap, scheduler⟩ := answer
        simp only [hpick]
        cases nextchoice with
        | none =>
            apply Same.deadlockCheck
            exact ⟨⟨h.stopped, h.schedule⟩, h.settled, rfl, h.read⟩
        | some nextchoice =>
            rw [henabled]
            apply Same.launchThread
            exact ⟨⟨h.stopped, h.schedule⟩, h.recordScheduleInfo info.thread nextchoice, rfl,
              h.read⟩
  · simp only [hs, hs', h.scheduler, hd, henabled]
    apply Same.launchThread
    exact ⟨⟨h.stopped, h.schedule⟩, h.recordScheduleInfo info.thread d'.getChosen, rfl, hrest⟩

-- The ends of a section.
theorem Same.perform (h : Same s s') (pc : Pc) (eff : Effect) :
    Alike (s.perform v t pc eff) (s'.perform v t pc eff) := by
  cases eff with
  | goto pc' => exact ⟨h.stopped, h.schedule⟩
  | created child pc' => exact ⟨h.stopped, h.schedule⟩
  | signalChoice info =>
      simp only [System.perform]
      unfold Logger.getNextSignalChoice Logger.getNextChoice
      rcases h.next with ⟨hs, hs'⟩ | ⟨d, rest, d', rest', hs, hs', hd, hrest⟩
      · simp only [hs, hs', h.scheduler]
        split
        · exact ⟨h.stopped, h.schedule⟩
        · exact .stop h.schedule _
      · simp only [hs, hs']
        exact ⟨h.stopped, h.schedule⟩
  | signalled info u =>
      have hlog : (s.log.signalScheduling u info).schedule =
          (s'.log.signalScheduling u info).schedule := by
        unfold Logger.signalScheduling
        split
        · exact h.schedule
        · dsimp only
          rw [h.schedule]
      simp only [System.perform]
      cases hwake : s.tracker.waitWakeThread u with
      | error reason =>
          rw [ExecutionTracker.waitWakeThread_error h.settled] at hwake
          rw [hwake]
          exact .stop hlog reason
      | ok tracker =>
          obtain ⟨tracker', hwake'⟩ :=
            ExecutionTracker.waitWakeThread_of_settled h.settled hwake
          rw [hwake']
          exact ⟨h.stopped, hlog⟩
  | schedule info r =>
      have halike := h.schedule_alike (v := v) info
      simp only [System.perform]
      rw [halike.stopped]
      split
      · exact halike
      · exact ⟨halike.stopped, halike.schedule⟩

theorem runThread_of_step {ret_addr : Addr} {op : Op} {s₁ : System σ}
    (hsection : (s.pcs t).isSection = true) (hstep : s.step v t ret_addr op = some s₁) :
    s₁ = s.runThread v t (s.pcs t) := by
  rw [step_section (step_iff.mp hstep).1 hsection] at hstep
  split at hstep
  · exact (Option.some.inj hstep).symm
  · cases hstep

-- A step that ends one run ends the other one in the same way.
theorem Same.step {ret_addr : Addr} {op : Op} {s₁ s₁' : System σ} (h : Same s s')
    (hpc : s.pcs t = s'.pcs t) (hstep : s.step v t ret_addr op = some s₁)
    (hstep' : s'.step v t ret_addr op = some s₁') : Alike s₁ s₁' := by
  by_cases hsection : (s.pcs t).isSection = true
  · have hrun := runThread_of_step hsection hstep
    have hrun' := runThread_of_step (hpc ▸ hsection) hstep'
    rw [← hpc] at hrun'
    rw [hrun, hrun']
    have hsettled := ExecutionTracker.settled_runSection s.tracker t (s.pcs t)
    rw [h.settled, ExecutionTracker.settled_runSection] at hsettled
    unfold System.runThread
    cases hsection : s.tracker.runSection t (s.pcs t) with
    | error reason =>
        cases hsection' : s'.tracker.runSection t (s.pcs t) with
        | error reason' =>
            rw [hsection, hsection'] at hsettled
            cases hsettled
            exact .stop h.schedule reason
        | ok result => rw [hsection, hsection'] at hsettled; cases hsettled
    | ok result =>
        cases hsection' : s'.tracker.runSection t (s.pcs t) with
        | error reason => rw [hsection, hsection'] at hsettled; cases hsettled
        | ok result' =>
            rw [hsection, hsection'] at hsettled
            obtain ⟨htracker, heff⟩ := Prod.mk.inj (Except.ok.inj hsettled)
            dsimp only
            rw [heff]
            apply Same.perform
            exact ⟨⟨h.stopped, h.schedule⟩, htracker.symm, h.scheduler, h.read⟩
  · obtain ⟨_, htransition⟩ := step_iff.mp hstep
    obtain ⟨_, htransition'⟩ := step_iff.mp hstep'
    cases htransition <;> cases htransition' <;>
      first
        | exact ⟨h.stopped, h.schedule⟩
        | simp_all

end System

end Stops

section Choices

variable {σ : Type} {v : Virtual σ} {a b : System σ} {eff : Effect} {choice : ThrID}
  {enabled : List ThrID} {read read' rest : List DecisionInfo} {scheduler : σ}

theorem Logger.Follows.same {fromLog : Bool} (h : Follows read fromLog choice rest)
    (hread : read.map DecisionInfo.getChosen = read'.map DecisionInfo.getChosen) :
    ∃ rest', Follows read' fromLog choice rest' ∧
      rest.map DecisionInfo.getChosen = rest'.map DecisionInfo.getChosen := by
  cases fromLog with
  | true =>
      obtain ⟨d, rfl, rfl⟩ := h
      obtain ⟨d', rest', hread', hd, hrest⟩ := System.exists_read hread.symm
      exact ⟨rest', ⟨d', hread', hd⟩, hrest.symm⟩
  | false =>
      obtain ⟨rfl, rfl⟩ := h
      rw [List.map_nil, eq_comm, List.map_eq_nil_iff] at hread
      exact ⟨[], ⟨hread, rfl⟩, rfl⟩

-- What one system has chosen at the end of a section the other one chooses too.
theorem System.Decides.same (h : Decides v a eff choice enabled rest scheduler)
    (hsettled : a.tracker.settled = b.tracker.settled) (hscheduler : a.scheduler = b.scheduler)
    (hread : a.log.read_schedule.map DecisionInfo.getChosen =
      b.log.read_schedule.map DecisionInfo.getChosen) :
    ∃ rest', Decides v b eff choice enabled rest' scheduler ∧
      rest.map DecisionInfo.getChosen = rest'.map DecisionInfo.getChosen := by
  cases h with
  | goto pc' choice enabled => exact ⟨_, hscheduler ▸ .goto pc' choice enabled, hread⟩
  | created child pc' choice enabled =>
      exact ⟨_, hscheduler ▸ .created child pc' choice enabled, hread⟩
  | signalChoice info fromLog choice enabled rest scheduler hfollows hselects =>
      obtain ⟨rest', hfollows', hrest⟩ := hfollows.same hread
      rw [hscheduler] at hselects
      exact ⟨rest', .signalChoice info fromLog choice enabled rest' _ hfollows' hselects, hrest⟩
  | signalled info u tracker choice enabled hwake =>
      obtain ⟨tracker', hwake'⟩ := ExecutionTracker.waitWakeThread_of_settled hsettled hwake
      exact ⟨_, hscheduler ▸ .signalled info u tracker' choice enabled hwake', hread⟩
  | schedule info r fromLog choice fenmap rest scheduler tracker hfollows hdecides henabled hadmits
      hlaunch =>
      obtain ⟨rest', hfollows', hrest⟩ := hfollows.same hread
      have hmap := ExecutionTracker.enable_map_of_settled hsettled
      have hcounted : (a.tracker.recordScheduleInfo info.thread choice).settled =
          (b.tracker.recordScheduleInfo info.thread choice).settled := by
        rw [ExecutionTracker.settled_recordScheduleInfo,
          ExecutionTracker.settled_recordScheduleInfo, hsettled]
      obtain ⟨tracker', hlaunch'⟩ := ExecutionTracker.launch_of_settled hcounted hlaunch
      have henabled' : b.tracker.isEnabled choice = true := by
        unfold ExecutionTracker.isEnabled at henabled ⊢
        rw [← hmap]
        exact henabled
      rw [hscheduler] at hdecides
      rw [hmap] at hadmits ⊢
      exact ⟨rest', .schedule info r fromLog choice fenmap rest' scheduler tracker' hfollows'
        hdecides henabled' hadmits hlaunch', hrest⟩

end Choices

variable {σ : Type} {v : Virtual σ} {prog : Program} {a a' b b' last r r' : Run σ}
  {scheduler : σ} {log log' : List DecisionInfo}

-- Two runs that have done the same, and are left with the same choices.
structure Twins (a b : Run σ) : Prop extends Abreast a b where
  scheduler : a.system.scheduler = b.system.scheduler
  read : a.system.log.read_schedule.map DecisionInfo.getChosen =
    b.system.log.read_schedule.map DecisionInfo.getChosen

namespace Twins

theorem schedule (h : Twins a b) : a.system.log.schedule = b.system.log.schedule :=
  congrArg View.schedule h.view

theorem same (h : Twins a b) : System.Same a.system b.system := by
  obtain ⟨c, hserial⟩ := h.left
  obtain ⟨c', hserial'⟩ := h.right
  exact ⟨⟨hserial.running.trans hserial'.running.symm, h.schedule⟩, congrArg View.tracker h.view,
    h.scheduler, h.read⟩

theorem quiet_left (h : Twins a b) (hquiet : Run.Quiet v prog a a') : Twins a' b := by
  obtain ⟨_, _, _, hscheduler, hlog⟩ := hquiet.keeps
  refine ⟨h.toAbreast.quiet_left hquiet, hscheduler.trans h.scheduler, ?_⟩
  rw [hlog]
  exact h.read

theorem quiet_right (h : Twins a b) (hquiet : Run.Quiet v prog b b') : Twins a b' := by
  obtain ⟨_, _, _, hscheduler, hlog⟩ := hquiet.keeps
  refine ⟨h.toAbreast.quiet_right hquiet, h.scheduler.trans hscheduler.symm, ?_⟩
  rw [hlog]
  exact h.read

-- They move alike, also where a move ends the run.
theorem alike (h : Twins a b) (hmove : Run.Move v prog a a') (hmove' : Run.Move v prog b b') :
    System.Alike a'.system b'.system := by
  obtain ⟨t, _, _, hpc, hsystem, hsystem', _⟩ := h.same_move hmove hmove'
  exact h.same.step hpc hsystem hsystem'

theorem moved (h : Twins a b) (hmove : Run.Move v prog a a') (hmove' : Run.Move v prog b b')
    (hrunning : a'.system.stopped = none) : Twins a' b' := by
  obtain ⟨t, hadvances, hadvances', hpc, hsystem, hsystem', hturns⟩ := h.same_move hmove hmove'
  obtain ⟨c, hserial⟩ := h.left
  obtain ⟨c', hserial'⟩ := h.right
  obtain ⟨made, hadvanced⟩ := System.advanced_of_step hserial hadvances hsystem hrunning
  obtain ⟨hrunning', hview, hscheduler, hread⟩ : b'.system.stopped = none ∧
      a'.system.view = b'.system.view ∧ a'.system.scheduler = b'.system.scheduler ∧
      a'.system.log.read_schedule.map DecisionInfo.getChosen =
        b'.system.log.read_schedule.map DecisionInfo.getChosen := by
    refine hadvanced.transfer (fun rest scheduler => a'.system.scheduler = scheduler ∧
      a'.system.log.read_schedule.map DecisionInfo.getChosen = rest.map DecisionInfo.getChosen)
      h.view hpc hserial' hadvances' hsystem' ?_ ?_
    · intro _ hscheduler hlog
      rw [hscheduler, hlog]
      exact ⟨h.scheduler, h.read⟩
    · intro tr tr' eff choice enabled _ hsettled hdecides
      obtain ⟨rest', hdecides', hrest⟩ :=
        hdecides.same (b := b.system.ended t tr') hsettled h.scheduler h.read
      exact ⟨rest', _, hdecides', rfl, hrest⟩
  exact ⟨⟨Run.serial_of_step hmove.step h.left hrunning,
    Run.serial_of_step hmove'.step h.right hrunning', h.locked.step (Or.inl h.right) hsystem',
    hview, hturns⟩, hscheduler, hread⟩

theorem initial (hlog : log.map DecisionInfo.getChosen = log'.map DecisionInfo.getChosen) :
    Twins (Run.initial scheduler log) (Run.initial scheduler log') where
  left := ⟨_, Serial.initial scheduler log⟩
  right := ⟨_, Serial.initial scheduler log'⟩
  locked := nofun
  view := rfl
  turns := rfl
  scheduler := rfl
  read := hlog

end Twins

-- What comes after a move from where the other run has got to.
def Beyond (v : Virtual σ) (prog : Program) (last b : Run σ) : Prop :=
  ∃ b₁ b₂, Twins last b₁ ∧ Run.Move v prog b₁ b₂ ∧ ReflTransGen (Run.Step v prog) b₂ b

theorem twins_mirror (hrunning : last.system.stopped = none) :
    Mirrors (Run.Quiet v prog) (Run.Move v prog) (Run.Quiet v prog) (Run.Move v prog) last Twins
      (Beyond v prog last) where
  left a a' b h hquiet _ := h.quiet_left hquiet
  right a b b' h hquiet := h.quiet_right hquiet
  moves a a' b b' h hmove hon hmove' :=
    Or.inl (h.moved hmove hmove' (Run.running_of_steps (Run.steps_iff.mp hon) hrunning))
  ends b b' h hmove := ⟨b, b', h, hmove, .refl⟩
  past b b' := by
    rintro ⟨b₁, b₂, htwins, hmove, hsteps⟩ hstep
    exact ⟨b₁, b₂, htwins, hmove, hsteps.trans (Run.steps_iff.mp (.single hstep))⟩
  follows a a' b h hmove _ := h.exists_move hmove

end Thrille
