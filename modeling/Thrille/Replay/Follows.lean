import Thrille.Replay.Steps

namespace Thrille

open ExecutionTracker

namespace ExecutionTracker

variable {self other tr : ExecutionTracker} {target : ThrID}

theorem isSome_of_settled (h : self.settled = other.settled) :
    (self.sem_map target).isSome = (other.sem_map target).isSome ∧
      (self.wait_sem_map target).isSome = (other.wait_sem_map target).isSome := by
  have hsem := congrArg (fun tr => (tr.sem_map target).isSome) h
  have hwait := congrArg (fun tr => (tr.wait_sem_map target).isSome) h
  simp only [settled, Option.isSome_map] at hsem hwait
  exact ⟨hsem, hwait⟩

theorem wakeThread_isOk (self : ExecutionTracker) (target : ThrID) :
    (∃ tr, self.wakeThread target = .ok tr) ↔ (self.sem_map target).isSome = true := by
  unfold wakeThread
  cases self.sem_map target <;> simp

theorem waitWakeThread_isOk (self : ExecutionTracker) (target : ThrID) :
    (∃ tr, self.waitWakeThread target = .ok tr) ↔ (self.wait_sem_map target).isSome = true := by
  unfold waitWakeThread
  cases self.wait_sem_map target <;> simp

-- A thread that can be woken in one run can be woken in the other one.
theorem waitWakeThread_of_settled (h : self.settled = other.settled)
    (hwake : self.waitWakeThread target = .ok tr) : ∃ tr', other.waitWakeThread target = .ok tr' := by
  have hsome := (waitWakeThread_isOk self target).mp ⟨tr, hwake⟩
  rw [(isSome_of_settled h).2] at hsome
  exact (waitWakeThread_isOk other target).mpr hsome

theorem launch_of_settled (h : self.settled = other.settled)
    (hlaunch : self.launch target = .ok tr) : ∃ tr', other.launch target = .ok tr' := by
  have hcond : self.settled.cond_map = other.settled.cond_map := by rw [h]
  change self.cond_map = other.cond_map at hcond
  unfold launch at hlaunch ⊢
  rw [← hcond]
  split at hlaunch
  · rename_i hwaits
    rw [if_pos hwaits]
    have hsome := (waitWakeThread_isOk _ target).mp ⟨tr, hlaunch⟩
    rw [setSignalled_wait_sem_map, (isSome_of_settled h).2] at hsome
    exact (waitWakeThread_isOk _ target).mpr hsome
  · rename_i hwaits
    rw [if_neg hwaits]
    have hsome := (wakeThread_isOk self target).mp ⟨tr, hlaunch⟩
    rw [(isSome_of_settled h).1] at hsome
    exact (wakeThread_isOk other target).mpr hsome

end ExecutionTracker

-- A tracker that follows a log does what the one did that wrote it: `rel` is what their pickers
-- have to do with each other.
structure Replays {σ τ : Type} (v : Virtual σ) (w : Virtual τ) (rel : σ → τ → Prop) : Prop where
  schedules : ∀ x y info fromLog target fenmap x' enabled, rel x y →
    v.Decides x info fromLog target fenmap x' →
    v.admits { info with fenmap, fromLog, enabled } target = true →
    ∃ fenmap' y', w.followingChoiceFromLog y info = (fenmap', y') ∧ rel x' y' ∧
      w.logged { info with fenmap := fenmap', fromLog := true, enabled } =
        v.logged { info with fenmap, fromLog, enabled } ∧
      w.admits { info with fenmap := fenmap', fromLog := true, enabled } target = true
  signals : ∀ x y info fromLog target x', rel x y → v.Selects x info fromLog target x' → rel x' y

-- At a schedule point where the log shows a thread the tracker that follows another log can launch
-- that thread.
def Branches {σ τ : Type} (v : Virtual σ) (w : Virtual τ) (rel : σ → τ → Prop) : Prop :=
  ∀ x y info fromLog target fenmap x' alt, info.fenmap = ∅ → rel x y →
    v.Decides x info fromLog target fenmap x' →
    alt ∈ Logger.enabledThreads (v.logged { info with fenmap, fromLog }) →
    ∃ fenmap' y', w.followingChoiceFromLog y info = (fenmap', y') ∧
      w.logged { info with fenmap := fenmap', fromLog := true } =
        v.logged { info with fenmap, fromLog } ∧
      w.admits { info with fenmap := fenmap', fromLog := true } alt = true ∧
      info.enabled.getD alt false = true

namespace System

variable {σ τ : Type} {v : Virtual σ} {w : Virtual τ} {rel : σ → τ → Prop} {a a' : System σ}
  {b b' : System τ} {t : ThrID} {ret_addr : Addr} {op : Op} {c : Control} {eff : Effect}
  {choice : ThrID} {enabled : List ThrID} {read rest : List DecisionInfo} {choices left : List ThrID}

theorem exists_read (h : read.map DecisionInfo.getChosen = choice :: left) :
    ∃ d rest, read = d :: rest ∧ d.getChosen = choice ∧
      rest.map DecisionInfo.getChosen = left := by
  cases read with
  | nil => cases h
  | cons d rest => exact ⟨d, rest, rfl, (List.cons.inj h).1, (List.cons.inj h).2⟩

-- What one run chose at the end of a section the other one reads there.
theorem Decides.follow {x' : σ} (hreplays : Replays v w rel)
    (h : Decides v a eff choice enabled rest x') (hsettled : a.tracker.settled = b.tracker.settled)
    (hrel : rel a.scheduler b.scheduler)
    (hread : b.log.read_schedule.map DecisionInfo.getChosen = eff.choice choice ++ left) :
    ∃ rest' y', Decides w b eff choice enabled rest' y' ∧ rel x' y' ∧
      rest'.map DecisionInfo.getChosen = left := by
  cases h with
  | goto pc' choice enabled => exact ⟨_, _, .goto pc' choice enabled, hrel, hread⟩
  | created child pc' choice enabled =>
      exact ⟨_, _, .created child pc' choice enabled, hrel, hread⟩
  | signalChoice info fromLog choice enabled rest x' hfollows hselects =>
      obtain ⟨d, rest', hb, hd, hleft⟩ := exists_read hread
      exact ⟨rest', b.scheduler, .signalChoice info true choice enabled rest' _ ⟨d, hb, hd⟩ rfl,
        hreplays.signals _ _ _ _ _ _ hrel hselects, hleft⟩
  | signalled info u tracker choice enabled hwake =>
      obtain ⟨tracker', hwake'⟩ := waitWakeThread_of_settled hsettled hwake
      exact ⟨_, _, .signalled info u tracker' choice enabled hwake', hrel, hread⟩
  | schedule info r fromLog choice fenmap rest x' tracker hfollows hdecides henabled hadmits
      hlaunch =>
      obtain ⟨d, rest', hb, hd, hleft⟩ := exists_read hread
      obtain ⟨fenmap', y', hfollow, hrel', hlogged, hadmits'⟩ :=
        hreplays.schedules _ _ _ _ _ _ _ _ hrel hdecides hadmits
      have hmap : a.tracker.settled.enable_map = b.tracker.settled.enable_map := by rw [hsettled]
      change a.tracker.enable_map = b.tracker.enable_map at hmap
      have hcounted : (a.tracker.recordScheduleInfo info.thread choice).settled =
          (b.tracker.recordScheduleInfo info.thread choice).settled := by
        rw [settled_recordScheduleInfo, settled_recordScheduleInfo, hsettled]
      obtain ⟨tracker', hlaunch'⟩ := launch_of_settled hcounted hlaunch
      have henabled' : b.tracker.isEnabled choice = true := by
        unfold ExecutionTracker.isEnabled at henabled ⊢
        rw [← hmap]
        exact henabled
      rw [← hlogged]
      rw [hmap] at hadmits' ⊢
      exact ⟨rest', y', .schedule info r true choice fenmap' rest' y' tracker' ⟨d, hb, hd⟩ hfollow
        henabled' hadmits' hlaunch', hrel', hleft⟩

-- Sections end in the same way in the two runs.
theorem runSection_of_view {tr : ExecutionTracker} (hview : a.view = b.view)
    (hpc : a.pcs t = b.pcs t) (hrun : a.tracker.runSection t (a.pcs t) = .ok (tr, eff)) :
    ∃ tr', b.tracker.runSection t (b.pcs t) = .ok (tr', eff) ∧ tr'.settled = tr.settled := by
  have hsettled : a.tracker.settled = b.tracker.settled := congrArg View.tracker hview
  have hruns := settled_runSection a.tracker t (a.pcs t)
  rw [hrun, hsettled, settled_runSection, hpc] at hruns
  cases hrun' : b.tracker.runSection t (b.pcs t) with
  | error reason => rw [hrun'] at hruns; cases hruns
  | ok result =>
      obtain ⟨tr', eff'⟩ := result
      rw [hrun'] at hruns
      obtain ⟨htracker, rfl⟩ := Prod.mk.inj (Except.ok.inj hruns)
      exact ⟨tr', rfl, htracker⟩

-- A step that one run has taken the other one takes too, when it chooses as the first one did.
theorem Advanced.transfer (answers : List DecisionInfo → τ → Prop)
    (h : Advanced v a t ret_addr op a' choices)
    (hview : a.view = b.view) (hpc : a.pcs t = b.pcs t) (hserial : Serial b c)
    (hadvances : b.Advances t) (hstep : b.step w t ret_addr op = some b')
    (hkept : choices = [] → a'.scheduler = a.scheduler → a'.log = a.log →
      answers b.log.read_schedule b.scheduler)
    (hdecides : ∀ tr tr' eff choice enabled, choices = eff.choice choice →
      tr.settled = tr'.settled →
      Decides v (a.ended t tr) eff choice enabled a'.log.read_schedule a'.scheduler →
      ∃ rest scheduler, Decides w (b.ended t tr') eff choice enabled rest scheduler ∧
        answers rest scheduler) :
    b'.stopped = none ∧ a'.view = b'.view ∧ answers b'.log.read_schedule b'.scheduler := by
  obtain ⟨_, htransition⟩ := step_iff.mp hstep
  cases h with
  | asks ret_val hat hview' hlog hscheduler =>
      rw [hpc] at hat
      cases htransition with
      | asks ret_val' hat' =>
          refine ⟨hserial.running, ?_, hkept rfl hscheduler hlog⟩
          rw [hview', hview]
          exact view_of_asks.symm
      | runs hat' hlock hready => rw [hat] at hat'; cases hat'
      | _ => simp_all
  | spawns addr child hat hview' hlog hscheduler =>
      rw [hpc] at hat
      cases htransition with
      | spawns addr' child' hat' =>
          rw [hat] at hat'
          cases hat'
          refine ⟨hserial.running, ?_, hkept rfl hscheduler hlog⟩
          rw [hview', hview]
          exact (view_of_spawns hserial hat).symm
      | runs hat' hlock hready => rw [hat] at hat'; cases hat'
      | _ => simp_all
  | runs tr eff choice enabled hat hrun hchooses hview' =>
      obtain ⟨tr', hrun', htracker⟩ := runSection_of_view hview hpc hrun
      rw [hpc] at hat
      cases htransition with
      | runs _ hlock hready =>
          obtain ⟨rest, scheduler, hdecides', hanswers⟩ :=
            hdecides tr tr' eff choice enabled rfl htracker.symm hchooses
          obtain ⟨hrunning, hview'', hread', hscheduler⟩ :=
            runThread_of_decides hserial hadvances hstep hrun' hdecides'
          refine ⟨hrunning, ?_, ?_⟩
          · rw [hview', hview'', hview, hpc, htracker]
          · rw [hread', hscheduler]
            exact hanswers
      | _ => simp_all [Pc.isSection]

-- The run that follows the log takes the step that the other one has taken.
theorem Advanced.follow (hreplays : Replays v w rel) (h : Advanced v a t ret_addr op a' choices)
    (hview : a.view = b.view) (hpc : a.pcs t = b.pcs t) (hrel : rel a.scheduler b.scheduler)
    (hserial : Serial b c) (hadvances : b.Advances t)
    (hstep : b.step w t ret_addr op = some b')
    (hread : b.log.read_schedule.map DecisionInfo.getChosen = choices ++ left) :
    b'.stopped = none ∧ a'.view = b'.view ∧ rel a'.scheduler b'.scheduler ∧
      b'.log.read_schedule.map DecisionInfo.getChosen = left := by
  refine h.transfer (fun rest scheduler => rel a'.scheduler scheduler ∧
    rest.map DecisionInfo.getChosen = left) hview hpc hserial hadvances hstep ?_ ?_
  · intro hnone hscheduler _
    rw [hnone] at hread
    exact ⟨hscheduler ▸ hrel, hread⟩
  · intro tr tr' eff choice enabled hchoices hsettled hdecides
    rw [hchoices] at hread
    exact hdecides.follow (b := b.ended t tr') hreplays hsettled hrel hread

end System

end Thrille
