import Thrille.Replay.Branched
import Thrille.Replay.Trackers

namespace Thrille

open Relation ExecutionTracker

variable {σ : Type} {v : Virtual σ} {prog : Program} {r r' : Run σ} {t : ThrID}
  {log : List DecisionInfo} {scheduler : σ}

-- What a choice leaves of the log.
theorem Logger.Follows.rest_eq {read rest : List DecisionInfo} {fromLog : Bool} {choice : ThrID}
    (h : Logger.Follows read fromLog choice rest) : rest = read.drop 1 := by
  cases fromLog with
  | true =>
      obtain ⟨d, rfl, _⟩ := h
      rfl
  | false =>
      obtain ⟨rfl, rfl⟩ := h
      rfl

theorem System.Decides.rest_eq {s : System σ} {eff : Effect} {choice : ThrID}
    {enabled : List ThrID} {rest : List DecisionInfo} {scheduler : σ}
    (h : System.Decides v s eff choice enabled rest scheduler) :
    rest = s.log.read_schedule.drop (eff.choice choice).length := by
  cases h with
  | goto pc' choice enabled => rfl
  | created child pc' choice enabled => rfl
  | signalled info u tracker choice enabled hwake => rfl
  | signalChoice info fromLog target enabled rest scheduler hfollows hselects =>
      exact hfollows.rest_eq
  | schedule info r fromLog target fenmap rest scheduler tracker hfollows hdecides henabled hadmits
      hlaunch => exact hfollows.rest_eq

theorem System.Advanced.read_eq {s s' : System σ} {ret_addr : Addr} {op : Op} {made : List ThrID}
    (h : System.Advanced v s t ret_addr op s' made) :
    s'.log.read_schedule = s.log.read_schedule.drop made.length := by
  cases h with
  | asks ret_val hpc hview hlog hscheduler => rw [hlog]; rfl
  | spawns addr child hpc hview hlog hscheduler => rw [hlog]; rfl
  | runs tr eff choice enabled hpc hrun hdecides hview => exact hdecides.rest_eq

-- As many entries of the log are gone as choices have been made.
def Run.Reads (log : List DecisionInfo) (r : Run σ) : Prop :=
  ∃ choices, r.system.view.Chosen choices ∧ r.system.log.read_schedule = log.drop choices.length

theorem Run.Reads.step (h : r.Reads log) (hstep : Run.Step v prog r r')
    (hserial : ∃ c, Serial r.system c) (hrunning : r'.system.stopped = none) : r'.Reads log := by
  obtain ⟨choices, hchosen, hread⟩ := h
  obtain ⟨t, hstep⟩ := hstep
  obtain ⟨hsystem, _⟩ := Run.step_iff.mp hstep
  obtain ⟨c, hserial⟩ := hserial
  by_cases hadvances : r.system.Advances t
  · obtain ⟨made, hadvanced⟩ := System.advanced_of_step hserial hadvances hsystem hrunning
    refine ⟨choices ++ made, hadvanced.chosen hserial hadvances
      (System.moves_of_step hsystem hadvances) hchosen, ?_⟩
    rw [hadvanced.read_eq, hread, List.drop_drop, List.length_append]
  · obtain ⟨hview, _, _, hlog, _⟩ := System.view_of_quiet hsystem hadvances
    refine ⟨choices, ?_, ?_⟩
    · rw [hview]
      exact hchosen
    · rw [hlog]
      exact hread

theorem Run.reads_of_steps (h : ReflTransGen (Run.Step v prog) (Run.initial scheduler log) r)
    (hrunning : r.system.stopped = none) : (∃ c, Serial r.system c) ∧ r.Reads log := by
  induction h with
  | refl =>
      exact ⟨⟨_, Serial.initial scheduler log⟩, [], System.initial_chosen scheduler log, rfl⟩
  | tail _ hstep ih =>
      have hbefore := Run.running_of_steps (.single hstep) hrunning
      obtain ⟨hserial, hreads⟩ := ih hbefore
      exact ⟨Run.serial_of_step hstep hserial hrunning, hreads.step hstep hserial hrunning⟩

-- How a tracker picks where it does not follow a log.
structure PicksBy (v : Virtual σ) (policy : DecisionInfo → Prop) : Prop where
  schedules : ∀ scheduler info target fenmap scheduler', info.fenmap = ∅ →
    v.pickNextSchedulingChoice scheduler info = (some target, fenmap, scheduler') →
      policy (info.entry target
        (Logger.enabledThreads (v.logged { info with fenmap, fromLog := false })))
  signals : ∀ scheduler info target scheduler',
    v.selectThreadWaitingOnCond scheduler info = (some target, scheduler') →
      policy (info.entry target)

theorem Decided.picked {policy : DecisionInfo → Prop} (hpicks : PicksBy v policy) {s : System σ}
    {d : DecisionInfo} (h : Decided v s t d) (hread : s.log.read_schedule = []) : policy d := by
  cases h with
  | schedule tr info r x enabled rest scheduler hrun hdecides =>
      cases hdecides with
      | schedule info r fromLog x fenmap rest scheduler tracker hfollows hdecides henabled hadmits
          hlaunch =>
          obtain ⟨_, hcopy, _⟩ := runSection_follows _ hrun
          have hinfo : ({ info with fenmap, fromLog := false, enabled := tr.enable_map } :
              SchedPointInfo) = { info with fenmap, fromLog := false } := by rw [← hcopy]
          cases fromLog with
          | true =>
              obtain ⟨d, hd, _⟩ := hfollows
              rw [show (s.ended t tr).log.read_schedule = [] from hread] at hd
              cases hd
          | false =>
              change policy (info.entry x (Logger.enabledThreads
                (v.logged { info with fenmap, fromLog := false, enabled := tr.enable_map })))
              rw [hinfo]
              exact hpicks.schedules _ _ _ _ _ (runSection_fresh _ hrun).1 hdecides
  | signal tr info x enabled rest scheduler hsingle hrun hdecides =>
      obtain ⟨fromLog, hfollows, hselects⟩ := hdecides.of_signalChoice
      cases fromLog with
      | true =>
          obtain ⟨d, hd, _⟩ := hfollows
          rw [show (s.ended t tr).log.read_schedule = [] from hread] at hd
          cases hd
      | false => exact hpicks.signals _ _ _ _ hselects

-- Past the end of the log the tracker picks.
theorem picked_of_steps {policy : DecisionInfo → Prop} (hpicks : PicksBy v policy)
    (h : ReflTransGen (Run.Step v prog) (Run.initial scheduler log) r)
    (hrunning : r.system.stopped = none) :
    ∀ d ∈ r.system.log.schedule.drop log.length, policy d := by
  intro d hd
  obtain ⟨k, hk, rfl⟩ := List.getElem_of_mem hd
  rw [List.length_drop] at hk
  rw [List.getElem_drop]
  obtain ⟨a₁, a₂, t, x, hto, hserial, hstep, hadvances, hon, hadvanced, hlength, hchosen⟩ :=
    exists_decision h ⟨_, Serial.initial scheduler log⟩ hrunning
      (System.initial_chosen scheduler log) (Nat.zero_le (log.length + k)) (by omega)
  obtain ⟨_, d, hdecided, hprefix⟩ := decided_of_advanced hadvanced hon
    (Run.serial_of_step ⟨t, hstep⟩ hserial (Run.running_of_steps hon hrunning)) hrunning (by omega)
  -- nothing is left of the log there
  obtain ⟨c, hserial⟩ := hserial
  obtain ⟨_, choices, hchosen', hread⟩ := Run.reads_of_steps hto hserial.running
  obtain ⟨hsystem, _⟩ := Run.step_iff.mp hstep
  have hmoves := System.moves_of_step hsystem hadvances
  have hcount : choices.length = log.length + k := by
    rw [(System.chosen_at hserial hmoves hchosen').2, ← (System.chosen_at hserial hmoves hchosen).2,
      List.length_map, hlength]
  rw [List.drop_eq_nil_of_le (by omega)] at hread
  have hat := hprefix.getElem (i := log.length + k) (by simp; omega)
  rw [List.getElem_append_right (by omega)] at hat
  simp only [hlength, Nat.sub_self, List.getElem_cons_zero] at hat
  rw [← hat]
  exact hdecided.picked hpicks hread

-- The ends of a run that are no failed assertions.
def Stop.isEnd : Stop → Bool
  | programDeadlock => true
  | mainReturned => true
  | _ => false

-- Only a failed assertion ends a run at a launch.
theorem System.isEnd_launchThread {s : System σ} {target : ThrID} {info : SchedPointInfo}
    {reason : Stop} (h : (s.launchThread v target info).stopped = some reason)
    (hrunning : s.stopped = none) : reason.isEnd = false := by
  unfold launchThread at h
  dsimp only at h
  split at h
  · cases h
    rfl
  · split at h
    · cases h
      rfl
    · split at h
      · rw [hrunning] at h
        cases h
      · rename_i error herror
        cases h
        unfold ExecutionTracker.launch waitWakeThread wakeThread at herror
        split at herror
        · split at herror
          · cases herror
          · cases herror
            rfl
        · split at herror
          · cases herror
          · cases herror
            rfl

-- Where a run is ended otherwise nothing is logged.
theorem System.schedule_of_isEnd {s s' : System σ} {ret_addr : Addr} {op : Op}
    (hstep : s.step v t ret_addr op = some s') {reason : Stop} (hstopped : s'.stopped = some reason)
    (hend : reason.isEnd = true) : s'.log.schedule = s.log.schedule := by
  obtain ⟨hrunning, htransition⟩ := step_iff.mp hstep
  cases htransition with
  | runs hpc hlock hready =>
      unfold runThread at hstopped ⊢
      split at hstopped
      · rfl
      · rename_i tr eff hrun
        cases eff with
        | goto pc' => rfl
        | created child pc' => rfl
        | signalChoice info =>
            simp only [perform] at hstopped ⊢
            split at hstopped
            · change s.stopped = _ at hstopped
              rw [hrunning] at hstopped
              cases hstopped
            · split at hstopped
              · change s.stopped = _ at hstopped
                rw [hrunning] at hstopped
                cases hstopped
              · cases hstopped
                cases hend
        | signalled info u =>
            simp only [perform] at hstopped ⊢
            split at hstopped
            · change s.stopped = _ at hstopped
              rw [hrunning] at hstopped
              cases hstopped
            · rename_i error herror
              cases hstopped
              unfold waitWakeThread at herror
              split at herror
              · cases herror
              · cases herror
                cases hend
        | schedule info r =>
            generalize hended : ({ s with
              tracker := tr
              barriers := s.barriers.observe t (s.pcs t) } : System σ) = ended at hstopped ⊢
            have hrunning' : ended.stopped = none := by
              rw [← hended]
              exact hrunning
            have hlog : ended.log = s.log := by
              rw [← hended]
            have hscheduled : (ended.schedule v info).stopped = some reason →
                (ended.schedule v info).log = s.log := by
              unfold schedule
              split
              · dsimp only
                split
                · intro _
                  rw [deadlockCheck_log]
                  exact hlog
                · intro h
                  rw [isEnd_launchThread h hrunning'] at hend
                  cases hend
              · dsimp only
                intro h
                rw [isEnd_launchThread h hrunning'] at hend
                cases hend
            simp only [perform] at hstopped ⊢
            split at hstopped
            · rename_i hsome
              rw [if_pos hsome, hscheduled hstopped]
            · rename_i hsome
              exact absurd (congrArg Option.isSome hstopped) hsome
  | _ => rfl

theorem picked_of_ended {policy : DecisionInfo → Prop} (hpicks : PicksBy v policy)
    (h : ReflTransGen (Run.Step v prog) (Run.initial scheduler log) r)
    (hended : ∀ reason, r.system.stopped = some reason → reason.isEnd = true) :
    ∀ d ∈ r.system.log.schedule.drop log.length, policy d := by
  cases hstopped : r.system.stopped with
  | none => exact picked_of_steps hpicks h hstopped
  | some reason =>
      cases h with
      | refl => cases hstopped
      | tail h hstep =>
          obtain ⟨t, hstep⟩ := hstep
          obtain ⟨hsystem, _⟩ := Run.step_iff.mp hstep
          rw [System.schedule_of_isEnd hsystem hstopped (hended reason hstopped)]
          exact picked_of_steps hpicks h (System.step_iff.mp hsystem).1

-- The first thread that is listed.
theorem ExecutionTracker.picks :
    PicksBy ExecutionTracker.virtual fun d => d.listed.head? = some d.getChosen where
  schedules _ info target fenmap _ _ hpick := by
    have hchoice := (Prod.mk.inj hpick).1
    rw [← Logger.head_enabledThreads] at hchoice
    exact hchoice
  signals _ info target _ hselect := (Prod.mk.inj hselect).1

namespace DecisionInfo

-- The caller, where it is listed.
def nonpreemptive : DecisionInfo → Option ThrID
  | sched _ caller _ _ enabled => if caller ∈ enabled then some caller else enabled.head?
  | signal _ _ _ _ oncond => oncond.head?

end DecisionInfo

-- The first one of the fair threads, unless the caller is one.
theorem ChessTracker.picks :
    PicksBy ChessTracker.virtual fun d => d.nonpreemptive = some d.getChosen where
  schedules scheduler info target fenmap scheduler' hempty hpick := by
    have hchoice : (scheduler.nonpreemptiveFairSchedule info).1 = some target :=
      (Prod.mk.inj hpick).1
    have hmap : (scheduler.nonpreemptiveFairSchedule info).2.1.fenmap = fenmap :=
      (Prod.mk.inj (Prod.mk.inj hpick).2).1
    rw [FairScheduler.nonpreemptiveFairSchedule_fenmap, hempty] at hmap
    rw [FairScheduler.nonpreemptiveFairSchedule_choice] at hchoice
    have hlisted : Logger.enabledThreads fenmap =
        Logger.enabledThreads (scheduler.fairMapOf info) := by
      rw [← hmap]
      exact Logger.enabledThreads_congr (FairScheduler.getD_copied _)
    change (if info.thread ∈ Logger.enabledThreads fenmap then some info.thread
      else (Logger.enabledThreads fenmap).head?) = some target
    rw [hlisted, Logger.head_enabledThreads]
    simp only [Logger.mem_enabledThreads]
    exact hchoice
  signals _ info target _ hselect := (Prod.mk.inj hselect).1

end Thrille
