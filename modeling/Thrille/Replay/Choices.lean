import Thrille.Replay.Follows

namespace Thrille

namespace View

variable {choices : List ThrID} {t u : ThrID} {eff : Effect}

-- The choices that a run has made: those that are logged, and one that is not logged yet.
def Chosen (self : View) (choices : List ThrID) : Prop :=
  ∃ t, (∀ u, u ≠ t → (self.places u).pending = []) ∧
    choices = self.schedule.map DecisionInfo.getChosen ++ (self.places t).pending

theorem moves_of_pending {self : View} (h : (self.places u).pending ≠ []) : self.Moves u := by
  cases hat : self.places u with
  | handoff info x =>
      refine ⟨by rw [hat]; rfl, fun info' x' heq => ?_⟩
      rw [hat] at heq
      cases heq
  | _ =>
      rw [hat] at h
      exact absurd rfl h

theorem pending_launch (self : View) (target : ThrID) :
    ((self.launch target).places u).pending = (self.places u).pending := by
  unfold launch
  by_cases hu : u = target
  · subst hu
    simp only [Function.update_self]
    split
    · exact Pc.pending_awake _
    · exact Pc.pending_resumed _
  · simp only [Function.update_of_ne hu]

-- The end of a section adds its choice to those that have been made.
theorem chosen_perform (self : View) (pc : Pc) (choice : ThrID) (enabled : List ThrID)
    (hpends : eff.Pends pc)
    (hothers : ∀ u, u ≠ t → (self.places u).pending = []) :
    (self.perform t pc choice enabled eff).Chosen
      (self.schedule.map DecisionInfo.getChosen ++ pc.pending ++ eff.choice choice) := by
  have hgoto (pc' : Pc) (u : ThrID) (hut : u ≠ t) :
      (Function.update self.places t pc' u).pending = [] := by
    rw [Function.update_of_ne hut]
    exact hothers u hut
  cases eff with
  | goto pc' =>
      refine ⟨t, hgoto _, ?_⟩
      simp only [perform, goto, Function.update_self]
      rw [Pc.pending_place, hpends.1, hpends.2]
      simp [Effect.choice, Effect.decides]
  | created child pc' =>
      refine ⟨t, fun u hut => ?_, ?_⟩
      · simp only [perform, goto, Function.update_of_ne hut]
        by_cases hu : u = child
        · rw [hu, Function.update_self]
          rfl
        · rw [Function.update_of_ne hu]
          exact hothers u hut
      · simp only [perform, goto, Function.update_self]
        rw [hpends.1, hpends.2]
        simp [Effect.choice, Effect.decides]
  | signalChoice info =>
      refine ⟨t, hgoto _, ?_⟩
      simp only [perform, goto, Function.update_self]
      rw [hpends.1]
      simp [Effect.choice, Effect.decides, Pc.pending, hpends.2]
  | signalled info x =>
      refine ⟨t, fun u hut => ?_, ?_⟩
      · simp only [perform, goto, Function.update_of_ne hut]
        by_cases hu : u = x
        · rw [hu, Function.update_self, Pc.pending_awake]
          exact hothers x (hu ▸ hut)
        · rw [Function.update_of_ne hu]
          exact hothers u hut
      · have hpc : pc = .handoff info x := hpends
        simp only [perform, goto, Function.update_self, hpc, Logger.signalScheduling]
        cases hbroadcast : info.isBroadcast with
        | true => simp [Effect.choice, Effect.decides, Pc.pending, hbroadcast]
        | false =>
            simp [Effect.choice, Effect.decides, Pc.pending, hbroadcast, DecisionInfo.getChosen]
  | schedule info r =>
      have hnone : pc.pending = [] := hpends
      refine ⟨t, fun u hut => ?_, ?_⟩
      · simp only [perform]
        rw [pending_launch]
        exact hgoto _ u hut
      · simp only [perform]
        rw [pending_launch, hnone]
        simp [goto, launch, Effect.choice, Effect.decides, Pc.pending, DecisionInfo.getChosen]

end View

namespace System

variable {σ : Type} {v : Virtual σ} {s s' : System σ} {t : ThrID} {ret_addr : Addr} {op : Op}
  {c : Control} {choices made : List ThrID}

-- Only the thread that may go on can have chosen a thread that is not logged.
theorem chosen_at (hserial : Serial s c) (hmoves : s.view.Moves t) (h : s.view.Chosen choices) :
    (∀ u, u ≠ t → (s.view.places u).pending = []) ∧
      choices = s.view.schedule.map DecisionInfo.getChosen ++ (s.view.places t).pending := by
  obtain ⟨x, hothers, rfl⟩ := h
  have hnone (u : ThrID) (hut : u ≠ t) : (s.view.places u).pending = [] := by
    by_contra hsome
    exact hut (moves_unique hserial (View.moves_of_pending hsome) hmoves)
  refine ⟨hnone, ?_⟩
  by_cases hxt : x = t
  · rw [hxt]
  · rw [hnone x hxt, hothers t (Ne.symm hxt)]

theorem Advanced.chosen (h : Advanced v s t ret_addr op s' made) (hserial : Serial s c)
    (hadvances : s.Advances t) (hmoves : s.view.Moves t) (hchosen : s.view.Chosen choices) :
    s'.view.Chosen (choices ++ made) := by
  obtain ⟨hothers, rfl⟩ := chosen_at hserial hmoves hchosen
  have hplace : s.view.places t = s.pcs t := hadvances.place_eq
  rw [hplace]
  cases h with
  | asks ret_val hpc hview hlog hscheduler =>
      rw [hview, hpc]
      refine ⟨t, fun u hut => ?_, ?_⟩
      · simp only [View.goto, Function.update_of_ne hut]
        exact hothers u hut
      · simp [View.goto, Pc.pending]
  | spawns addr child hpc hview hlog hscheduler =>
      rw [hview, hpc]
      refine ⟨t, fun u hut => ?_, ?_⟩
      · simp only [View.goto, Function.update_of_ne hut]
        by_cases hu : u = child
        · rw [hu, Function.update_self]
          rfl
        · rw [Function.update_of_ne hu]
          exact hothers u hut
      · simp [View.goto, Pc.pending]
  | runs tr eff choice enabled hpc hrun hdecides hview =>
      rw [hview]
      exact View.chosen_perform { s.view with tracker := tr.settled } (s.pcs t) choice enabled
        (ExecutionTracker.runSection_pends hpc hrun) hothers

theorem initial_chosen (scheduler : σ) (read_schedule : List DecisionInfo) :
    (initial scheduler read_schedule).view.Chosen [] := by
  refine ⟨0, fun u hu => ?_, ?_⟩
  · show ((initial scheduler read_schedule).place u).pending = []
    rw [place, initial_pcs, if_neg hu]
    rfl
  · show [] = [] ++ ((initial scheduler read_schedule).place 0).pending
    rw [place, initial_pcs]
    rfl

-- The log only grows.
theorem schedule_grows (info : SchedPointInfo) :
    s.log.schedule <+: (s.schedule v info).log.schedule := by
  rcases schedule_log (v := v) (s := s) info with hlog | ⟨target, desc, enabled, hlog⟩
  · exact hlog.symm ▸ List.prefix_rfl
  · rw [hlog]
    exact List.prefix_append _ _

theorem perform_grows (pc : Pc) (eff : Effect) :
    s.log.schedule <+: (s.perform v t pc eff).log.schedule := by
  cases eff with
  | goto pc' => exact List.prefix_rfl
  | created child pc' => exact List.prefix_rfl
  | signalChoice info =>
      simp only [perform]
      split
      · rename_i u log hnext
        have hread := getNextChoice_schedule s.log
        rw [show s.log.getNextChoice = (some u, log) from hnext] at hread
        rw [← hread]
        exact List.prefix_rfl
      · split
        · exact List.prefix_rfl
        · exact List.prefix_rfl
  | signalled info u =>
      have hlog : s.log.schedule <+: (s.log.signalScheduling u info).schedule := by
        unfold Logger.signalScheduling
        split
        · exact List.prefix_rfl
        · exact List.prefix_append _ _
      simp only [perform]
      split
      · exact hlog
      · exact hlog
  | schedule info r =>
      simp only [perform]
      split
      · exact schedule_grows info
      · exact schedule_grows info

theorem step_grows (hstep : s.step v t ret_addr op = some s') :
    s.log.schedule <+: s'.log.schedule := by
  obtain ⟨_, htransition⟩ := step_iff.mp hstep
  cases htransition with
  | runs hpc hlock hready =>
      unfold runThread
      split
      · exact List.prefix_rfl
      · exact perform_grows (s := { s with
          tracker := _
          barriers := s.barriers.observe t (s.pcs t) }) (s.pcs t) _
  | _ => exact List.prefix_rfl

end System

end Thrille
