import Thrille.Replay.Twins

namespace Thrille

open Relation Lockstep

variable {σ : Type} {v : Virtual σ} {prog : Program} {scheduler : σ} {log log' : List DecisionInfo}
  {last a b r r' : Run σ}

theorem Run.stopped_of_steps (h : ReflTransGen (Run.Step v prog) r r')
    (hstopped : r.system.stopped ≠ none) : r' = r := by
  induction h using ReflTransGen.head_induction_on with
  | refl => rfl
  | head hstep _ _ =>
      obtain ⟨t, hstep⟩ := hstep
      exact absurd (System.step_iff.mp (Run.step_iff.mp hstep).1).1 hstopped

-- A run is ended by a move.
theorem Run.exists_last (h : ReflTransGen (Run.Step v prog) a r)
    (hrunning : a.system.stopped = none) (hstopped : r.system.stopped ≠ none) :
    ∃ last, ReflTransGen (Run.Step v prog) a last ∧ last.system.stopped = none ∧
      Run.Move v prog last r := by
  cases h with
  | refl => exact absurd hrunning hstopped
  | @tail last _ h hstep =>
      obtain ⟨t, hstep⟩ := hstep
      have hlast := (System.step_iff.mp (Run.step_iff.mp hstep).1).1
      by_cases hadvances : last.system.Advances t
      · exact ⟨last, h, hlast, t, hstep, hadvances⟩
      · have hquiet : Run.Quiet v prog last r := ⟨t, hstep, hadvances⟩
        exact absurd hquiet.keeps.2.2.1 hstopped

theorem Beyond.alike (h : Beyond v prog last b) (hmove : Run.Move v prog last r)
    (hstopped : r.system.stopped ≠ none) : System.Alike r.system b.system := by
  obtain ⟨b₁, b₂, htwins, hmove', hsteps⟩ := h
  have halike := htwins.alike hmove hmove'
  have hstopped' : b₂.system.stopped ≠ none := by
    rw [← halike.stopped]
    exact hstopped
  rw [Run.stopped_of_steps hsteps hstopped']
  exact halike

-- Wherever a run with the same choices has come to, the first one has been, or it is on its own.
theorem twins_of_runs (hlog : log.map DecisionInfo.getChosen = log'.map DecisionInfo.getChosen)
    (hlast : ReflTransGen (Run.Step v prog) (Run.initial scheduler log) last)
    (hrunning : last.system.stopped = none)
    (hb : ReflTransGen (Run.Step v prog) (Run.initial scheduler log') b) :
    Beyond v prog last b ∨ ∃ a, ReflTransGen (Run.Step v prog) a last ∧ Twins a b := by
  rcases (twins_mirror hrunning).safe (Twins.initial hlog) (Run.steps_iff.mpr hlast)
    (Run.steps_iff.mpr hb) with hbeyond | ⟨a, _, hon, htwins⟩
  · exact Or.inl hbeyond
  · exact Or.inr ⟨a, Run.steps_iff.mp hon, htwins⟩

-- A run that is where another one has been can go on to the end that the other one came to.
theorem Twins.ends (h : Twins a b) (hon : ReflTransGen (Run.Step v prog) a last)
    (hrunning : last.system.stopped = none) (hmove : Run.Move v prog last r)
    (hstopped : r.system.stopped ≠ none) :
    ∃ r', ReflTransGen (Run.Step v prog) b r' ∧ System.Alike r.system r'.system := by
  obtain ⟨b', hsteps, hbeyond | htwins⟩ :=
    (twins_mirror hrunning).live h (Run.steps_iff.mpr hon)
  · exact ⟨b', Run.steps_iff.mp hsteps, hbeyond.alike hmove hstopped⟩
  · obtain ⟨b₁, b₂, hquiets, hmove'⟩ := htwins.exists_move hmove
    have htwins' := (twins_mirror hrunning).right_steps htwins hquiets
    refine ⟨b₂, ?_, htwins'.alike hmove hmove'⟩
    exact (Run.steps_iff.mp (hsteps.trans (steps_of_quiet hquiets))).tail hmove'.step

-- What a run logs and how it ends is decided by the choices that it reads, in whatever order the
-- threads take their steps.
theorem outcome_of_choices (v : Virtual σ) (prog : Program) (scheduler : σ)
    (log log' : List DecisionInfo)
    (hlog : log.map DecisionInfo.getChosen = log'.map DecisionInfo.getChosen) (r r' : Run σ)
    (hr : ReflTransGen (Run.Step v prog) (Run.initial scheduler log) r)
    (hr' : ReflTransGen (Run.Step v prog) (Run.initial scheduler log') r') :
    (r.system.log.schedule <+: r'.system.log.schedule ∨
      r'.system.log.schedule <+: r.system.log.schedule) ∧
    (r.system.stopped ≠ none →
      ∃ ended, ReflTransGen (Run.Step v prog) r' ended ∧
        ended.system.stopped = r.system.stopped ∧
        ended.system.log.schedule = r.system.log.schedule) := by
  by_cases hstopped : r.system.stopped = none
  · refine ⟨?_, fun hnot => absurd hstopped hnot⟩
    rcases twins_of_runs hlog hr hstopped hr' with ⟨b₁, b₂, htwins, hmove, hsteps⟩ |
      ⟨a, hon, htwins⟩
    · left
      rw [htwins.schedule]
      exact (Run.grows_of_step hmove.step).trans (Run.grows_of_steps hsteps)
    · right
      rw [← htwins.schedule]
      exact Run.grows_of_steps hon
  · obtain ⟨last, hlast, hrunning, hmove⟩ := Run.exists_last hr rfl hstopped
    obtain ⟨ended, hsteps, halike⟩ : ∃ ended, ReflTransGen (Run.Step v prog) r' ended ∧
        System.Alike r.system ended.system := by
      rcases twins_of_runs hlog hlast hrunning hr' with hbeyond | ⟨a, hon, htwins⟩
      · exact ⟨r', .refl, hbeyond.alike hmove hstopped⟩
      · exact htwins.ends hon hrunning hmove hstopped
    refine ⟨Or.inr ?_, fun _ => ⟨ended, hsteps, halike.stopped.symm, halike.schedule.symm⟩⟩
    rw [halike.schedule]
    exact Run.grows_of_steps hsteps

-- The main thread creates a thread and returns.
def returning : Program := fun turns =>
  match turns.getLast? with
  | some (0, _) =>
      if (turns.filter fun turn => turn.1 == 0).length = 1 then (16, .create OPERATION_SUCCESSFUL)
      else (32, .threadReturn)
  | _ => (48, .threadReturn)

-- The main thread is through before the child takes a step, and a run in which the child has come
-- to its semaphore first can only end like that.
theorem outcome_of_choices_returning :
    ∃ r', (Run.initial () []).steps ExecutionTracker.virtual returning
        (List.replicate 4 0 ++ List.replicate 2 1) = some r' ∧
      ∃ ended, ReflTransGen (Run.Step ExecutionTracker.virtual returning) r' ended ∧
        ended.system.stopped = some .mainReturned ∧
        ended.system.log.schedule = [.sched 0 0 "After_Create" 16 [0, 1]] := by
  have hruns : (((Run.initial () []).steps ExecutionTracker.virtual returning
      (List.replicate 11 0)).any fun r => r.system.stopped == some .mainReturned &&
        r.system.log.schedule == [.sched 0 0 "After_Create" 16 [0, 1]]) = true ∧
      ((Run.initial () []).steps ExecutionTracker.virtual returning
        (List.replicate 4 0 ++ List.replicate 2 1)).isSome = true := by
    decide +kernel
  obtain ⟨r, hr, hends⟩ := (Option.any_eq_true _ _).mp hruns.1
  rw [Bool.and_eq_true, beq_iff_eq, beq_iff_eq] at hends
  obtain ⟨r', hr'⟩ := Option.isSome_iff_exists.mp hruns.2
  obtain ⟨_, hended⟩ := outcome_of_choices ExecutionTracker.virtual returning () [] [] rfl r r'
    (Run.reaches_of_steps _ hr) (Run.reaches_of_steps _ hr')
  rw [hends.1, hends.2] at hended
  exact ⟨r', hr', hended nofun⟩

end Thrille
