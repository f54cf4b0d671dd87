import Thrille.Replay.Branched
import Thrille.Replay.Trackers

namespace Thrille

open Relation Lockstep

variable {σ τ : Type} {v : Virtual σ} {w : Virtual τ} {rel : σ → τ → Prop} {prog : Program}
  {scheduler : σ} {scheduler' : τ} {read_schedule log planned : List DecisionInfo} {last : Run σ}

-- A run with the choices of a log, and some others behind them, does what the run with that log
-- did.
theorem carriesOut_of_replays (hreplays : Replays v w rel) (hrel : rel scheduler scheduler')
    (hlast : ReflTransGen (Run.Step v prog) (Run.initial scheduler read_schedule) last)
    (hrunning : last.system.stopped = none) (hplanned : planned <+: last.system.log.schedule)
    {others : List ThrID}
    (hlog : log.map DecisionInfo.getChosen = planned.map DecisionInfo.getChosen ++ others) :
    CarriesOut w prog planned (Run.initial scheduler' log) := by
  intro b hb
  have hmirrors : Mirrors (Run.Quiet v prog) (Run.Move v prog) (Run.Quiet w prog) (Run.Move w prog)
      last (Matches rel planned others) (Over planned) := mirrors hreplays hplanned hrunning
  have hstart : Matches rel planned others (Run.initial scheduler read_schedule)
      (Run.initial scheduler' log) :=
    matches_initial scheduler scheduler' read_schedule log hrel hlog
  rcases hmirrors.safe hstart (Run.steps_iff.mpr hlast) (Run.steps_iff.mpr hb) with
    hover | ⟨a, hto, hon, hmatches⟩
  · exact onCourse_of_logged hover
  · refine ⟨?_, fun _ => ?_, fun hnot b' ⟨t, hstep⟩ => ?_, ?_⟩
    · have hschedule : b.system.log.schedule <+: last.system.log.schedule := by
        rw [← show a.system.log.schedule = b.system.log.schedule from
          congrArg View.schedule hmatches.view]
        exact Run.grows_of_steps (Run.steps_iff.mp hon)
      exact List.prefix_or_prefix_of_prefix hschedule hplanned
    · obtain ⟨c, hserial⟩ := hmatches.right
      exact hserial.running
    · by_cases hadvances : b.system.Advances t
      · rcases hmirrors.next_move hmatches hon with hends | ⟨a₁, a₂, _, hmatches₁, hmove, hon₂⟩
        · exact absurd (hends.past hplanned) hnot
        · rcases hmatches₁.moved hreplays hplanned hrunning hmove (Run.steps_iff.mp hon₂)
            ⟨t, hstep, hadvances⟩ with hmatches₂ | ⟨hdone, _⟩
          · obtain ⟨c', hserial'⟩ := hmatches₂.right
            exact hserial'.running
          · exact absurd (hmatches₁.past hdone) hnot
      · obtain ⟨c', hserial'⟩ := (hmatches.quiet_right ⟨t, hstep, hadvances⟩).right
        exact hserial'.running
    · obtain ⟨b', hsteps, hover | hmatches'⟩ := hmirrors.live hmatches hon
      · exact ⟨b', Run.steps_iff.mp hsteps, hover⟩
      · exact ⟨b', Run.steps_iff.mp hsteps, hmatches'.past hplanned⟩

-- A run whose log differs from that in one choice, of a thread that was listed there, does the same
-- up to that choice and makes it.
theorem carriesOut_of_branches (hreplays : Replays v w rel) (hbranches : Branches v w rel)
    (hrel : rel scheduler scheduler')
    (hlast : ReflTransGen (Run.Step v prog) (Run.initial scheduler read_schedule) last)
    (hrunning : last.system.stopped = none) {d : DecisionInfo}
    (hplanned : planned ++ [d] <+: last.system.log.schedule) {alt : ThrID} (halt : alt ∈ d.listed)
    {more : List ThrID}
    (hlog : log.map DecisionInfo.getChosen = planned.map DecisionInfo.getChosen ++ alt :: more) :
    CarriesOut w prog (planned ++ [d.choosing alt]) (Run.initial scheduler' log) := by
  have hlt : planned.length < last.system.log.schedule.length := by
    have hle := hplanned.length_le
    rw [List.length_append, List.length_singleton] at hle
    omega
  -- where the first run decides
  obtain ⟨a₁, a₂, t, x, hto, hat, hstep, hadvances, hon, hadvanced, hlength, hchosen⟩ :=
    exists_decision hlast ⟨_, Serial.initial scheduler read_schedule⟩ hrunning
      (System.initial_chosen scheduler read_schedule) (Nat.zero_le _) hlt
  have hrunning₂ := Run.running_of_steps hon hrunning
  obtain ⟨hsection, d', hdecided, hd'⟩ := decided_of_advanced hadvanced hon
    (Run.serial_of_step ⟨t, hstep⟩ hat hrunning₂) hrunning (by omega)
  have hgrows := (Run.grows_of_step ⟨t, hstep⟩).trans (Run.grows_of_steps hon)
  have hschedule : a₁.system.log.schedule = planned :=
    List.IsPrefix.eq_of_length (List.prefix_of_prefix_length_le hgrows
      ((List.prefix_append _ _).trans hplanned) hlength.le) hlength
  rw [hschedule] at hd'
  have hsame : d' = d := by
    have hboth := List.IsPrefix.eq_of_length (List.prefix_of_prefix_length_le hd' hplanned
      (by simp)) (by simp)
    simpa using hboth
  subst hsame
  obtain ⟨hsystem, _⟩ := Run.step_iff.mp hstep
  have hmoves := System.moves_of_step hsystem hadvances
  have hmirrors : Mirrors (Run.Quiet v prog) (Run.Move v prog) (Run.Quiet w prog) (Run.Move w prog)
      a₁ (Matches rel planned (alt :: more)) (After w prog rel planned (alt :: more) a₁) :=
    mirrors_until hreplays hat hmoves hschedule hchosen
  have hstart : Matches rel planned (alt :: more) (Run.initial scheduler read_schedule)
      (Run.initial scheduler' log) :=
    matches_initial scheduler scheduler' read_schedule log hrel hlog
  have hbranch {b₁ b₂ : Run τ} (hmatches : Matches rel planned (alt :: more) a₁ b₁)
      (hmove : Run.Move w prog b₁ b₂) := branch_move hbranches hmatches hschedule hchosen hmoves
    hadvances hsection hdecided halt hmove
  have hafter {b₁ b₂ b : Run τ} (hmatches : Matches rel planned (alt :: more) a₁ b₁)
      (hmove : Run.Move w prog b₁ b₂) (hsteps : ReflTransGen (Run.Step w prog) b₂ b) :
      OnCourse w prog (planned ++ [d'.choosing alt]) b := by
    rcases (hbranch hmatches hmove).2 with hlogged | ⟨info, hentry, hhands⟩
    · refine onCourse_of_logged ?_
      rw [← hlogged]
      exact Run.grows_of_steps hsteps
    · rw [hentry]
      rcases hhands.steps (Run.steps_iff.mpr hsteps) with hhands' | hlogged
      · exact hhands'.onCourse
      · exact onCourse_of_logged hlogged
  intro b hb
  rcases hmirrors.safe hstart (Run.steps_iff.mpr hto) (Run.steps_iff.mpr hb) with
    ⟨b₁, b₂, hmatches, hmove, hsteps⟩ | ⟨a, _, hon', hmatches⟩
  · exact hafter hmatches hmove (Run.steps_iff.mp hsteps)
  · refine ⟨?_, fun _ => ?_, fun _ b' ⟨u, hstep'⟩ => ?_, ?_⟩
    · rw [← show a.system.log.schedule = b.system.log.schedule from
        congrArg View.schedule hmatches.view]
      exact Or.inl (((Run.grows_of_steps (Run.steps_iff.mp hon')).trans
        (hschedule ▸ List.prefix_rfl)).trans (List.prefix_append _ _))
    · obtain ⟨c, hserial⟩ := hmatches.right
      exact hserial.running
    · by_cases hadvances' : b.system.Advances u
      · rcases hmirrors.next_move hmatches hon' with hends | ⟨a', a'', _, hmatches', hmove, hon''⟩
        · exact (hbranch hends ⟨u, hstep', hadvances'⟩).1
        · obtain ⟨c, hserial⟩ := (hmatches'.moved_until hreplays hmove (Run.steps_iff.mp hon'') hat
            hmoves hschedule hchosen ⟨u, hstep', hadvances'⟩).right
          exact hserial.running
      · obtain ⟨c, hserial⟩ := (hmatches.quiet_right ⟨u, hstep', hadvances'⟩).right
        exact hserial.running
    · obtain ⟨b', hsteps, ⟨b₁, b₂, hmatches', hmove, hsteps'⟩ | hmatches'⟩ :=
        hmirrors.live hmatches hon'
      · obtain ⟨b'', hon'', hlogged⟩ := (hafter hmatches' hmove (Run.steps_iff.mp hsteps')).completes
        exact ⟨b'', (Run.steps_iff.mp hsteps).trans hon'', hlogged⟩
      · obtain ⟨b₁, b₂, hquiets, hmove⟩ :=
          hmatches'.exists_move (w := w) ⟨t, hstep, hadvances⟩
        have hmove' := hafter (hmirrors.right_steps hmatches' hquiets) hmove .refl
        obtain ⟨b'', hon'', hlogged⟩ := hmove'.completes
        have hto' := (hsteps.trans (steps_of_quiet hquiets)).tail (Or.inr hmove)
        exact ⟨b'', (Run.steps_iff.mp hto').trans hon'', hlogged⟩

end Thrille
