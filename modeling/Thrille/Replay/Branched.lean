import Thrille.Replay.Branch

namespace Thrille

open Relation Lockstep ExecutionTracker

variable {σ τ : Type} {v : Virtual σ} {w : Virtual τ} {rel : σ → τ → Prop} {prog : Program}
  {a a' a₁ a₂ last : Run σ} {b b' b₁ b₂ : Run τ} {t x alt : ThrID} {planned : List DecisionInfo}
  {d : DecisionInfo} {others more : List ThrID} {info : SignalPointInfo}

-- The signaller has taken the other thread, and has not logged it yet.
structure HandsOver (planned : List DecisionInfo) (info : SignalPointInfo) (alt : ThrID) (b : Run τ) :
    Prop where
  serial : ∃ c, Serial b.system c
  locked : b.system.Locked
  schedule : b.system.log.schedule = planned
  single : info.isBroadcast = false
  waits : alt ∈ info.cond_map.threadsAt info.cond
  place : ∃ t, b.system.view.places t = .handoff info alt

theorem HandsOver.quiet (h : HandsOver planned info alt b) (hquiet : Run.Quiet w prog b b') :
    HandsOver planned info alt b' := by
  obtain ⟨t, hstep, hnot⟩ := hquiet
  obtain ⟨hsystem, _⟩ := Run.step_iff.mp hstep
  obtain ⟨hview, hrunning, _, hlog, _⟩ := System.view_of_quiet hsystem hnot
  refine ⟨Run.serial_of_step ⟨t, hstep⟩ h.serial hrunning, h.locked.step (Or.inl h.serial) hsystem,
    ?_, h.single, h.waits, ?_⟩
  · rw [hlog]
    exact h.schedule
  · rw [hview]
    exact h.place

-- The next step that is more than somebody's way to its place logs the thread.
theorem HandsOver.move (h : HandsOver planned info alt b) (hmove : Run.Move w prog b b') :
    b'.system.stopped = none ∧ b'.system.log.schedule = planned ++ [info.entry alt] := by
  obtain ⟨u, hstep, hadvances⟩ := hmove
  obtain ⟨hsystem, _⟩ := Run.step_iff.mp hstep
  obtain ⟨c, hserial⟩ := h.serial
  obtain ⟨t, hplace⟩ := h.place
  have hpending : (b.system.view.places t).pending ≠ [] := by
    rw [hplace, Pc.pending, h.single]
    rintro ⟨⟩
  have hsame : t = u := System.moves_unique hserial (View.moves_of_pending hpending)
    (System.moves_of_step hsystem hadvances)
  subst hsame
  have hpc : b.system.pcs t = .handoff info alt := hadvances.place_eq.symm.trans hplace
  obtain ⟨tr, tracker, hrun, hwake⟩ := System.signalled_isOk hserial hpc h.waits
  obtain ⟨_, htransition⟩ := System.step_iff.mp hsystem
  obtain ⟨hrunning, _⟩ := System.runThread_of_decides hserial hadvances hsystem hrun
    (.signalled info alt tracker 0 [] hwake)
  have hrunning' : b'.system.stopped = none := by
    generalize hafter : b'.system = after at htransition
    cases htransition with
    | runs _ hlock hready => exact hrunning
    | _ => simp_all
  obtain ⟨made, hadvanced⟩ := System.advanced_of_step hserial hadvances hsystem hrunning'
  rw [← h.schedule]
  exact ⟨hrunning', System.advanced_handoff hadvanced hpc h.single⟩

theorem HandsOver.live (h : HandsOver planned info alt b) :
    ∃ b', ReflTransGen (Run.Step w prog) b b' ∧
      b'.system.log.schedule = planned ++ [info.entry alt] := by
  obtain ⟨c, hserial⟩ := h.serial
  obtain ⟨t, hplace⟩ := h.place
  obtain ⟨s, hquiets, hpc, hlock, hrunning⟩ :=
    System.arrives (v := w) hserial.running h.locked t
  have hquiets' : ReflTransGen (Run.Quiet w prog) b { system := s, turns := b.turns } :=
    Run.quiets_of_system hquiets
  have hhands : HandsOver planned info alt { system := s, turns := b.turns } := by
    generalize ({ system := s, turns := b.turns } : Run τ) = b₁ at hquiets'
    induction hquiets' with
    | refl => exact h
    | tail _ hquiet ih => exact ih.quiet hquiet
  have hpc' : s.pcs t = .handoff info alt := hpc.trans hplace
  have hadvances : s.Advances t := by
    rw [System.Advances, hpc']
    rfl
  have hstep : s.step w t (prog b.turns).1 (prog b.turns).2 = some (s.runThread w t (s.pcs t)) :=
    System.step_iff.mpr ⟨hrunning, .runs (by rw [hpc']; rfl) (Or.inr hlock) (by rw [hpc']; rfl)⟩
  have hturn : Run.turn { system := s, turns := b.turns } t = b.turns := by
    unfold Run.turn
    rw [hpc']
  have hmove : Run.Move w prog { system := s, turns := b.turns }
      { system := s.runThread w t (s.pcs t), turns := b.turns } := by
    refine ⟨t, Run.step_iff.mpr ?_, hadvances⟩
    rw [hturn]
    exact ⟨hstep, rfl⟩
  have hsteps := Run.steps_iff.mp ((steps_of_quiet hquiets').tail (Or.inr hmove))
  exact ⟨_, hsteps, (hhands.move hmove).2⟩

-- A step that chooses a thread is the end of a section.
theorem System.Advanced.of_choice {s s' : System σ} {ret_addr : Addr} {op : Op} {made : List ThrID}
    (h : System.Advanced v s t ret_addr op s' made) (hmade : made = [x]) :
    ∃ tr eff enabled, eff.decides = true ∧ (s.pcs t).isSection = true ∧
      s.tracker.runSection t (s.pcs t) = .ok (tr, eff) ∧
      System.Decides v (s.ended t tr) eff x enabled s'.log.read_schedule s'.scheduler ∧
      s'.view = View.perform { s.view with tracker := tr.settled } t (s.pcs t) x enabled eff := by
  cases h with
  | asks ret_val hpc hview hlog hscheduler => cases hmade
  | spawns addr child hpc hview hlog hscheduler => cases hmade
  | runs tr eff choice enabled hpc hrun hdecides hview =>
      unfold Effect.choice at hmade
      split at hmade
      · rename_i hchooses
        cases hmade
        exact ⟨tr, eff, enabled, hchooses, hpc, hrun, hdecides, hview⟩
      · cases hmade

-- The decision that thread `t` is about to make, as the log shows it in the end.
inductive Decided (v : Virtual σ) (s : System σ) (t : ThrID) : DecisionInfo → Prop
  | schedule (tr : ExecutionTracker) (info : SchedPointInfo) (r : Rest) (x : ThrID)
      (enabled : List ThrID) (rest : List DecisionInfo) (scheduler : σ)
      (hrun : s.tracker.runSection t (s.pcs t) = .ok (tr, .schedule info r))
      (hdecides : System.Decides v (s.ended t tr) (.schedule info r) x enabled rest scheduler) :
      Decided v s t (info.entry x enabled)
  | signal (tr : ExecutionTracker) (info : SignalPointInfo) (x : ThrID) (enabled : List ThrID)
      (rest : List DecisionInfo) (scheduler : σ) (hsingle : info.isBroadcast = false)
      (hrun : s.tracker.runSection t (s.pcs t) = .ok (tr, .signalChoice info))
      (hdecides : System.Decides v (s.ended t tr) (.signalChoice info) x enabled rest scheduler) :
      Decided v s t (info.entry x)

theorem decided_of_advanced {ret_addr : Addr} {op : Op}
    (h : System.Advanced v a₁.system t ret_addr op a₂.system [x])
    (hon : ReflTransGen (Run.Step v prog) a₂ last) (hserial : ∃ c, Serial a₂.system c)
    (hrunning : last.system.stopped = none)
    (hlt : a₁.system.log.schedule.length < last.system.log.schedule.length) :
    (a₁.system.pcs t).isSection = true ∧
      ∃ d, Decided v a₁.system t d ∧
        a₁.system.log.schedule ++ [d] <+: last.system.log.schedule := by
  obtain ⟨tr, eff, enabled, hchooses, hsection, hrun, hdecides, hview⟩ := h.of_choice rfl
  have hschedule := congrArg View.schedule hview
  have hplace := congrArg (fun view => view.places t) hview
  refine ⟨hsection, ?_⟩
  cases eff with
  | signalChoice info =>
      have hsingle := (runSection_pends hsection hrun).2
      change a₂.system.log.schedule = a₁.system.log.schedule at hschedule
      refine ⟨info.entry x, .signal tr info x enabled _ _ hsingle hrun hdecides, ?_⟩
      rw [← hschedule]
      refine logs_handoff hon hserial hrunning (t := t) ?_ hsingle ?_
      · exact hplace.trans (Function.update_self _ _ _)
      · rw [hschedule]
        exact hlt
  | schedule info r =>
      change a₂.system.log.schedule = a₁.system.log.schedule ++ [info.entry x enabled]
        at hschedule
      refine ⟨info.entry x enabled, .schedule tr info r x enabled _ _ hrun hdecides, ?_⟩
      rw [← hschedule]
      exact Run.grows_of_steps hon
  | _ => cases hchooses

-- Up to a point where the first run has logged the plan and chosen nothing else, the second one
-- makes its choices.
theorem Matches.moved_until (hreplays : Replays v w rel)
    (h : Matches rel planned others a b) (hmove : Run.Move v prog a a')
    (hon : ReflTransGen (Run.Step v prog) a' a₁) (hat : ∃ c, Serial a₁.system c)
    (hmoves : a₁.system.view.Moves t) (hschedule : a₁.system.log.schedule = planned)
    (hchosen : a₁.system.view.Chosen (a₁.system.log.schedule.map DecisionInfo.getChosen))
    (hmove' : Run.Move w prog b b') : Matches rel planned others a' b' := by
  obtain ⟨c, hserial⟩ := hat
  have hrunning := hserial.running
  rcases h.moved hreplays (hschedule ▸ List.prefix_rfl) hrunning hmove hon hmove' with
    hmatches | ⟨hdone, y, hchosen'⟩
  · exact hmatches
  · -- the first run would have one more choice to log
    obtain ⟨u, hstep, _⟩ := hmove
    have hgrows := (Run.grows_of_step ⟨u, hstep⟩).trans (Run.grows_of_steps hon)
    rw [hschedule] at hgrows
    have hsame : a.system.log.schedule = planned :=
      List.IsPrefix.eq_of_length_le hgrows hdone.length_le
    have hrunning' := Run.running_of_steps hon hrunning
    obtain ⟨made, hall⟩ := Run.chosen_of_steps hon
      (Run.serial_of_step ⟨u, hstep⟩ h.left hrunning') hrunning hchosen'
    have hall' := (System.chosen_at hserial hmoves hall).2
    rw [← (System.chosen_at hserial hmoves hchosen).2, hschedule, hsame] at hall'
    have hlength := congrArg List.length hall'
    simp only [List.length_append, List.length_singleton] at hlength
    omega

-- What comes after a move of the second run from that point.
def After (w : Virtual τ) (prog : Program) (rel : σ → τ → Prop) (planned : List DecisionInfo)
    (others : List ThrID) (a₁ : Run σ) (b : Run τ) : Prop :=
  ∃ b₁ b₂, Matches rel planned others a₁ b₁ ∧ Run.Move w prog b₁ b₂ ∧
    Steps (Run.Quiet w prog) (Run.Move w prog) b₂ b

theorem mirrors_until (hreplays : Replays v w rel) (hat : ∃ c, Serial a₁.system c)
    (hmoves : a₁.system.view.Moves t) (hschedule : a₁.system.log.schedule = planned)
    (hchosen : a₁.system.view.Chosen (a₁.system.log.schedule.map DecisionInfo.getChosen)) :
    Mirrors (Run.Quiet v prog) (Run.Move v prog) (Run.Quiet w prog) (Run.Move w prog) a₁
      (Matches rel planned others) (After w prog rel planned others a₁) where
  left a a' b h hquiet _ := h.quiet_left hquiet
  right a b b' h hquiet := h.quiet_right hquiet
  moves a a' b b' h hmove hon hmove' :=
    Or.inl (h.moved_until hreplays hmove (Run.steps_iff.mp hon) hat hmoves hschedule hchosen hmove')
  ends b b' h hmove := ⟨b, b', h, hmove, .refl⟩
  past b b' := by
    rintro ⟨b₁, b₂, hmatches, hmove, hsteps⟩ hstep
    exact ⟨b₁, b₂, hmatches, hmove, hsteps.tail hstep⟩
  follows a a' b h hmove _ := h.exists_move hmove

-- The move from that point makes the other choice.
theorem branch_move (hbranches : Branches v w rel) (h : Matches rel planned (alt :: more) a₁ b₁)
    (hschedule : a₁.system.log.schedule = planned)
    (hchosen : a₁.system.view.Chosen (a₁.system.log.schedule.map DecisionInfo.getChosen))
    (hmoves : a₁.system.view.Moves t) (hadvances : a₁.system.Advances t)
    (hsection : (a₁.system.pcs t).isSection = true) (hdecided : Decided v a₁.system t d)
    (halt : alt ∈ d.listed) (hmove : Run.Move w prog b₁ b₂) :
    b₂.system.stopped = none ∧ (b₂.system.log.schedule = planned ++ [d.choosing alt] ∨
      ∃ info, d.choosing alt = info.entry alt ∧ HandsOver planned info alt b₂) := by
  obtain ⟨t', hstep', hadvances'⟩ := hmove
  obtain ⟨hsystem', _⟩ := Run.step_iff.mp hstep'
  obtain ⟨c, hserial⟩ := h.left
  obtain ⟨c', hserial'⟩ := h.right
  obtain ⟨rfl, hpc⟩ := System.same_turn hserial h.view hmoves hadvances hsystem' hadvances'
  have hsection' : (b₁.system.pcs t).isSection = true := hpc ▸ hsection
  have hlog : b₁.system.log.schedule = planned := by
    rw [← hschedule]
    exact (congrArg View.schedule h.view).symm
  -- the first choice that is left is the other one
  obtain ⟨choices, hchosen', _, hread⟩ := h.read
  have hchoices : choices = planned.map DecisionInfo.getChosen := by
    rw [(System.chosen_at hserial hmoves hchosen').2,
      ← (System.chosen_at hserial hmoves hchosen).2, hschedule]
  rw [hchoices, List.drop_length, List.nil_append] at hread
  cases hdecided with
  | schedule tr info r x enabled rest scheduler hrun hdecides =>
      obtain ⟨hrunning, hlogged⟩ := System.branch_schedule hbranches h.view hpc h.rel hserial'
        hadvances' hsection' hsystem' hrun hdecides halt hread
      rw [hlog] at hlogged
      exact ⟨hrunning, Or.inl hlogged⟩
  | signal tr info x enabled rest scheduler hsingle hrun hdecides =>
      obtain ⟨hrunning, hlogged, hplace⟩ := System.branch_signal h.view hpc hserial' hadvances'
        hsection' hsystem' hrun hread
      refine ⟨hrunning, Or.inr ⟨info, rfl, ?_, ?_, ?_, hsingle, halt, t, hplace⟩⟩
      · exact Run.serial_of_step ⟨t, hstep'⟩ h.right hrunning
      · exact h.locked.step (Or.inl h.right) hsystem'
      · rw [hlogged, hlog]

theorem HandsOver.steps (h : HandsOver planned info alt b)
    (hsteps : Steps (Run.Quiet w prog) (Run.Move w prog) b b') :
    HandsOver planned info alt b' ∨ planned ++ [info.entry alt] <+: b'.system.log.schedule := by
  induction hsteps with
  | refl => exact Or.inl h
  | tail _ hstep ih =>
      rcases ih with hhands | hdone
      · rcases hstep with hquiet | hmove
        · exact Or.inl (hhands.quiet hquiet)
        · exact Or.inr ((hhands.move hmove).2 ▸ List.prefix_rfl)
      · exact Or.inr (over_of_quiet_or_move hdone hstep)

theorem HandsOver.onCourse (h : HandsOver planned info alt b) :
    OnCourse w prog (planned ++ [info.entry alt]) b where
  logs := by
    rw [h.schedule]
    exact Or.inl (List.prefix_append _ _)
  running _ := by
    obtain ⟨c, hserial⟩ := h.serial
    exact hserial.running
  goes _ b' hstep := by
    obtain ⟨t, hstep⟩ := hstep
    by_cases hadvances : b.system.Advances t
    · exact (h.move ⟨t, hstep, hadvances⟩).1
    · obtain ⟨c, hserial⟩ := (h.quiet ⟨t, hstep, hadvances⟩).serial
      exact hserial.running
  completes := by
    obtain ⟨b', hsteps, hlog⟩ := h.live
    exact ⟨b', hsteps, hlog ▸ List.prefix_rfl⟩

end Thrille
