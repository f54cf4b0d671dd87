import Thrille.Replay.Runs

namespace Thrille

open Relation Lockstep

variable {σ τ : Type} {v : Virtual σ} {w : Virtual τ} {rel : σ → τ → Prop} {prog : Program}
  {a a' last : Run σ} {b b' : Run τ} {t : ThrID} {planned : List DecisionInfo}
  {others : List ThrID}

-- Where two runs have done the same it is the turn of the same thread.
theorem System.same_turn {a : System σ} {b b' : System τ} {c : Control} {t' : ThrID}
    {ret_addr : Addr} {op : Op} (hserial : Serial a c) (hview : a.view = b.view)
    (hmoves : a.view.Moves t) (hadvances : a.Advances t)
    (hstep' : b.step w t' ret_addr op = some b') (hadvances' : b.Advances t') :
    t = t' ∧ a.pcs t = b.pcs t := by
  have hmoves' := moves_of_step hstep' hadvances'
  rw [← hview] at hmoves'
  have hsame : t = t' := moves_unique hserial hmoves hmoves'
  subst hsame
  rw [← hadvances.place_eq, ← hadvances'.place_eq]
  exact ⟨rfl, congrArg (fun view => view.places t) hview⟩

theorem Run.turn_eq (hpc : a.system.pcs t = b.system.pcs t) (hturns : a.turns = b.turns) :
    a.turn t = b.turn t := by
  unfold Run.turn
  rw [hpc, hturns]

-- On its way to its place a thread leaves the run as it is.
theorem Run.Quiet.keeps (h : Run.Quiet v prog a a') :
    a'.system.view = a.system.view ∧ a'.turns = a.turns ∧ a'.system.stopped = none ∧
      a'.system.scheduler = a.system.scheduler ∧ a'.system.log = a.system.log := by
  obtain ⟨t, hstep, hnot⟩ := h
  obtain ⟨hsystem, hturns⟩ := Run.step_iff.mp hstep
  obtain ⟨hview, hrunning, hscheduler, hlog, _⟩ := System.view_of_quiet hsystem hnot
  rw [Run.turn_of_not_advances hnot] at hturns
  exact ⟨hview, hturns, hrunning, hscheduler, hlog⟩

-- The second run has done what the first one has.
structure Abreast (a : Run σ) (b : Run τ) : Prop where
  left : ∃ c, Serial a.system c
  right : ∃ c, Serial b.system c
  locked : b.system.Locked
  view : a.system.view = b.system.view
  turns : a.turns = b.turns

theorem Abreast.quiet_left (h : Abreast a b) (hquiet : Run.Quiet v prog a a') : Abreast a' b := by
  obtain ⟨hview, hturns, hrunning, _, _⟩ := hquiet.keeps
  obtain ⟨t, hstep, _⟩ := hquiet
  exact ⟨Run.serial_of_step ⟨t, hstep⟩ h.left hrunning, h.right, h.locked, hview.trans h.view,
    hturns.trans h.turns⟩

theorem Abreast.quiet_right (h : Abreast a b) (hquiet : Run.Quiet w prog b b') : Abreast a b' := by
  obtain ⟨hview, hturns, hrunning, _, _⟩ := hquiet.keeps
  obtain ⟨t, hstep, _⟩ := hquiet
  exact ⟨h.left, Run.serial_of_step ⟨t, hstep⟩ h.right hrunning,
    h.locked.step (Or.inl h.right) (Run.step_iff.mp hstep).1, h.view.trans hview.symm,
    h.turns.trans hturns.symm⟩

-- Where the first run moves, the second one can.
theorem Abreast.exists_move (h : Abreast a b) (hmove : Run.Move v prog a a') :
    ∃ b₁ b₂, ReflTransGen (Run.Quiet w prog) b b₁ ∧ Run.Move w prog b₁ b₂ := by
  obtain ⟨t, hstep, hadvances⟩ := hmove
  obtain ⟨hsystem, _⟩ := Run.step_iff.mp hstep
  obtain ⟨c, hserial⟩ := h.right
  obtain ⟨s, hquiets, hpc, hadvances', s', hstep'⟩ :=
    System.exists_move (w := w) h.view hsystem hadvances hserial.running h.locked
  refine ⟨{ system := s, turns := b.turns }, { system := s', turns := a.turn t },
    Run.quiets_of_system hquiets, t, Run.step_iff.mpr ?_, hadvances'⟩
  have hturn : Run.turn { system := s, turns := b.turns } t = a.turn t :=
    Run.turn_eq hpc h.turns.symm
  rw [hturn]
  exact ⟨hstep', rfl⟩

-- Their moves are steps of one thread, which asks for one operation.
theorem Abreast.same_move (h : Abreast a b) (hmove : Run.Move v prog a a')
    (hmove' : Run.Move w prog b b') :
    ∃ t, a.system.Advances t ∧ b.system.Advances t ∧ a.system.pcs t = b.system.pcs t ∧
      a.system.step v t (prog (a.turn t)).1 (prog (a.turn t)).2 = some a'.system ∧
      b.system.step w t (prog (a.turn t)).1 (prog (a.turn t)).2 = some b'.system ∧
      a'.turns = b'.turns := by
  obtain ⟨t, hstep, hadvances⟩ := hmove
  obtain ⟨t', hstep', hadvances'⟩ := hmove'
  obtain ⟨hsystem, hturns⟩ := Run.step_iff.mp hstep
  obtain ⟨hsystem', hturns'⟩ := Run.step_iff.mp hstep'
  obtain ⟨c, hserial⟩ := h.left
  obtain ⟨rfl, hpc⟩ := System.same_turn hserial h.view (System.moves_of_step hsystem hadvances)
    hadvances hsystem' hadvances'
  have hturn : a.turn t = b.turn t := Run.turn_eq hpc h.turns
  rw [← hturn] at hsystem' hturns'
  exact ⟨t, hadvances, hadvances', hpc, hsystem, hsystem', hturns.trans hturns'.symm⟩

-- The second run has done what the first one had done at this point of it, and is left with the
-- choices that follow there up to a point, before some others.
structure Matches (rel : σ → τ → Prop) (planned : List DecisionInfo) (others : List ThrID)
    (a : Run σ) (b : Run τ) : Prop extends Abreast a b where
  rel : rel a.system.scheduler b.system.scheduler
  read : ∃ choices, a.system.view.Chosen choices ∧
    choices <+: planned.map DecisionInfo.getChosen ∧
    b.system.log.read_schedule.map DecisionInfo.getChosen =
      (planned.map DecisionInfo.getChosen).drop choices.length ++ others

-- All decisions of the plan are logged.
def Over (planned : List DecisionInfo) (b : Run τ) : Prop := planned <+: b.system.log.schedule

theorem Over.step (h : Over planned b) (hstep : Run.Step w prog b b') : Over planned b' :=
  h.trans (Run.grows_of_step hstep)

theorem over_of_quiet_or_move (h : Over planned b)
    (hstep : Run.Quiet w prog b b' ∨ Run.Move w prog b b') : Over planned b' := by
  rcases hstep with ⟨t, hstep, _⟩ | ⟨t, hstep, _⟩
  · exact h.step ⟨t, hstep⟩
  · exact h.step ⟨t, hstep⟩

theorem Matches.past (h : Matches rel planned others a b)
    (hdone : planned <+: a.system.log.schedule) : Over planned b := by
  have hschedule : a.system.log.schedule = b.system.log.schedule := congrArg View.schedule h.view
  rw [Over, ← hschedule]
  exact hdone

-- A step chooses one thread at most, and none while another choice is not logged.
theorem System.Advanced.made_cases {s s' : System σ} {ret_addr : Addr} {op : Op}
    {made : List ThrID} (h : System.Advanced v s t ret_addr op s' made) :
    made = [] ∨ ∃ x, made = [x] ∧ (s.pcs t).pending = [] := by
  cases h with
  | asks ret_val hpc hview hlog hscheduler => exact Or.inl rfl
  | spawns addr child hpc hview hlog hscheduler => exact Or.inl rfl
  | runs tr eff choice enabled hpc hrun hdecides hview =>
      have hpends := ExecutionTracker.runSection_pends hpc hrun
      cases eff with
      | signalChoice info => exact Or.inr ⟨choice, rfl, hpends.1⟩
      | schedule info r => exact Or.inr ⟨choice, rfl, hpends⟩
      | _ => exact Or.inl rfl

-- A choice of the first run is one of the plan, or the plan has been carried out.
theorem planned_of_chosen (hplanned : planned <+: last.system.log.schedule)
    (hgrows : a.system.log.schedule <+: last.system.log.schedule)
    {choices all : List ThrID} {x : ThrID}
    (hchoices : choices = a.system.log.schedule.map DecisionInfo.getChosen)
    (hall : last.system.view.Chosen all) (hmade : choices ++ [x] <+: all) :
    choices ++ [x] <+: planned.map DecisionInfo.getChosen ∨
      planned <+: a.system.log.schedule := by
  have hlog : planned.map DecisionInfo.getChosen <+: all := by
    obtain ⟨u, _, rfl⟩ := hall
    exact (hplanned.map _).trans (List.prefix_append _ _)
  by_cases hlength : choices.length < (planned.map DecisionInfo.getChosen).length
  · refine Or.inl (List.prefix_of_prefix_length_le hmade hlog ?_)
    rw [List.length_append, List.length_singleton]
    omega
  · refine Or.inr (List.prefix_of_prefix_length_le hplanned hgrows ?_)
    rw [hchoices, List.length_map, List.length_map] at hlength
    omega

theorem Matches.moved (hreplays : Replays v w rel) (h : Matches rel planned others a b)
    (hplanned : planned <+: last.system.log.schedule) (hrunning : last.system.stopped = none)
    (hmove : Run.Move v prog a a') (hon : ReflTransGen (Run.Step v prog) a' last)
    (hmove' : Run.Move w prog b b') : Matches rel planned others a' b' ∨
      planned <+: a.system.log.schedule ∧ ∃ x, a'.system.view.Chosen
        (a.system.log.schedule.map DecisionInfo.getChosen ++ [x]) := by
  obtain ⟨t, hadvances, hadvances', hpc, hsystem, hsystem', hturns⟩ := h.same_move hmove hmove'
  have hstep := hmove.step
  have hstep' := hmove'.step
  obtain ⟨c, hserial⟩ := h.left
  obtain ⟨c', hserial'⟩ := h.right
  have hmoves := System.moves_of_step hsystem hadvances
  have hrunning' : a'.system.stopped = none := Run.running_of_steps hon hrunning
  have hserials : ∃ c, Serial a'.system c := Run.serial_of_step hstep h.left hrunning'
  obtain ⟨made, hadvanced⟩ := System.advanced_of_step hserial hadvances hsystem hrunning'
  obtain ⟨choices, hchosen, hprefix, hread⟩ := h.read
  have hchosen' := hadvanced.chosen hserial hadvances hmoves hchosen
  have hfollow {left : List ThrID}
      (hleft : b.system.log.read_schedule.map DecisionInfo.getChosen = made ++ left)
      (hon' : choices ++ made <+: planned.map DecisionInfo.getChosen)
      (hdrop : left =
        (planned.map DecisionInfo.getChosen).drop (choices ++ made).length ++ others) :
      Matches rel planned others a' b' := by
    obtain ⟨hrunning'', hview, hrel, hread'⟩ := hadvanced.follow hreplays h.view hpc h.rel hserial'
      hadvances' hsystem' hleft
    refine ⟨⟨hserials, Run.serial_of_step hstep' h.right hrunning'',
      h.locked.step (Or.inl h.right) hsystem', hview, hturns⟩, hrel, choices ++ made, hchosen', hon',
      ?_⟩
    rw [hread', hdrop]
  rcases hadvanced.made_cases with rfl | ⟨x, rfl, hpending⟩
  · rw [List.append_nil] at hfollow
    exact Or.inl (hfollow hread hprefix rfl)
  · obtain ⟨more, hall⟩ := Run.chosen_of_steps hon hserials hrunning hchosen'
    have hchoices : choices = a.system.log.schedule.map DecisionInfo.getChosen := by
      rw [(System.chosen_at hserial hmoves hchosen).2]
      show a.system.log.schedule.map _ ++ (a.system.place t).pending = _
      rw [hadvances.place_eq, hpending, List.append_nil]
    rcases planned_of_chosen hplanned
      ((Run.grows_of_step hstep).trans (Run.grows_of_steps hon)) hchoices hall
      (List.prefix_append _ _) with hon' | hdone
    · left
      refine hfollow ?_ hon' rfl
      obtain ⟨rest, hrest⟩ := hon'
      rw [hread, ← hrest]
      simp
    · rw [hchoices] at hchosen'
      exact Or.inr ⟨hdone, x, hchosen'⟩

-- Quiet steps of either run do not matter.
theorem Matches.quiet_left (h : Matches rel planned others a b) (hquiet : Run.Quiet v prog a a') :
    Matches rel planned others a' b := by
  obtain ⟨hview, _, _, hscheduler, _⟩ := hquiet.keeps
  obtain ⟨choices, hchosen, hread⟩ := h.read
  refine ⟨h.toAbreast.quiet_left hquiet, ?_, choices, ?_, hread⟩
  · rw [hscheduler]
    exact h.rel
  · rw [hview]
    exact hchosen

theorem Matches.quiet_right (h : Matches rel planned others a b)
    (hquiet : Run.Quiet w prog b b') : Matches rel planned others a b' := by
  obtain ⟨_, _, _, hscheduler, hlog⟩ := hquiet.keeps
  refine ⟨h.toAbreast.quiet_right hquiet, ?_, ?_⟩
  · rw [hscheduler]
    exact h.rel
  · rw [hlog]
    exact h.read

-- The run that follows the log mirrors the one that has written it.
theorem mirrors (hreplays : Replays v w rel) (hplanned : planned <+: last.system.log.schedule)
    (hrunning : last.system.stopped = none) :
    Mirrors (Run.Quiet v prog) (Run.Move v prog) (Run.Quiet w prog) (Run.Move w prog) last
      (Matches rel planned others) (Over planned) where
  left a a' b h hquiet _ := h.quiet_left hquiet
  right a b b' h hquiet := h.quiet_right hquiet
  moves a a' b b' h hmove hon hmove' := by
    rcases h.moved hreplays hplanned hrunning hmove (Run.steps_iff.mp hon) hmove' with
      hmatches | ⟨hdone, _⟩
    · exact Or.inl hmatches
    · obtain ⟨t, hstep, _⟩ := hmove'
      exact Or.inr ((h.past hdone).step ⟨t, hstep⟩)
  ends b b' h hmove := by
    obtain ⟨t, hstep, _⟩ := hmove
    exact (h.past hplanned).step ⟨t, hstep⟩
  past b b' h hstep := over_of_quiet_or_move h hstep
  follows a a' b h hmove _ := h.exists_move hmove

-- At the start the two runs are in step.
theorem matches_initial (scheduler : σ) (scheduler' : τ) (read_schedule log : List DecisionInfo)
    (hrel : rel scheduler scheduler')
    (hlog : log.map DecisionInfo.getChosen = planned.map DecisionInfo.getChosen ++ others) :
    Matches rel planned others (Run.initial scheduler read_schedule) (Run.initial scheduler' log) where
  left := ⟨_, Serial.initial scheduler read_schedule⟩
  right := ⟨_, Serial.initial scheduler' log⟩
  locked := nofun
  view := rfl
  turns := rfl
  rel := hrel
  read := ⟨[], System.initial_chosen scheduler read_schedule, List.nil_prefix, hlog⟩

end Thrille
