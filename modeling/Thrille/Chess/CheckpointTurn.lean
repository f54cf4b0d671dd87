import Thrille.Chess.CheckpointSetup
import Thrille.Chess.CheckpointSearch

namespace Thrille

open BoundedSearch ChessSearchStack ChessChecker

namespace DecisionTree

theorem Reached.preemptions_through {tree : DecisionTree} (reached : Reached tree) (chosen : Name)
    (points : List SchedulePoint) :
    Schedule._getPreemptions { schedule := reached.through chosen ++ points } =
      reached.preemptions + reached.decision.charge chosen +
        Schedule._getPreemptions { schedule := points } := by
  have hpoint := preemptions_sched_point reached.decision none chosen
  rw [Schedule._getPreemptions, Reached.through, List.countP_append, List.countP_append, hpoint]
  rfl

-- The elements that a run which comes to its checkpoint leaves below it on the stack.
structure Arrival (tree : DecisionTree) extends Reached tree where
  below : List SearchStackElement
  elements : Elements front below
  ne : below ≠ []

namespace Arrival

variable {tree : DecisionTree} {arrival : Arrival tree} {chosen : Name} {todo : List Name}
  {checkpoint : SearchStackElement}

theorem sound (h : Decides arrival.decision none chosen todo checkpoint)
    (hmem : chosen ∈ arrival.decision.enabled) :
    Bottom.Sound ⟨arrival.below, checkpoint⟩ (arrival.through chosen) := by
  refine ⟨arrival.ne, arrival.elements.unmarked, h.ischeckpoint.trans arrival.marked, ?_,
    (Reached.leads_through hmem).chosen⟩
  intro rest
  rw [Bottom.elements, List.map_append, List.append_assoc, arrival.elements.joins, List.map_singleton,
    List.singleton_append, h.makeSchedulePoint, joinSignals_cons _ _ rfl, Option.map_map,
    Reached.through]
  congr 1
  funext tail
  simp only [Function.comp_apply, List.append_assoc, List.singleton_append]

theorem cost (h : Decides arrival.decision none chosen todo checkpoint) :
    Bottom.cost ⟨arrival.below, checkpoint⟩ = arrival.decision.charge chosen :=
  h.isPreempt

end Arrival

end DecisionTree

namespace ChessSearchStack

section

variable {bottom : Bottom} {points : List SchedulePoint} {search inner : ChessSearchStack}

-- The push that puts the checkpoint on the elements below it.
theorem push_checkpoint (hsound : bottom.Sound points) (search : ChessSearchStack) (left : Nat)
    (hcheckpointed : search.checkpointed = true) (hstack : search.stack = bottom.below)
    (hbound : search.preempt_bound = bottom.cost + left) :
    ∃ search', search.push bottom.checkpoint = some search' ∧
      Above bottom search' { preempt_bound := left, addrlist := search.addrlist } := by
  have haligned : Aligned bottom
      { search with stack := search.stack ++ [bottom.checkpoint] }
      { preempt_bound := left, addrlist := search.addrlist } := by
    refine ⟨hcheckpointed, rfl, ?_, hbound, rfl, List.forall_mem_nil _⟩
    rw [hstack, List.append_nil, Bottom.elements]
  have hempty : ({ preempt_bound := left, addrlist := search.addrlist } :
      ChessSearchStack).calculatePreemptions =
        some { preempt_bound := left, addrlist := search.addrlist } := by
    simp [calculatePreemptions, calculatePreemptionsInRange, guard]
  obtain ⟨search', hcalc, habove⟩ := haligned.calculatePreemptions hsound hempty
  refine ⟨search', (push_eq_some _ _ _).mpr ⟨hcalc, ?_⟩, habove⟩
  rw [habove.current, habove.bound]
  exact Nat.add_le_add_left (Nat.zero_le left) bottom.cost

-- It fails where nothing is below the checkpoint, as the scan does not look at index 0, and where
-- the checkpoint costs too much by itself.
theorem push_checkpoint_none (below : List SearchStackElement) (checkpoint : SearchStackElement)
    (hmarked : checkpoint.ischeckpoint = true) (search : ChessSearchStack)
    (hcheckpointed : search.checkpointed = true) (hstack : search.stack = below)
    (hfails : below = [] ∨ search.preempt_bound < Bottom.cost ⟨below, checkpoint⟩) :
    search.push checkpoint = none := by
  have hcalc : { search with stack := search.stack ++ [checkpoint] }.calculatePreemptions =
      none := by
    rw [calculatePreemptions, if_pos hcheckpointed, calculatePreemptionsFromDeepestCheckpoint,
      hstack]
    by_cases hnil : below = []
    · have hcomplete : ¬ isSearchComplete
          { search with stack := [checkpoint] } = true := by
        simp [isSearchComplete, hcheckpointed, hmarked]
      simp only [hnil, List.nil_append, List.length_singleton, Nat.sub_self, deepestCheckpoint,
        if_true, guard, if_neg hcomplete]
      rfl
    · have hcost := hfails.resolve_left hnil
      have hpos := List.length_pos_of_ne_nil hnil
      have hdeepest := deepestCheckpoint_append below [] checkpoint hnil hmarked
        (List.forall_mem_nil _) below.length (Nat.le_refl _)
      have hcount : ({ search with stack := below ++ [checkpoint] } :
          ChessSearchStack).calculatePreemptionsInRange below.length =
            Bottom.cost ⟨below, checkpoint⟩ := by
        rw [calculatePreemptionsInRange, List.drop_left, List.countP_singleton, Bottom.cost]
      simp only [List.length_append, List.length_singleton, Nat.add_sub_cancel, hdeepest, hcount,
        Nat.ne_of_gt hpos, if_false, guard, Nat.not_le_of_lt hcost]
      rfl
  rw [push, hcalc]
  rfl

-- The turn of the loop that pops the checkpoint, and keeps the count that was made with it.
theorem nextSchedule_checkpoint (hsound : bottom.Sound points) (h : Above bottom search inner)
    (hempty : inner.stack = []) (k : Nat) :
    search.nextSchedule (k + 1) = do
      let work ← { search with stack := bottom.below }.isWorkToDo bottom.checkpoint
      if work then
        let element ← bottom.checkpoint.doWork
        let pushed ← { search with stack := bottom.below }.push element
        let sched ← pushed.buildSchedule
        return (some sched, pushed)
      else return (none, { search with stack := bottom.below }) := by
  have hstack : search.stack = bottom.below ++ [bottom.checkpoint] := by
    rw [h.stack, hempty, List.append_nil, Bottom.elements]
  have hcalc : { search with stack := bottom.below }.calculatePreemptions =
      some { search with stack := bottom.below } :=
    calculatePreemptions_unmarked { search with stack := bottom.below } h.checkpointed
      hsound.unmarked
  have hpop : search.pop = some (bottom.checkpoint, { search with stack := bottom.below }) := by
    rw [pop, hstack, List.getLast?_concat, List.dropLast_concat]
    simp [hcalc]
  have hcomplete : { search with stack := bottom.below }.isSearchComplete = true := by
    rw [isSearchComplete, if_pos h.checkpointed, List.all_eq_true]
    intro e he
    rw [hsound.unmarked e he]
    rfl
  have hnone : { search with stack := bottom.below }.nextSchedule k =
      some (none, { search with stack := bottom.below }) := by
    cases k with
    | zero => rfl
    | succ k => simp [nextSchedule, hcomplete]
  rw [nextSchedule, h.isSearchComplete hsound, hpop]
  simp only [Bool.false_eq_true, if_false, Option.bind_eq_bind, Option.bind_some, hnone]
  rfl

-- The count that the pop kept decides whether another thread is affordable there.
theorem isWorkToDo_checkpoint {decision : SchedDecision} {chosen : Name} {todo : List Name}
    {checkpoint : SearchStackElement} (search : ChessSearchStack)
    (h : DecisionTree.Decides decision none chosen todo checkpoint)
    (hcurrent : search.current_preempts = decision.charge chosen)
    (hcharge : decision.charge chosen ≤ search.preempt_bound) :
    search.isWorkToDo checkpoint =
      some (!todo.isEmpty && decide (decision.price ≤ search.preempt_bound)) := by
  rw [isWorkToDo, SearchStackElement.hasToDo, h.todo, hcurrent]
  cases todo.isEmpty with
  | true => rfl
  | false =>
      have hprice := decision.charge_le_price chosen
      by_cases hlt : decision.charge chosen < search.preempt_bound
      · have hafford : decision.price ≤ search.preempt_bound := by omega
        simp [hlt, hafford]
      · have hfull : decision.charge chosen = search.preempt_bound := by omega
        have hneeds : checkpoint.needPreemptsToExplore =
            !decide (decision.price ≤ search.preempt_bound) := by
          rw [Bool.eq_iff_iff, h.needPreemptsToExplore, ← hfull]
          unfold SchedDecision.price SchedDecision.charge
          by_cases hcaller : decision.caller ∈ decision.enabled
          · by_cases hchosen : chosen = decision.caller
            · simp [hcaller, hchosen]
            · simp [hcaller, hchosen]
          · simp [hcaller]
        simp [hfull, hneeds]

-- The first schedule with a new thread at the checkpoint has nothing above it on the stack yet.
theorem regenerate_checkpoint (hsound : bottom.Sound points) (h : Above bottom search inner)
    (hempty : inner.stack = []) {left : Nat} {addrlist : List String}
    (hholds : DecisionTree.Holds inner left addrlist [])
    (hdone : Bottom.Sound ⟨bottom.below, bottom.checkpoint.chosenIsDone⟩ points)
    (hcost : Bottom.cost ⟨bottom.below, bottom.checkpoint.chosenIsDone⟩ = bottom.cost)
    (sub : DecisionTree.SearchTree) (hsignalled : DecisionTree.Signalled sub none)
    (result : Schedule) (hresult : result.schedule = (DecisionTree.follow sub []).1)
    (haddr : result.addrlist = addrlist) (hunmarked : ∀ x ∈ result.schedule, x.isCheckpoint = false) :
    ∃ search' inner', search.regenerate { schedule := points, addrlist := addrlist }
        { result with schedule := points ++ result.schedule } = some search' ∧
      Above ⟨bottom.below, bottom.checkpoint.chosenIsDone⟩ search' inner' ∧
      DecisionTree.Holds inner' left addrlist (descend DecisionTree.rules [] sub) := by
  have hpostfix : result.getPostfixAfter { addrlist } = some result := by
    rw [← haddr]
    simp [Schedule.getPostfixAfter, Schedule.postfixAfter, guard]
  have hpostfix' := getPostfixAfter_append hsound.chosen _ result result hpostfix
  rw [List.append_nil] at hpostfix'
  have hstack : search.stack = bottom.below ++ [bottom.checkpoint] := by
    rw [h.stack, hempty, List.append_nil, Bottom.elements]
  have htop : search.stackTopIsDone = some
      { search with stack := bottom.below ++ [bottom.checkpoint.chosenIsDone] } := by
    rw [stackTopIsDone, hstack, List.getLast?_concat, List.dropLast_concat]
    rfl
  have habove : Above ⟨bottom.below, bottom.checkpoint.chosenIsDone⟩
      { search with stack := bottom.below ++ [bottom.checkpoint.chosenIsDone] } inner := by
    refine { h with stack := ?_, bound := ?_, current := ?_ }
    · rw [hempty, List.append_nil, Bottom.elements]
    · rw [hcost, h.bound]
    · rw [hcost, h.current]
  have hdecided : ∀ point ∈ result.schedule.head?, ∀ info ∈ point.signal,
      info.signalled ≠ none := by
    rw [hresult]
    exact DecisionTree.follow_head_decided sub hsignalled
  obtain ⟨tmp, inner', hgenerate, hmerge, hholds'⟩ := hholds.merge sub hsignalled
    (Nat.zero_le left) result hresult haddr
  obtain ⟨tmp', search', hgenerate', hmerge', habove'⟩ :=
    habove.merge hdone result hunmarked tmp hgenerate hmerge
  refine ⟨search', inner', ?_, habove', hholds'⟩
  rw [regenerate, hpostfix']
  simp only [Option.bind_eq_bind, Option.bind_some, htop,
    DecisionTree.checkForSplitSignal_decided _ result hdecided, hgenerate', hmerge']

end

end ChessSearchStack

namespace DecisionTree

section

variable {tree : DecisionTree}

-- The search stack of the checker at a state of the search.
structure Stage (arrival : Arrival tree) (bound : Nat) (addrlist : List String)
    (search : ChessSearchStack) (state : CheckpointState) : Prop where
  proper : Proper arrival.decision arrival.next bound state
  stack : ∃ checkpoint inner, Decides arrival.decision none state.chosen state.todo checkpoint ∧
    Above ⟨arrival.below, checkpoint⟩ search inner ∧
    Holds inner (budget arrival.decision bound state.chosen) addrlist state.frames

variable {arrival : Arrival tree} {bound : Nat} {addrlist : List String}
  {search : ChessSearchStack} {state : CheckpointState}

theorem Stage.isSearchComplete (h : Stage arrival bound addrlist search state) :
    search.isSearchComplete = false := by
  obtain ⟨checkpoint, inner, hdecides, habove, -⟩ := h.stack
  exact habove.isSearchComplete (Arrival.sound hdecides h.proper.chosen)

theorem Stage.getNumberOfCheckpoints (h : Stage arrival bound addrlist search state) :
    search.getNumberOfCheckpoints = 1 := by
  obtain ⟨checkpoint, inner, hdecides, habove, -⟩ := h.stack
  exact habove.getNumberOfCheckpoints (Arrival.sound hdecides h.proper.chosen)

-- All preemptions on the stack: the prefix has its own, and the bound is for the others.
theorem Stage.preemptions_le (h : Stage arrival bound addrlist search state) :
    search.calculatePreemptionsInRange 0 ≤ arrival.preemptions + bound := by
  obtain ⟨checkpoint, inner, hdecides, habove, hholds⟩ := h.stack
  have hinner : inner.stack.countP (·.isPreempt) = spent rules state.frames := by
    rw [← countP_isPreempt hholds.elements, List.countP_reverse]
  have hcost : (if checkpoint.isPreempt then 1 else 0) = arrival.decision.charge state.chosen :=
    hdecides.isPreempt
  have hspent := h.proper.spent
  have hcharge := h.proper.charge
  rw [budget] at hspent
  rw [calculatePreemptionsInRange, List.drop_zero, habove.stack, Bottom.elements,
    List.countP_append, List.countP_append, arrival.elements.preemptions, List.countP_singleton,
    hcost, hinner, ← Reached.preemptions]
  omega

-- What the loop takes from the stack at a state: the schedule that it tests, the run of it, and
-- the stack that is made of the run.
structure Turn (arrival : Arrival tree) (bound : Nat) (addrlist : List String)
    (search : ChessSearchStack) (state following : CheckpointState) (target : Schedule)
    (search' search'' : ChessSearchStack) : Prop where
  generate : search.generateNextSchedule = some (some target, search')
  shown : ∀ slack, target._getPreemptions ≤ arrival.preemptions + (bound + slack) ↔
    Good arrival.decision bound slack state
  within : (tree.program target)._getPreemptions ≤ arrival.preemptions + bound
  choices : Schedule.choices (tree.program target).schedule =
    Schedule.choices arrival.front ++ pathFrom following
  regenerate : search'.regenerate target (tree.program target) = some search''
  stage : Stage arrival bound addrlist search'' following

-- The run that ends in a state shows the state's path, within the bound.
theorem Proper.run_spec (h : Proper arrival.decision arrival.next bound state)
    (error : Option String)
    (hleaf : treeAt (root arrival.next state.chosen) state.frames = .leaf error)
    (result : Schedule)
    (hresult : result.schedule = arrival.through state.chosen ++ points state.frames) :
    result._getPreemptions ≤ arrival.preemptions + bound ∧
      Schedule.choices result.schedule = Schedule.choices arrival.front ++ pathFrom state := by
  constructor
  · have hthrough := arrival.preemptions_through state.chosen (points state.frames)
    have hpoints := getPreemptions_points state.frames { schedule := points state.frames } rfl
    have hspent := h.spent
    have hcharge := h.charge
    rw [Schedule._getPreemptions] at hthrough ⊢
    rw [budget] at hspent
    rw [hresult, hthrough, hpoints]
    omega
  · rw [hresult, choices_append, Reached.choices_through h.chosen,
      choices_complete h.linked error hleaf, List.append_assoc]
    rfl

theorem Proper.unmarked (h : Proper arrival.decision arrival.next bound state) :
    ∀ x ∈ points state.frames, x.isCheckpoint = false :=
  (arrival.later state.chosen h.chosen).toSearch.isCheckpoint h.linked

theorem Stage.length (h : Stage arrival bound addrlist search state) :
    search.stack.length = state.frames.length + (arrival.below.length + 1) := by
  obtain ⟨checkpoint, inner, -, habove, hholds⟩ := h.stack
  rw [habove.stack, List.length_append, hholds.length, Bottom.elements, List.length_append,
    List.length_singleton, Nat.add_comm]

-- A turn that goes on above the checkpoint is a turn of the plain search.
theorem Stage.turn_above (h : Stage arrival bound addrlist search state) (mid : List SearchFrame)
    (hback : back rules (budget arrival.decision bound state.chosen) state.frames = some mid) :
    ∃ target search' search'', Turn arrival bound addrlist search state
      { state with frames := descend rules mid (treeAt (root arrival.next state.chosen) mid) }
      target search' search'' := by
  have hproper : Proper arrival.decision arrival.next bound
      { state with frames := descend rules mid (treeAt (root arrival.next state.chosen) mid) } := by
    apply h.proper.step
    rw [stateStep, hback]
  obtain ⟨-, error, hleaf⟩ := (Linked.back h.proper.linked hback).descend _ rfl
  obtain ⟨checkpoint, inner, hdecides, habove, hholds⟩ := h.stack
  have hsound := Arrival.sound hdecides h.proper.chosen
  obtain ⟨target, inner', inner'', hnext, haddr, hpreempts, -, hpoints, hregenerate, hholds'⟩ :=
    turn_parts inner mid h.proper.linked hholds h.proper.spent hback
  obtain ⟨search', habove', -, hfound⟩ := habove.nextSchedule hsound (arrival.below.length + 1)
    state.frames.length (some target) hholds.length hnext
  have hunmarked : ∀ x ∈ ((arrival.next state.chosen).program target).schedule,
      x.isCheckpoint = false := by
    rw [hpoints]
    exact hproper.unmarked
  obtain ⟨search'', hregenerate', habove''⟩ :=
    habove'.regenerate hsound target _ hunmarked hregenerate
  have hprogram := (Reached.leads_through h.proper.chosen).program target
  obtain ⟨hwithin, hchoices⟩ := hproper.run_spec error hleaf
    (tree.program { target with schedule := arrival.through state.chosen ++ target.schedule })
    (by rw [hprogram, hpoints]; rfl)
  refine ⟨_, search', search'', ?_, ?_, hwithin, hchoices, ?_, hproper, checkpoint, inner'',
    hdecides, habove'', hholds'⟩
  · rw [generateNextSchedule, h.length]
    exact hfound target rfl
  · intro slack
    have hthrough := arrival.preemptions_through state.chosen target.schedule
    unfold Schedule._getPreemptions at hpreempts hthrough ⊢
    rw [hthrough, hpreempts, Good, hback]
    constructor
    · rintro hle mid' ⟨⟩
      omega
    · intro hgood
      have hle := hgood mid rfl
      omega
  · rw [hprogram]
    exact hregenerate'

-- The subtree is searched: the loop comes down to the checkpoint.
theorem Stage.exhausted (h : Stage arrival bound addrlist search state)
    (hback : back rules (budget arrival.decision bound state.chosen) state.frames = none) :
    ∃ checkpoint search' inner',
      Decides arrival.decision none state.chosen state.todo checkpoint ∧
      Above ⟨arrival.below, checkpoint⟩ search' inner' ∧
      Holds inner' (budget arrival.decision bound state.chosen) addrlist [] ∧
      search.generateNextSchedule = search'.nextSchedule (arrival.below.length + 1) := by
  obtain ⟨checkpoint, inner, hdecides, habove, hholds⟩ := h.stack
  have hnext := hholds.nextSchedule (toSearch_signalled _) h.proper.linked h.proper.spent
  rw [hback] at hnext
  obtain ⟨inner', hnone, hholds'⟩ := hnext
  obtain ⟨search', habove', hfound, -⟩ := habove.nextSchedule
    (Arrival.sound hdecides h.proper.chosen) (arrival.below.length + 1) state.frames.length none
    hholds.length hnone
  refine ⟨checkpoint, search', inner', hdecides, habove', hholds', ?_⟩
  rw [generateNextSchedule, h.length]
  exact (hfound rfl).2

-- At the checkpoint the loop takes the next thread, or ends where none is left or affordable.
theorem Stage.atCheckpoint (h : Stage arrival bound addrlist search state)
    (hback : back rules (budget arrival.decision bound state.chosen) state.frames = none) :
    ∃ checkpoint lowered, Decides arrival.decision none state.chosen state.todo checkpoint ∧
      lowered.stack = arrival.below ∧ lowered.checkpointed = true ∧
      lowered.preempt_bound = bound ∧ lowered.addrlist = addrlist ∧
      search.generateNextSchedule =
        if !state.todo.isEmpty && decide (arrival.decision.price ≤ bound) then do
          let element ← checkpoint.doWork
          let pushed ← lowered.push element
          let sched ← pushed.buildSchedule
          return (some sched, pushed)
        else some (none, lowered) := by
  obtain ⟨checkpoint, search', inner', hdecides, habove, hholds, hgenerate⟩ := h.exhausted hback
  have hempty : inner'.stack = [] := List.length_eq_zero_iff.mp hholds.length
  have hcost := Arrival.cost hdecides
  have hcharge := h.proper.charge
  have hbound : search'.preempt_bound = bound := by
    rw [habove.bound, hholds.bound, hcost, budget]
    omega
  have hcurrent : search'.current_preempts = arrival.decision.charge state.chosen := by
    rw [habove.current, hholds.current, hcost]
    rfl
  refine ⟨checkpoint, { search' with stack := arrival.below }, hdecides, rfl, habove.checkpointed,
    hbound, habove.addrlist.trans hholds.addrlist, ?_⟩
  have hwork := isWorkToDo_checkpoint { search' with stack := arrival.below } hdecides hcurrent
    (Nat.le_trans hcharge (Nat.le_of_eq hbound.symm))
  rw [hgenerate, nextSchedule_checkpoint (Arrival.sound hdecides h.proper.chosen) habove hempty]
  simp only [hbound] at hwork ⊢
  rw [hwork]
  rfl

theorem Stage.finish (h : Stage arrival bound addrlist search state)
    (hstop : stateStep arrival.decision arrival.next bound state = none) :
    ∃ search', search.generateNextSchedule = some (none, search') := by
  rw [stateStep] at hstop
  split at hstop
  · cases hstop
  · rename_i hback
    obtain ⟨checkpoint, lowered, -, -, -, -, -, hgenerate⟩ := h.atCheckpoint hback
    refine ⟨lowered, hgenerate.trans (if_neg ?_)⟩
    split at hstop
    · rename_i hlast
      rw [List.getLast?_eq_none_iff.mp hlast]
      exact Bool.false_ne_true
    · split at hstop
      · cases hstop
      · rename_i hprice
        simp [hprice]

-- The next thread at the checkpoint starts with the run that goes on by the picks.
theorem Stage.turn_checkpoint (h : Stage arrival bound addrlist search state) (choice : Name)
    (hback : back rules (budget arrival.decision bound state.chosen) state.frames = none)
    (hlast : state.todo.getLast? = some choice) (hprice : arrival.decision.price ≤ bound) :
    ∃ target search' search'', Turn arrival bound addrlist search state
      (enter arrival.next choice state.todo.dropLast) target search' search'' := by
  have hstep : stateStep arrival.decision arrival.next bound state =
      some (enter arrival.next choice state.todo.dropLast) := by
    rw [stateStep, hback]
    simp only [hlast, hprice, if_true]
  have hproper := h.proper.step hstep
  have hmem : choice ∈ arrival.decision.enabled := hproper.chosen
  have hcharge : arrival.decision.charge choice ≤ bound := hproper.charge
  obtain ⟨checkpoint, lowered, hdecides, hstack, hcheckpointed, hbound, haddr, hgenerate⟩ :=
    h.atCheckpoint hback
  obtain ⟨element, hdo, helement⟩ := hdecides.doWork choice hlast hmem
  have hsound := Arrival.sound helement hmem
  have hcost := Arrival.cost helement
  obtain ⟨search', hpush, habove⟩ := push_checkpoint hsound lowered
    (budget arrival.decision bound choice) hcheckpointed hstack (by
      rw [hbound, hcost, budget]
      omega)
  rw [haddr] at habove
  have hbuild := habove.buildSchedule hsound { addrlist } rfl
  rw [List.append_nil] at hbuild
  have hholds : Holds { preempt_bound := budget arrival.decision bound choice, addrlist }
      (budget arrival.decision bound choice) addrlist [] := ⟨rfl, rfl, rfl, rfl, List.Forall₂.nil⟩
  have hsub : ((arrival.next choice).program { addrlist }).schedule =
      points (descend rules [] (root arrival.next choice)) := by
    rw [points_descend, root, follow_toSearch]
    rfl
  have hfollow : ((arrival.next choice).program { addrlist }).schedule =
      (follow (root arrival.next choice) []).1 := by
    rw [root, follow_toSearch]
    rfl
  have hdone := Arrival.sound helement.chosenIsDone hmem
  obtain ⟨search'', inner, hregenerate, habove', hholds'⟩ := regenerate_checkpoint hsound habove rfl
    hholds hdone ((Arrival.cost helement.chosenIsDone).trans hcost.symm) (root arrival.next choice)
    (toSearch_signalled _) ((arrival.next choice).program { addrlist }) hfollow rfl (by
      rw [hsub]
      exact hproper.unmarked)
  have hprogram := (Reached.leads_through hmem).program { addrlist }
  rw [List.append_nil] at hprogram
  obtain ⟨error, hleaf⟩ :=
    (@Linked.descend _ _ _ rules (root arrival.next choice) [] trivial _ rfl).2
  obtain ⟨hwithin, hchoices⟩ := hproper.run_spec error hleaf
    (tree.program { schedule := arrival.through choice, addrlist }) (by rw [hprogram, hsub]; rfl)
  refine ⟨_, search', search'', ?_, ?_, hwithin, hchoices, ?_, hproper, _, inner,
    helement.chosenIsDone, habove', hholds'⟩
  · have hne : state.todo ≠ [] := by
      intro hnil
      rw [hnil] at hlast
      cases hlast
    have hwork : (!state.todo.isEmpty && decide (arrival.decision.price ≤ bound)) = true := by
      simp [hne, hprice]
    rw [hgenerate, if_pos hwork, hdo]
    simp [hpush, hbuild]
  · intro slack
    have hthrough := arrival.preemptions_through choice []
    rw [List.append_nil] at hthrough
    unfold Schedule._getPreemptions at hthrough ⊢
    rw [hthrough, Good, hback]
    simp only [List.countP_nil]
    exact iff_of_true (by omega) (by simp)
  · rw [hprogram]
    exact hregenerate

theorem Stage.turn (h : Stage arrival bound addrlist search state) (following : CheckpointState)
    (hstep : stateStep arrival.decision arrival.next bound state = some following) :
    ∃ target search' search'',
      Turn arrival bound addrlist search state following target search' search'' := by
  rw [stateStep] at hstep
  split at hstep
  · rename_i mid hback
    cases hstep
    exact h.turn_above mid hback
  · rename_i hback
    split at hstep
    · cases hstep
    · rename_i choice hlast
      split at hstep
      · rename_i hprice
        cases hstep
        exact h.turn_checkpoint choice hback hlast hprice
      · cases hstep

end

end DecisionTree

end Thrille
