import Thrille.Chess.CheckpointTurn
import Mathlib.Data.List.Perm.Subperm

namespace Thrille

open BoundedSearch DecisionTree

open ChessSearchStack (Above Bottom push_checkpoint push_checkpoint_none foldlM_pushPoint_alike)

namespace ChristosChessChecker

section

variable {tree : DecisionTree} {arrival : Arrival tree} {bound slack : Nat}
  {addrlist : List String} {state following last : CheckpointState}
  {visited : List CheckpointState}

-- The checker between two turns of its loop. The prefix that it started with has `slack` more
-- preemptions than the points before the checkpoint.
structure Ready (arrival : Arrival tree) (bound slack : Nat) (addrlist : List String)
    (checker : ChristosChessChecker) (state : CheckpointState) : Prop where
  stage : Stage arrival bound addrlist checker.search_stack state
  preemption_bound : checker.preemption_bound = bound
  preemptions_in_prefix : checker.preemptions_in_prefix = arrival.preemptions + slack
  exit_on_error : checker.exit_on_error = false

theorem Ready.isSearchComplete {self : ChristosChessChecker}
    (h : Ready arrival bound slack addrlist self state) : self.isSearchComplete = some false := by
  rw [ChristosChessChecker.isSearchComplete, h.stage.isSearchComplete,
    h.stage.getNumberOfCheckpoints]
  rfl

theorem Ready.maxPreemptions {self : ChristosChessChecker}
    (h : Ready arrival bound slack addrlist self state) :
    self.maxPreemptions = arrival.preemptions + (bound + slack) := by
  rw [ChristosChessChecker.maxPreemptions, h.preemption_bound, h.preemptions_in_prefix]
  omega

theorem generateNextSchedule_some (self : ChristosChessChecker) (target : Schedule)
    (search : ChessSearchStack)
    (hgenerate : self.search_stack.generateNextSchedule = some (some target, search)) :
    self.generateNextSchedule =
      if target._getPreemptions ≤ self.maxPreemptions then
        some (some target, { self with search_stack := search })
      else none := by
  rw [generateNextSchedule, hgenerate, Option.bind_eq_bind, Option.bind_some]
  simp only [Schedule.getPreemptions_eq, Option.bind_eq_bind, Option.bind_some, maxPreemptions]
  by_cases hle : target._getPreemptions ≤ self.preemption_bound + self.preemptions_in_prefix
  · simp [guard, hle]
  · simp [guard, hle]

theorem recordAnyErrors_spec (self : ChristosChessChecker) (sched : Schedule)
    (hexit : self.exit_on_error = false) :
    ∃ errors, self.recordAnyErrors sched = some { self with errors_found := errors } := by
  obtain ⟨errors, herrors⟩ := ChessChecker.recordAnyErrors_spec self.toChessChecker sched hexit
  refine ⟨errors, ?_⟩
  rw [recordAnyErrors, herrors]
  rfl

-- One turn of the loop is one step of the search, unless the schedule that it is to test shows too
-- many preemptions.
theorem checkLoop_turn (self : ChristosChessChecker)
    (h : Ready arrival bound slack addrlist self state)
    (hstep : stateStep arrival.decision arrival.next bound state = some following)
    (execution_bound turns : Nat) (hwithin : ¬ execution_bound < self.executions) :
    (Good arrival.decision bound slack state → ∃ self' result,
      self.checkLoop tree.program execution_bound (turns + 1) =
        self'.checkLoop tree.program execution_bound turns ∧
      Ready arrival bound slack addrlist self' following ∧
      self'.executions = self.executions + 1 ∧ self'.tested = self.tested ++ [result] ∧
      Schedule.choices result.schedule = Schedule.choices arrival.front ++ pathFrom following) ∧
    (¬ Good arrival.decision bound slack state →
      self.checkLoop tree.program execution_bound (turns + 1) = none) := by
  obtain ⟨target, search', search'', hturn⟩ := h.stage.turn following hstep
  have hmax := h.maxPreemptions
  have hshown := hturn.shown slack
  rw [← hmax] at hshown
  constructor
  · intro hgood
    have hwithin' : (tree.program target)._getPreemptions ≤ self.maxPreemptions := by
      have hle := hturn.within
      omega
    have hstack : search''.calculatePreemptionsInRange 0 ≤ self.maxPreemptions := by
      have hle := hturn.stage.preemptions_le
      omega
    obtain ⟨errors, herrors⟩ := recordAnyErrors_spec { self with
      search_stack := search'
      executions := self.executions + 1
      tested := self.tested ++ [tree.program target] } (tree.program target) h.exit_on_error
    have hready : Ready arrival bound slack addrlist { self with
        search_stack := search''
        executions := self.executions + 1
        tested := self.tested ++ [tree.program target]
        errors_found := errors } following :=
      ⟨hturn.stage, h.preemption_bound, h.preemptions_in_prefix, h.exit_on_error⟩
    have hregenerate : regenerateSearchStack { self with
        search_stack := search'
        executions := self.executions + 1
        tested := self.tested ++ [tree.program target]
        errors_found := errors } target (tree.program target) = some { self with
          search_stack := search''
          executions := self.executions + 1
          tested := self.tested ++ [tree.program target]
          errors_found := errors } := by
      simp only [maxPreemptions] at hstack
      simp [regenerateSearchStack, ChessChecker.regenerateSearchStack, hturn.regenerate,
        maxPreemptions, guard, hstack]
    refine ⟨_, _, ?_, hready, rfl, rfl, hturn.choices⟩
    rw [checkLoop, h.isSearchComplete, generateNextSchedule_some self target search' hturn.generate]
    simp only [maxPreemptions] at hwithin' hshown
    simp [hwithin, guard, hshown.mpr hgood, testSchedule, ChessChecker.testSchedule,
      Schedule.getPreemptions_eq, maxPreemptions, hwithin', herrors, hregenerate]
  · intro hbad
    have hover : ¬ target._getPreemptions ≤ self.maxPreemptions := fun hle => hbad (hshown.mp hle)
    rw [checkLoop, h.isSearchComplete, generateNextSchedule_some self target search' hturn.generate]
    simp [hwithin, guard, hover]

-- The loop passes the states of the search one after the other, where all of them are good.
theorem checkLoop_runs
    (hruns : StateRuns arrival.decision arrival.next bound state visited last)
    (hstop : stateStep arrival.decision arrival.next bound last = none)
    (execution_bound turns : Nat) (self : ChristosChessChecker)
    (h : Ready arrival bound slack addrlist self state)
    (hgood : ∀ s ∈ state :: visited, Good arrival.decision bound slack s)
    (hexecutions : self.executions + visited.length ≤ execution_bound + 1)
    (hturns : visited.length < turns) :
    ∃ self', self.checkLoop tree.program execution_bound turns = some self' ∧
      ∃ later, self'.tested = self.tested ++ later ∧
        later.map (fun sched => Schedule.choices sched.schedule) =
          visited.map fun s => Schedule.choices arrival.front ++ pathFrom s := by
  induction hruns generalizing self turns with
  | stop state =>
      obtain ⟨turns, rfl⟩ : ∃ n, turns = n + 1 := ⟨turns - 1, by simp at hturns; omega⟩
      obtain ⟨search', hnone⟩ := h.stage.finish hstop
      rw [checkLoop, h.isSearchComplete]
      by_cases hover : execution_bound < self.executions
      · exact ⟨{ self with completed_search := false }, by simp [hover], [], by simp, rfl⟩
      · refine ⟨{ self with search_stack := search', completed_search := true }, ?_, [], by simp,
          rfl⟩
        simp [hover, generateNextSchedule, hnone]
  | go state following visited last hstep _ ih =>
      obtain ⟨turns, rfl⟩ : ∃ n, turns = n + 1 := ⟨turns - 1, by simp at hturns; omega⟩
      simp only [List.length_cons] at hexecutions hturns
      rw [List.forall_mem_cons] at hgood
      obtain ⟨hturn, -⟩ := checkLoop_turn self h hstep execution_bound turns (by omega)
      obtain ⟨self', result, hloop, hready, hcount, htested, hchoices⟩ := hturn hgood.1
      obtain ⟨checker, hrest, later, hlater, hpaths⟩ :=
        ih hstop turns self' hready hgood.2 (by omega) (by omega)
      refine ⟨checker, hloop.trans hrest, result :: later, ?_, ?_⟩
      · rw [hlater, htested, List.append_assoc, List.singleton_append]
      · rw [List.map_cons, List.map_cons, hchoices, hpaths]

-- A loop that ends with all of these runs had only good states, and enough executions.
theorem good_of_checkLoop
    (hruns : StateRuns arrival.decision arrival.next bound state visited last)
    (hstop : stateStep arrival.decision arrival.next bound last = none)
    (execution_bound turns : Nat) (self self' : ChristosChessChecker)
    (h : Ready arrival bound slack addrlist self state)
    (hloop : self.checkLoop tree.program execution_bound turns = some self')
    (hexecutions : self.executions ≤ execution_bound + 1)
    (hall : self.tested.length + visited.length ≤ self'.tested.length) :
    (∀ s ∈ state :: visited, Good arrival.decision bound slack s) ∧
      self.executions + visited.length ≤ execution_bound + 1 := by
  induction hruns generalizing self turns with
  | stop state =>
      refine ⟨?_, hexecutions⟩
      rw [List.forall_mem_singleton]
      intro mid hback
      rw [stateStep, hback] at hstop
      cases hstop
  | go state following visited last hstep _ ih =>
      rw [List.length_cons] at hall
      cases turns with
      | zero =>
          cases hloop
          omega
      | succ turns =>
          by_cases hover : execution_bound < self.executions
          · rw [checkLoop, h.isSearchComplete] at hloop
            simp only [Option.bind_eq_bind, Option.bind_some, hover, if_true, Option.pure_def,
              Bool.false_eq_true, if_false, Option.some.injEq] at hloop
            have hsame : self'.tested = self.tested := by rw [← hloop]
            rw [hsame] at hall
            omega
          · obtain ⟨hturn, hbad⟩ := checkLoop_turn self h hstep execution_bound turns hover
            have hgood : Good arrival.decision bound slack state := by
              by_contra hnot
              rw [hbad hnot] at hloop
              cases hloop
            obtain ⟨checker, result, hnext, hready, hcount, htested, -⟩ := hturn hgood
            rw [hnext] at hloop
            have hlength : checker.tested.length = self.tested.length + 1 := by
              rw [htested, List.length_append, List.length_singleton]
            obtain ⟨hlater, hwithin⟩ := ih hstop turns checker hready hloop (by omega) (by omega)
            rw [List.length_cons]
            exact ⟨List.forall_mem_cons.mpr ⟨hgood, hlater⟩, by omega⟩

end

section

variable {tree : DecisionTree} {slack : Nat} {last : CheckpointState}
  {visited : List CheckpointState}

theorem throughCheckpoint_append (points rest : List SchedulePoint) (point : SchedulePoint)
    (hunmarked : ∀ x ∈ points, x.isCheckpoint = false) (hmarked : point.isCheckpoint = true) :
    Schedule.throughCheckpoint (points ++ point :: rest) = points ++ [point] := by
  induction points with
  | nil => rw [List.nil_append, Schedule.throughCheckpoint, if_pos hmarked, List.nil_append]
  | cons x points ih =>
      obtain ⟨hx, hpoints⟩ := List.forall_mem_cons.mp hunmarked
      rw [List.cons_append, Schedule.throughCheckpoint, hx, if_neg Bool.false_ne_true, ih hpoints,
        List.cons_append]

theorem getNumberOfCheckpoints_append (sched : Schedule) (points rest : List SchedulePoint)
    (point : SchedulePoint) (hsched : sched.schedule = points ++ point :: rest)
    (hunmarked : ∀ x ∈ points, x.isCheckpoint = false) (hmarked : point.isCheckpoint = true)
    (hrest : ∀ x ∈ rest, x.isCheckpoint = false) : sched.getNumberOfCheckpoints = 1 := by
  have hnone (l : List SchedulePoint) (h : ∀ x ∈ l, x.isCheckpoint = false) :
      l.countP (·.isCheckpoint) = 0 := by
    rw [List.countP_eq_zero]
    intro x hx
    rw [h x hx]
    exact Bool.false_ne_true
  rw [Schedule.getNumberOfCheckpoints, hsched, List.countP_append, List.countP_cons, hnone _ hunmarked,
    hnone _ hrest, if_pos hmarked]

-- The prefix of the initial schedule that the search starts from.
def prefixSchedule (reached : Reached tree) (chosen : Name) (addrlist : List String) : Schedule where
  schedule := reached.through chosen
  addrlist := addrlist

-- The checker after the two runs that set it up.
def started (reached : Reached tree) (chosen : Name) (bound : Nat) (addrlist : List String)
    (initial : Schedule) : ChristosChessChecker :=
  { ChristosChessChecker.new bound addrlist initial with
    executions := 2
    tested := [tree.program initial,
      tree.program (prefixSchedule reached chosen initial.addrlist)]
    preemptions_in_prefix := reached.preemptions + reached.decision.charge chosen }

theorem getInitialSchedule_spec (reached : Reached tree) (chosen : Name) (rest : List Name)
    (bound : Nat) (addrlist : List String) (initial : Schedule)
    (hpath : tree.IsPath (Schedule.choices initial.schedule))
    (hchoices : Schedule.choices initial.schedule =
      Schedule.choices reached.front ++ chosen :: rest) :
    (ChristosChessChecker.new bound addrlist initial).getInitialSchedule tree.program =
      some (tree.program (prefixSchedule reached chosen initial.addrlist),
        started reached chosen bound addrlist initial) := by
  rw [hchoices, reached.leads.isPath] at hpath
  obtain ⟨hmem, hrest⟩ := hpath
  have hfirst : (tree.program initial).schedule = reached.front ++
      reached.decision.point none chosen :: ((reached.next chosen).run rest).1 := by
    rw [DecisionTree.program, hchoices, reached.leads.run, DecisionTree.run]
    simp only [List.head?_cons, Option.getD_some, List.tail_cons]
  have hmarked : (reached.decision.point none chosen).isCheckpoint = true := reached.marked
  have hone : (tree.program initial).getNumberOfCheckpoints = 1 :=
    getNumberOfCheckpoints_append _ _ _ _ hfirst reached.unmarked hmarked
      ((reached.later chosen hmem).run rest hrest)
  have hprefix : (tree.program initial).getPrefixBeforeCheckpoint =
      some (prefixSchedule reached chosen initial.addrlist) := by
    rw [Schedule.getPrefixBeforeCheckpoint, hone, hfirst,
      throughCheckpoint_append _ _ _ reached.unmarked hmarked]
    rfl
  have hone' : (prefixSchedule reached chosen initial.addrlist).getNumberOfCheckpoints = 1 :=
    getNumberOfCheckpoints_append _ _ [] _ rfl reached.unmarked hmarked (List.forall_mem_nil _)
  have hpreemptions : (prefixSchedule reached chosen initial.addrlist)._getPreemptions =
      reached.preemptions + reached.decision.charge chosen := by
    have hthrough := reached.preemptions_through chosen []
    rw [List.append_nil] at hthrough
    exact hthrough
  rw [getInitialSchedule]
  simp only [ChristosChessChecker.new, List.isEmpty_nil, guard, if_true, Option.pure_def,
    Option.bind_eq_bind, Option.bind_some, testSchedule, ChessChecker.testSchedule, hone, hprefix,
    hone', Schedule.getPreemptions_eq, hpreemptions]
  rfl

-- The stack takes the points up to the checkpoint, and then the checkpoint.
theorem push_through (reached : Reached tree) (chosen : Name)
    (hmem : chosen ∈ reached.decision.enabled) (search : ChessSearchStack)
    (hcheckpointed : search.checkpointed = true) (hempty : search.stack = [])
    (hcurrent : search.current_preempts = 0) :
    ∃ below checkpoint, Elements reached.front below ∧
      Decides reached.decision none chosen (reached.decision.enabled.erase chosen) checkpoint ∧
      ∀ rest, (reached.through chosen ++ rest).foldlM ChessSearchStack.pushPoint search =
        ({ search with stack := below }.push checkpoint).bind
          (rest.foldlM ChessSearchStack.pushPoint) := by
  obtain ⟨below, hfold, helements⟩ := reached.leads.push reached.unmarked search hcheckpointed
    (by rw [hcurrent]; exact Nat.zero_le _) (by rw [hempty]; exact List.forall_mem_nil _)
  obtain ⟨checkpoint, hnew, hdecides⟩ := Decides.new reached.decision none chosen hmem
  refine ⟨below, checkpoint, helements, hdecides, fun rest => ?_⟩
  have hplain : ¬ (reached.decision.point none chosen).isSignal = true := Bool.false_ne_true
  rw [Reached.through, List.append_assoc, List.foldlM_append, hfold, List.singleton_append,
    Option.bind_eq_bind, Option.bind_some, List.foldlM_cons, ChessSearchStack.pushPoint,
    ChessSearchStack.pushSignal, if_neg hplain]
  simp only [Option.bind_eq_bind, Option.bind_some, hnew, hempty, List.nil_append]

theorem program_prefixSchedule (reached : Reached tree) (chosen : Name)
    (hmem : chosen ∈ reached.decision.enabled) (addrlist : List String) :
    (tree.program (prefixSchedule reached chosen addrlist)).schedule =
        reached.through chosen ++ (follow (root reached.next chosen) []).1 ∧
      (tree.program (prefixSchedule reached chosen addrlist)).addrlist = addrlist := by
  have hprogram := (Reached.leads_through hmem).program { addrlist }
  rw [List.append_nil] at hprogram
  refine ⟨?_, rfl⟩
  rw [prefixSchedule, hprogram, root, follow_toSearch]
  rfl

theorem generateSearchStack_none (reached : Reached tree) (chosen : Name)
    (hmem : chosen ∈ reached.decision.enabled) (bound : Nat) (addrlist : List String)
    (initial : Schedule)
    (hfails : ¬ (initial.addrlist = addrlist ∧ Schedule.choices reached.front ≠ [] ∧
      reached.decision.charge chosen ≤ bound)) :
    (started reached chosen bound addrlist initial).generateSearchStack
      (tree.program (prefixSchedule reached chosen initial.addrlist)) = none := by
  obtain ⟨hsecond, haddr⟩ := program_prefixSchedule reached chosen hmem initial.addrlist
  by_cases hsame : initial.addrlist = addrlist
  · subst hsame
    obtain ⟨below, checkpoint, helements, hdecides, hfold⟩ := push_through reached chosen hmem
      { preempt_bound := bound, addrlist := initial.addrlist, checkpointed := true } rfl rfl rfl
    have hcost : Bottom.cost ⟨below, checkpoint⟩ = reached.decision.charge chosen :=
      hdecides.isPreempt
    have hpush := push_checkpoint_none below checkpoint
      (hdecides.ischeckpoint.trans reached.marked)
      { preempt_bound := bound
        addrlist := initial.addrlist
        stack := below
        checkpointed := true } rfl rfl (by
        by_contra hnot
        rw [not_or, hcost, Nat.not_lt] at hnot
        refine hfails ⟨rfl, ?_, hnot.2⟩
        intro hnil
        have hlength := helements.length
        rw [hnil] at hlength
        exact hnot.1 (List.length_eq_zero_iff.mp hlength))
    have hstack : ChessSearchStack.generateSearchStack
        { preempt_bound := 0, addrlist := initial.addrlist, checkpointed := true } bound
        (tree.program (prefixSchedule reached chosen initial.addrlist)) = none := by
      simp only [ChessSearchStack.generateSearchStack, hsecond, haddr, guard, if_true,
        Option.pure_def, Option.bind_eq_bind, Option.bind_some, ChessSearchStack.getEmptySearchStack]
      rw [hfold, hpush]
      rfl
    simp only [generateSearchStack, ChessChecker.generateSearchStack, started,
      ChristosChessChecker.new, hstack]
    rfl
  · have hstack : ChessSearchStack.generateSearchStack
        { preempt_bound := 0, addrlist, checkpointed := true } bound
        (tree.program (prefixSchedule reached chosen initial.addrlist)) = none := by
      simp only [ChessSearchStack.generateSearchStack, haddr, guard, if_neg hsame]
      rfl
    simp only [generateSearchStack, ChessChecker.generateSearchStack, started,
      ChristosChessChecker.new, hstack]
    rfl

theorem generateSearchStack_some (reached : Reached tree) (chosen : Name)
    (hmem : chosen ∈ reached.decision.enabled) (bound : Nat) (initial : Schedule)
    (hne : Schedule.choices reached.front ≠ []) (hcharge : reached.decision.charge chosen ≤ bound) :
    ∃ arrival : Arrival tree, arrival.toReached = reached ∧ ∃ search,
      (started reached chosen bound initial.addrlist initial).generateSearchStack
        (tree.program (prefixSchedule reached chosen initial.addrlist)) =
          some { started reached chosen bound initial.addrlist initial with
            search_stack := search } ∧
      Ready arrival bound (reached.decision.charge chosen) initial.addrlist
        { started reached chosen bound initial.addrlist initial with search_stack := search }
        (enter reached.next chosen (reached.decision.enabled.erase chosen)) := by
  obtain ⟨hsecond, haddr⟩ := program_prefixSchedule reached chosen hmem initial.addrlist
  obtain ⟨below, checkpoint, helements, hdecides, hfold⟩ := push_through reached chosen hmem
    { preempt_bound := bound, addrlist := initial.addrlist, checkpointed := true } rfl rfl rfl
  have hbelow : below ≠ [] := by
    intro hnil
    have hlength := helements.length
    rw [hnil] at hlength
    exact hne (List.length_eq_zero_iff.mp hlength.symm)
  let arrival : Arrival tree := { reached with below, elements := helements, ne := hbelow }
  have hsound : Bottom.Sound ⟨below, checkpoint⟩ (reached.through chosen) :=
    @Arrival.sound tree arrival chosen _ _ hdecides hmem
  have hcost : Bottom.cost ⟨below, checkpoint⟩ = reached.decision.charge chosen :=
    hdecides.isPreempt
  have hproper : Proper arrival.decision arrival.next bound
      (enter reached.next chosen (reached.decision.enabled.erase chosen)) :=
    proper_enter chosen _ hcharge hmem fun c hc => List.mem_of_mem_erase hc
  have hunmarked : ∀ x ∈ (follow (root reached.next chosen) []).1, x.isCheckpoint = false := by
    have hpoints := points_descend [] (root reached.next chosen)
    rw [show points [] = [] from rfl, List.nil_append] at hpoints
    rw [← hpoints]
    exact hproper.unmarked
  obtain ⟨pushed, hpush, habove⟩ := push_checkpoint hsound
    { preempt_bound := bound
      addrlist := initial.addrlist
      stack := below
      checkpointed := true }
    (budget reached.decision bound chosen) rfl rfl (by
      rw [hcost, budget]
      exact (Nat.add_sub_of_le hcharge).symm)
  have hempty : Holds
      { preempt_bound := budget reached.decision bound chosen
        addrlist := initial.addrlist }
      (budget reached.decision bound chosen) initial.addrlist [] :=
    ⟨rfl, rfl, rfl, rfl, List.Forall₂.nil⟩
  obtain ⟨inner, hinner, hholds⟩ := foldlM_pushPoint (root reached.next chosen) none []
    (toSearch_signalled _) rfl hempty (Nat.zero_le _)
  obtain ⟨search, hsearch, habove'⟩ := foldlM_pushPoint_alike
    (fun _ _ _ element h => h.push hsound element) habove _ hunmarked hinner
  have hstage : Stage arrival bound initial.addrlist search
      (enter reached.next chosen (reached.decision.enabled.erase chosen)) :=
    ⟨hproper, checkpoint, inner, hdecides, habove', hholds⟩
  refine ⟨arrival, rfl, search, ?_, hstage, rfl, rfl, rfl⟩
  have hstack : ChessSearchStack.generateSearchStack
      { preempt_bound := 0, addrlist := initial.addrlist, checkpointed := true } bound
      (tree.program (prefixSchedule reached chosen initial.addrlist)) = some search := by
    simp only [ChessSearchStack.generateSearchStack, hsecond, haddr, guard, if_true,
      Option.pure_def, Option.bind_eq_bind, Option.bind_some, ChessSearchStack.getEmptySearchStack]
    rw [hfold, hpush, Option.bind_some, hsearch]
  simp only [generateSearchStack, ChessChecker.generateSearchStack, started,
    ChristosChessChecker.new, hstack, Option.bind_eq_bind, Option.bind_some, Option.pure_def,
    hstage.getNumberOfCheckpoints, guard, if_true]

-- The check ends without a failed assertion. Its first run is that of the initial schedule, and
-- the others are the paths that go like the initial one up to the checkpoint and that the bound
-- allows from there on, each of them once.
def Explores (tree : DecisionTree) (bound : Nat) (initial : Schedule)
    (checked : Option ChristosChessChecker) : Prop :=
  ∃ checker later, checked = some checker ∧ checker.tested = tree.program initial :: later ∧
    (later.map fun sched => Schedule.choices sched.schedule).Nodup ∧
    ∀ path, path ∈ (later.map fun sched => Schedule.choices sched.schedule) ↔
      tree.Allowed (Schedule.choices initial.schedule) bound path

-- Where it does: something is before the checkpoint, the checkpoint decision is within the bound,
-- either it is a preemption or no allowed path flips a signal where nothing is left of the bound,
-- and there are enough executions.
structure Explorable (tree : DecisionTree) (bound : Nat) (addrlist : List String)
    (initial : Schedule) (execution_bound : Nat) : Prop where
  addrlist : initial.addrlist = addrlist
  before : tree.beforeCheckpoint (Schedule.choices initial.schedule) ≠ []
  checkpoint : tree.preemptsAtCheckpoint (Schedule.choices initial.schedule) ≤ bound
  flips : tree.preemptsAtCheckpoint (Schedule.choices initial.schedule) = 1 ∨
    ∀ path, tree.Allowed (Schedule.choices initial.schedule) bound path →
      ¬ tree.FlipsFromCheckpoint path bound
  executions : ∃ paths : List (List Name), paths.length ≤ execution_bound ∧
    ∀ path, tree.Allowed (Schedule.choices initial.schedule) bound path → path ∈ paths

-- The set-up of the search ends before its loop, or the loop starts at the checkpoint.
theorem checkWithBound_eq (reached : Reached tree) (chosen : Name) (rest : List Name)
    (bound : Nat) (addrlist : List String) (initial : Schedule)
    (hpath : tree.IsPath (Schedule.choices initial.schedule))
    (hchoices : Schedule.choices initial.schedule =
      Schedule.choices reached.front ++ chosen :: rest) (execution_bound : Nat) :
    (ChristosChessChecker.new bound addrlist initial).checkWithBound tree.program
        execution_bound =
      ((started reached chosen bound addrlist initial).generateSearchStack
        (tree.program (prefixSchedule reached chosen initial.addrlist))).bind
          fun checker => checker.checkLoop tree.program execution_bound (execution_bound + 1) := by
  rw [checkWithBound, getInitialSchedule_spec reached chosen rest bound addrlist initial hpath hchoices]
  rfl

-- The second of the two set-up runs is the first path of the search.
theorem choices_prefix (arrival : Arrival tree) (chosen : Name)
    (hmem : chosen ∈ arrival.decision.enabled) (bound : Nat)
    (hcharge : arrival.decision.charge chosen ≤ bound) (addrlist : List String) :
    Schedule.choices (tree.program (prefixSchedule arrival.toReached chosen addrlist)).schedule =
      Schedule.choices arrival.front ++
        pathFrom (enter arrival.next chosen (arrival.decision.enabled.erase chosen)) := by
  have hproper : Proper arrival.decision arrival.next bound
      (enter arrival.next chosen (arrival.decision.enabled.erase chosen)) :=
    proper_enter chosen _ hcharge hmem fun c hc => List.mem_of_mem_erase hc
  obtain ⟨error, hleaf⟩ :=
    (@Linked.descend _ _ _ rules (root arrival.next chosen) [] trivial _ rfl).2
  refine (hproper.run_spec error hleaf _ ?_).2
  rw [(program_prefixSchedule arrival.toReached chosen hmem addrlist).1, enter, points_descend]
  rfl

-- The allowed paths in the order in which the search meets them.
def allowedPaths (reached : Reached tree) (chosen : Name) (bound : Nat) : List (List Name) :=
  (explored reached.decision reached.next bound chosen (reached.decision.enabled.erase chosen)).map
    (Schedule.choices reached.front ++ ·)

theorem nodup_allowedPaths (reached : Reached tree) (chosen : Name) (bound : Nat) :
    (allowedPaths reached chosen bound).Nodup :=
  (nodup_explored chosen).map (List.append_right_injective _)

-- The loop meets the claim where all states of the search are good and it has enough executions.
theorem explores_iff_good (arrival : Arrival tree) (chosen : Name)
    (hmem : chosen ∈ arrival.decision.enabled) (bound : Nat)
    (hcharge : arrival.decision.charge chosen ≤ bound) (addrlist : List String)
    (initial : Schedule)
    (hallowed : ∀ path, tree.Allowed (Schedule.choices initial.schedule) bound path ↔
      path ∈ allowedPaths arrival.toReached chosen bound)
    (hruns : StateRuns arrival.decision arrival.next bound
      (enter arrival.next chosen (arrival.decision.enabled.erase chosen)) visited last)
    (hstop : stateStep arrival.decision arrival.next bound last = none)
    (hpaths : (enter arrival.next chosen (arrival.decision.enabled.erase chosen) ::
      visited).map pathFrom =
        explored arrival.decision arrival.next bound chosen (arrival.decision.enabled.erase chosen))
    (self : ChristosChessChecker)
    (h : Ready arrival bound slack addrlist self
      (enter arrival.next chosen (arrival.decision.enabled.erase chosen)))
    (hcount : self.executions = 2)
    (htested : self.tested = [tree.program initial,
      tree.program (prefixSchedule arrival.toReached chosen initial.addrlist)])
    (execution_bound : Nat) (hexecutions : 1 ≤ execution_bound) :
    Explores tree bound initial
        (self.checkLoop tree.program execution_bound (execution_bound + 1)) ↔
      (∀ s ∈ enter arrival.next chosen (arrival.decision.enabled.erase chosen) :: visited,
        Good arrival.decision bound slack s) ∧
      (allowedPaths arrival.toReached chosen bound).length ≤ execution_bound := by
  have hfull : allowedPaths arrival.toReached chosen bound =
      (enter arrival.next chosen (arrival.decision.enabled.erase chosen) ::
        visited).map fun s => Schedule.choices arrival.front ++ pathFrom s := by
    have hmap := congrArg (List.map (Schedule.choices arrival.front ++ ·)) hpaths
    rw [List.map_map] at hmap
    exact hmap.symm
  have hlength : (allowedPaths arrival.toReached chosen bound).length = visited.length + 1 := by
    rw [hfull, List.length_map, List.length_cons]
  have hnodup := nodup_allowedPaths arrival.toReached chosen bound
  constructor
  · rintro ⟨checker, later, hloop, hall, hdistinct, hexact⟩
    have hperm : (later.map fun sched => Schedule.choices sched.schedule).Perm
        (allowedPaths arrival.toReached chosen bound) :=
      (List.perm_ext_iff_of_nodup hdistinct hnodup).mpr fun path =>
        (hexact path).trans (hallowed path)
    have hsame := hperm.length_eq
    rw [List.length_map, hlength] at hsame
    obtain ⟨hgood, hwithin⟩ := good_of_checkLoop hruns hstop execution_bound _ self checker h
      hloop (by omega) (by
        simp only [hall, htested, List.length_cons, List.length_nil]
        omega)
    exact ⟨hgood, by omega⟩
  · rintro ⟨hgood, hle⟩
    obtain ⟨checker, hloop, later, hall, hlater⟩ := checkLoop_runs hruns hstop execution_bound
      (execution_bound + 1) self h hgood (by omega) (by omega)
    have hsecond := choices_prefix arrival chosen hmem bound hcharge initial.addrlist
    have hchoices : (tree.program (prefixSchedule arrival.toReached chosen initial.addrlist) ::
        later).map (fun sched => Schedule.choices sched.schedule) =
          allowedPaths arrival.toReached chosen bound := by
      rw [List.map_cons, hsecond, hlater, hfull, List.map_cons]
    refine ⟨checker, tree.program (prefixSchedule arrival.toReached chosen initial.addrlist) ::
      later, hloop, ?_, ?_, fun path => ?_⟩
    · rw [hall, htested, List.cons_append, List.singleton_append]
    · rw [hchoices]
      exact hnodup
    · rw [hchoices]
      exact (hallowed path).symm

-- The slack that the checker has is the preemption that the checkpoint decision itself may be.
theorem good_slack_iff (reached : Reached tree) (hone : tree.OneCheckpoint) (chosen : Name)
    (hmem : chosen ∈ reached.decision.enabled) (rest : List Name) (bound : Nat)
    (hcharge : reached.decision.charge chosen ≤ bound)
    (hruns : StateRuns reached.decision reached.next bound
      (enter reached.next chosen (reached.decision.enabled.erase chosen)) visited last)
    (hstop : stateStep reached.decision reached.next bound last = none)
    (hpaths : (enter reached.next chosen (reached.decision.enabled.erase chosen) ::
      visited).map pathFrom =
        explored reached.decision reached.next bound chosen (reached.decision.enabled.erase chosen)) :
    (∀ s ∈ enter reached.next chosen (reached.decision.enabled.erase chosen) :: visited,
        Good reached.decision bound (reached.decision.charge chosen) s) ↔
      reached.decision.charge chosen = 1 ∨
        ∀ path, tree.Allowed (Schedule.choices reached.front ++ chosen :: rest) bound path →
          ¬ tree.FlipsFromCheckpoint path bound := by
  rw [reached.flips_explored hone hmem hcharge rest,
    ← good_iff_flips chosen hmem hcharge last visited hruns hstop hpaths]
  have hle := reached.decision.charge_le_price chosen
  constructor
  · intro hgood
    by_cases hfree : reached.decision.charge chosen = 0
    · rw [hfree] at hgood
      exact Or.inr hgood
    · exact Or.inl (by omega)
  · rintro (hpreempt | hgood) s hs
    · have hproper : Proper reached.decision reached.next bound
          (enter reached.next chosen (reached.decision.enabled.erase chosen)) :=
        proper_enter chosen _ hcharge hmem fun c hc => List.mem_of_mem_erase hc
      exact good_of_slack s (hruns.proper hproper s hs) _ (Nat.le_of_eq hpreempt.symm)
    · exact (hgood s hs).mono _ (Nat.zero_le _)

theorem length_allowedPaths_le (reached : Reached tree) (chosen : Name) (bound : Nat)
    (initial : List Name)
    (hallowed : ∀ path, tree.Allowed initial bound path ↔ path ∈ allowedPaths reached chosen bound)
    (execution_bound : Nat) :
    (allowedPaths reached chosen bound).length ≤ execution_bound ↔
      ∃ paths : List (List Name), paths.length ≤ execution_bound ∧
        ∀ path, tree.Allowed initial bound path → path ∈ paths := by
  constructor
  · intro hle
    exact ⟨_, hle, fun path => (hallowed path).mp⟩
  · rintro ⟨paths, hle, hcovers⟩
    have hsubset : allowedPaths reached chosen bound ⊆ paths :=
      fun path hmem => hcovers path ((hallowed path).mpr hmem)
    have hsubperm := List.Nodup.subperm (nodup_allowedPaths reached chosen bound) hsubset
    exact Nat.le_trans hsubperm.length_le hle

-- Exactly when a check with a checkpoint runs all that it is for, and ends.
theorem checkWithBound_iff (tree : DecisionTree) (hone : tree.OneCheckpoint) (bound : Nat)
    (addrlist : List String) (initial : Schedule)
    (hpath : tree.IsPath (Schedule.choices initial.schedule)) (execution_bound : Nat)
    (hexecutions : 1 ≤ execution_bound) :
    Explores tree bound initial
        ((ChristosChessChecker.new bound addrlist initial).checkWithBound tree.program
          execution_bound) ↔
      Explorable tree bound addrlist initial execution_bound := by
  obtain ⟨reached, chosen, rest, hchoices⟩ := exists_reached tree hone _ hpath
  have hmem : chosen ∈ reached.decision.enabled := by
    rw [hchoices, reached.leads.isPath] at hpath
    exact hpath.1
  have hbefore : tree.beforeCheckpoint (Schedule.choices initial.schedule) =
      Schedule.choices reached.front := by
    rw [hchoices]
    exact (reached.checkpoint chosen rest).1
  have hpreempts : tree.preemptsAtCheckpoint (Schedule.choices initial.schedule) =
      reached.decision.charge chosen := by
    rw [hchoices]
    exact reached.preemptsAtCheckpoint chosen rest
  rw [checkWithBound_eq reached chosen rest bound addrlist initial hpath hchoices]
  by_cases hstarts : initial.addrlist = addrlist ∧ Schedule.choices reached.front ≠ [] ∧
      reached.decision.charge chosen ≤ bound
  · obtain ⟨rfl, hne, hcharge⟩ := hstarts
    obtain ⟨arrival, rfl, search, hgenerate, hready⟩ :=
      generateSearchStack_some reached chosen hmem bound initial hne hcharge
    obtain ⟨visited, last, hruns, hstop, hpaths⟩ := states_explored arrival.decision arrival.next bound
      chosen (arrival.decision.enabled.erase chosen)
    have hallowed := arrival.toReached.allowed_explored hone hmem hcharge rest
    have hgood := good_slack_iff arrival.toReached hone chosen hmem rest bound hcharge hruns hstop
      hpaths
    rw [← hchoices] at hallowed hgood
    have hlength := length_allowedPaths_le arrival.toReached chosen bound _ hallowed execution_bound
    rw [hgenerate, Option.bind_some, explores_iff_good arrival chosen hmem bound hcharge _ initial
      hallowed hruns hstop hpaths _ hready rfl rfl execution_bound hexecutions, hgood, hlength,
      ← hpreempts]
    rw [← hbefore] at hne
    rw [← hpreempts] at hcharge
    exact ⟨fun h => ⟨rfl, hne, hcharge, h.1, h.2⟩, fun h => ⟨h.flips, h.executions⟩⟩
  · have hnone := generateSearchStack_none reached chosen hmem bound addrlist initial hstarts
    rw [hnone]
    constructor
    · rintro ⟨checker, later, hloop, -⟩
      cases hloop
    · intro h
      refine absurd ⟨h.addrlist, ?_, ?_⟩ hstarts
      · rw [← hbefore]
        exact h.before
      · rw [← hpreempts]
        exact h.checkpoint

theorem check_iff (tree : DecisionTree) (hone : tree.OneCheckpoint) (bound : Nat)
    (addrlist : List String) (initial : Schedule)
    (hpath : tree.IsPath (Schedule.choices initial.schedule)) :
    Explores tree bound initial
        ((ChristosChessChecker.new bound addrlist initial).check tree.program) ↔
      Explorable tree bound addrlist initial 999999999999 :=
  checkWithBound_iff tree hone bound addrlist initial hpath 999999999999 (by decide)

end

theorem nodup_spawn : ([some "0", some "1"] : List Name).Nodup := by decide

theorem named_spawn : none ∉ ([some "0", some "1"] : List Name) := by decide

theorem pick_mem_spawn : some "0" ∈ ([some "0", some "1"] : List Name) := by decide

theorem keeps_caller_spawn :
    some "0" ∈ ([some "0", some "1"] : List Name) → (some "0" : Name) = some "0" :=
  fun _ => rfl

-- A point of thread 0, where thread 1 may be scheduled instead.
def spawnPoint (type : String) : SchedDecision where
  caller := some "0"
  type := type
  addr := "0x400b20"
  enabled := [some "0", some "1"]
  pick := some "0"
  nodup := nodup_spawn
  named := named_spawn
  pick_mem := pick_mem_spawn
  keeps_caller := keeps_caller_spawn

def checkpointFirst : DecisionTree :=
  .sched (spawnPoint "Thrille_Checkpoint") fun _ => .finished none

def checkpointSecond : DecisionTree :=
  .sched (spawnPoint "Before_Create") fun _ => checkpointFirst

theorem oneCheckpoint_checkpointFirst : checkpointFirst.OneCheckpoint := by
  have hmark : (spawnPoint "Thrille_Checkpoint").isCheckpoint = true := by decide +kernel
  refine ⟨fun _ _ _ => trivial, fun hplain => ?_⟩
  rw [hmark] at hplain
  cases hplain

-- The initial path stays with thread 0.
def stayPath (tree : DecisionTree) (length : Nat) : Schedule where
  schedule := (tree.run (List.replicate length (some "0"))).1
  addrlist := ["all"]

-- At the checkpoint this path leaves thread 0.
def leavePath : Schedule where
  schedule := (checkpointSecond.run [some "0", some "1"]).1
  addrlist := ["all"]

theorem isPath_checkpointSecond (path : List Name) (hpath : checkpointSecond.IsPath path) :
    ∃ first second, path = [first, second] ∧ (second = some "0" ∨ second = some "1") := by
  cases path with
  | nil => exact False.elim hpath
  | cons first path =>
      obtain ⟨-, hpath⟩ := hpath
      cases path with
      | nil => exact False.elim hpath
      | cons second path =>
          obtain ⟨hmem, hend⟩ := hpath
          have hend : path = [] := hend
          refine ⟨first, second, by rw [hend], ?_⟩
          simpa [spawnPoint] using hmem

theorem check_iff_checkpointSecond :
    Explores checkpointSecond 1 leavePath
      ((ChristosChessChecker.new 1 ["all"] leavePath).check checkpointSecond.program) := by
  have hmark : (spawnPoint "Thrille_Checkpoint").isCheckpoint = true := by decide +kernel
  have hplain : ¬ (spawnPoint "Before_Create").isCheckpoint = true := by decide +kernel
  have hchoices : Schedule.choices leavePath.schedule = [some "0", some "1"] := by
    decide +kernel
  have hpath : checkpointSecond.IsPath (Schedule.choices leavePath.schedule) := by
    rw [hchoices]
    simp [checkpointSecond, checkpointFirst, DecisionTree.IsPath, spawnPoint]
  have hstarts (first second : Name) :
      checkpointSecond.beforeCheckpoint [first, second] = [first] := by
    rw [checkpointSecond, beforeCheckpoint, if_neg hplain, checkpointFirst, beforeCheckpoint,
      if_pos hmark]
  have hone : checkpointSecond.OneCheckpoint :=
    ⟨fun hmark => absurd hmark hplain, fun _ _ _ => oneCheckpoint_checkpointFirst⟩
  refine (check_iff checkpointSecond hone 1 ["all"] leavePath hpath).mpr
    ⟨rfl, ?_, ?_, Or.inl ?_, ?_⟩
  · decide +kernel
  · decide +kernel
  · decide +kernel
  · refine ⟨[[some "0", some "0"], [some "0", some "1"]], by simp, ?_⟩
    rw [hchoices]
    rintro path ⟨hpath, hbefore, -⟩
    obtain ⟨first, second, rfl, hsecond⟩ := isPath_checkpointSecond path hpath
    rw [hstarts, hstarts] at hbefore
    obtain ⟨rfl, -⟩ := List.cons.inj hbefore
    rcases hsecond with rfl | rfl
    · simp
    · simp

-- Nothing is before the checkpoint: the scan for it stops at index 0 without a look, and the
-- assertion that the search is complete fails.
theorem check_fails_checkpointFirst :
    checkpointFirst.OneCheckpoint ∧
    checkpointFirst.IsPath (Schedule.choices (stayPath checkpointFirst 1).schedule) ∧
    (ChristosChessChecker.new 0 ["all"] (stayPath checkpointFirst 1)).check
      checkpointFirst.program = none ∧
    ¬ Explores checkpointFirst 0 (stayPath checkpointFirst 1)
      ((ChristosChessChecker.new 0 ["all"] (stayPath checkpointFirst 1)).check
        checkpointFirst.program) := by
  have hnone : (ChristosChessChecker.new 0 ["all"] (stayPath checkpointFirst 1)).check
      checkpointFirst.program = none := by
    rw [← Option.isNone_iff_eq_none]
    decide +kernel
  refine ⟨oneCheckpoint_checkpointFirst, ?_, hnone, ?_⟩
  · have hchoices : Schedule.choices (stayPath checkpointFirst 1).schedule = [some "0"] := by
      decide +kernel
    rw [hchoices]
    simp [checkpointFirst, DecisionTree.IsPath, spawnPoint]
  · rw [hnone]
    rintro ⟨checker, later, hchecked, -⟩
    cases hchecked

end ChristosChessChecker

end Thrille
