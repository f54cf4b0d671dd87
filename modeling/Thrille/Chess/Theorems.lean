import Thrille.Chess.Regeneration

namespace Thrille

open BoundedSearch DecisionTree

namespace ChessChecker

section

variable {tree : DecisionTree} {bound : Nat} {addrlist : List String}
  {frames : List SearchFrame}

-- The choices of a schedule that ends with an open signal are the decisions on the stack.
theorem choices_half (hlinked : Linked rules tree.toSearch frames) (half : List SchedulePoint)
    (hhalf : OpenSignal (pendingOf frames) half) :
    Schedule.choices (points frames ++ half.map fun point => { point with chosen := none }) =
      path frames := by
  rw [← choices_points (toSearch_signalled tree) hlinked, choices_append]
  congr 1
  cases hpending : pendingOf frames with
  | none =>
      rw [hpending] at hhalf
      rw [show half = [] from hhalf]
      rfl
  | some p =>
      rw [hpending] at hhalf
      obtain ⟨point, rfl, _, hpointsig⟩ := hhalf
      simp [Schedule.choices, SchedulePoint.signalled, hpointsig, SignalDecision.info]

-- A schedule that ends with open choices is run to the end of the path that the search meets
-- next.
theorem program_spec (addrlist : List String) (hlinked : Linked rules tree.toSearch frames)
    (half : List SchedulePoint) (hhalf : OpenSignal (pendingOf frames) half) :
    let target : Schedule :=
      { schedule := points frames ++ half.map fun point => { point with chosen := none }
        addrlist := addrlist }
    (tree.program target).schedule =
        points (descend rules frames (treeAt tree.toSearch frames)) ∧
      (tree.program target).addrlist = addrlist := by
  intro target
  have hrun := follow_path hlinked []
  rw [List.append_nil, follow_toSearch] at hrun
  refine ⟨?_, rfl⟩
  rw [program, choices_half hlinked half hhalf, hrun, points_descend]

theorem choices_complete (hlinked : Linked rules tree.toSearch frames) (error : Option String)
    (hleaf : treeAt tree.toSearch frames = .leaf error) :
    Schedule.choices (points frames) = path frames := by
  have hsignalled := signalled_treeAt (toSearch_signalled tree) hlinked
  have hchoices := choices_points (toSearch_signalled tree) hlinked
  rw [hleaf] at hsignalled
  rw [show pendingOf frames = none from hsignalled] at hchoices
  simpa using hchoices

theorem none_not_mem_enabledAt (tree : SearchTree) : none ∉ enabledAt tree := by
  rcases tree with error | ⟨info, next⟩
  · exact List.not_mem_nil
  · cases info with
    | sched decision sig => exact decision.named
    | signal decision => exact List.not_mem_nil

-- A signal that is open counts as a switch from the signalling thread to none.
def openCharge : List SearchFrame → Nat
  | ⟨.signal decision, next, _, _⟩ :: _ =>
      if decision.caller ∈ enabledAt (next decision.pick) then 1 else 0
  | _ => 0

theorem openCharge_sched (frame : SearchFrame) (rest : List SearchFrame) (decision : SchedDecision)
    (sig : Option SignalInfo) (hinfo : frame.info = .sched decision sig) :
    openCharge (frame :: rest) = 0 := by
  obtain ⟨info, next, chosen, todo⟩ := frame
  subst hinfo
  rfl

theorem openCharge_signal (frame : SearchFrame) (rest : List SearchFrame)
    (decision : SignalDecision) (hinfo : frame.info = .signal decision) :
    openCharge (frame :: rest) =
      if decision.caller ∈ enabledAt (frame.next decision.pick) then 1 else 0 := by
  obtain ⟨info, next, chosen, todo⟩ := frame
  subst hinfo
  rfl

theorem open_preemptions (elements : List SearchStackElement)
    (h : List.Forall₂ Refines elements frames) :
    Schedule._getPreemptions
        { schedule := (halfOf elements).map fun point => { point with chosen := none } } =
      openCharge frames := by
  cases h with
  | nil => rfl
  | @cons element frame elements frames hrefines _ =>
      cases hinfo : frame.info with
      | sched decision sig =>
          rw [openCharge_sched frame frames decision sig hinfo]
          simp [halfOf, (hrefines.sched decision sig hinfo).1, Schedule._getPreemptions]
      | signal decision =>
          obtain ⟨hkind, hcaller, -⟩ := hrefines.signal decision hinfo
          rw [openCharge_signal frame frames decision hinfo,
            ← hrefines.waits decision hinfo, ← hcaller]
          have hnone : none ∉ element.schedule_point.enabled := by
            rw [hrefines.waits decision hinfo]
            exact none_not_mem_enabledAt _
          have hone : halfOf (element :: elements) = [element.makeSchedulePoint] := by
            simp [halfOf, hkind]
          rw [hone]
          by_cases hmem : element.schedule_point.caller ∈ element.schedule_point.enabled
          · have hne : element.schedule_point.caller ≠ none := fun h => hnone (h ▸ hmem)
            simp [Schedule._getPreemptions, SearchStackElement.makeSchedulePoint, hkind, hmem, hne]
          · simp [Schedule._getPreemptions, SearchStackElement.makeSchedulePoint, hkind, hmem]

-- One turn of the loop, from the stack that the search backtracks to.
theorem turn_parts (search : ChessSearchStack) (mid : List SearchFrame)
    (hlinked : Linked rules tree.toSearch frames) (h : Holds search bound addrlist frames)
    (hspent : spent rules frames ≤ bound) (hback : back rules bound frames = some mid) :
    ∃ target search' search'',
      search.nextSchedule frames.length = some (some target, search') ∧
      target.addrlist = addrlist ∧
      target._getPreemptions = spent rules mid + openCharge mid ∧
      Schedule.choices target.schedule = path mid ∧
      (tree.program target).schedule = points (descend rules mid (treeAt tree.toSearch mid)) ∧
      search'.regenerate target (tree.program target) = some search'' ∧
      Holds search'' bound addrlist (descend rules mid (treeAt tree.toSearch mid)) := by
  have hroot := toSearch_signalled tree
  have hnext := h.nextSchedule hroot hlinked hspent
  rw [hback] at hnext
  obtain ⟨target, search', hgenerate, hbuild, hholds⟩ := hnext
  have hmid := Linked.back hlinked hback
  have hspentmid := spent_back hback
  obtain ⟨hhalf, hbuild'⟩ := hholds.buildSchedule hroot hmid
  cases hbuild.symm.trans hbuild'
  obtain ⟨hpoints, haddr⟩ := program_spec addrlist hmid _ hhalf
  have hne := back_ne_nil hback
  obtain ⟨search'', hregenerate, hholds'⟩ := hholds.regenerate hroot hmid hne hspentmid _ hhalf _
    (hpoints.trans (points_descend mid _)) haddr
  refine ⟨_, search', search'', hgenerate, rfl, ?_, ?_, hpoints, hregenerate, hholds'⟩
  · have hbelow := getPreemptions_points mid { schedule := points mid } rfl
    have hopen := open_preemptions _ hholds.elements
    rw [Schedule._getPreemptions] at hbelow hopen ⊢
    rw [List.countP_append, hbelow, hopen]
  · exact choices_half hmid _ hhalf

-- One turn of the loop is one step of the abstract search.
theorem turn_spec (search : ChessSearchStack) (frames' : List SearchFrame)
    (hlinked : Linked rules tree.toSearch frames) (h : Holds search bound addrlist frames)
    (hspent : spent rules frames ≤ bound)
    (hstep : step rules tree.toSearch bound frames = some frames') :
    ∃ target search', search.generateNextSchedule = some (some target, search') ∧
      (tree.program target)._getPreemptions ≤ bound ∧
      Schedule.choices (tree.program target).schedule = path frames' ∧
      Linked rules tree.toSearch frames' ∧ spent rules frames' ≤ bound ∧
      ∃ search'', search'.regenerate target (tree.program target) = some search'' ∧
        Holds search'' bound addrlist frames' := by
  obtain ⟨mid, hback, rfl⟩ := Option.map_eq_some_iff.mp hstep
  obtain ⟨target, search', search'', hgenerate, -, -, -, hpoints, hregenerate, hholds⟩ :=
    turn_parts search mid hlinked h hspent hback
  obtain ⟨hlinked', error, hleaf⟩ := (Linked.back hlinked hback).descend _ rfl
  refine ⟨target, search', ?_, ?_, ?_, hlinked', ?_, search'', hregenerate, hholds⟩
  · rw [ChessSearchStack.generateNextSchedule, h.length]
    exact hgenerate
  · rw [getPreemptions_points _ _ hpoints, spent_descend]
    exact spent_back hback
  · rw [hpoints]
    exact choices_complete hlinked' error hleaf
  · rw [spent_descend]
    exact spent_back hback

theorem recordAnyErrors_spec (self : ChessChecker) (sched : Schedule)
    (hexit : self.exit_on_error = false) :
    ∃ errors, self.recordAnyErrors sched = some { self with errors_found := errors } := by
  unfold recordAnyErrors
  split
  · exact ⟨self.errors_found, rfl⟩
  · split
    · exact ⟨self.errors_found, rfl⟩
    · exact ⟨_, by simp [hexit, guard]; rfl⟩

-- The loop passes the stacks of the abstract search one after the other, and runs the program
-- once for each of them.
theorem checkLoop_runs (visited : List (List SearchFrame)) (last : List SearchFrame)
    (hruns : Runs rules tree.toSearch bound frames visited last)
    (hlast : back rules bound last = none) (execution_bound turns : Nat) (self : ChessChecker)
    (hne : frames ≠ []) (hlinked : Linked rules tree.toSearch frames)
    (h : Holds self.search_stack bound addrlist frames) (hspent : spent rules frames ≤ bound)
    (hexit : self.exit_on_error = false) (hbound : self.preemption_bound = bound)
    (hexecutions : self.executions + visited.length ≤ execution_bound)
    (hturns : visited.length < turns) :
    ∃ self', self.checkLoop tree.program execution_bound turns = some self' ∧
      self'.completed_search = true ∧
      self'.tested.map (fun sched => Schedule.choices sched.schedule) =
        self.tested.map (fun sched => Schedule.choices sched.schedule) ++ visited.map path := by
  induction hruns generalizing self turns with
  | stop stack =>
      obtain ⟨turns, rfl⟩ : ∃ n, turns = n + 1 := ⟨turns - 1, by simp at hturns; omega⟩
      have hnext := h.nextSchedule (toSearch_signalled tree) hlinked hspent
      rw [hlast] at hnext
      obtain ⟨search', hnone, -⟩ := hnext
      have hwithin : ¬execution_bound < self.executions := by
        simp only [List.length_nil] at hexecutions
        omega
      have hincomplete : self.search_stack.isSearchComplete = false := by
        rw [h.isSearchComplete, List.isEmpty_eq_false_iff]
        exact hne
      have hgenerate : self.search_stack.generateNextSchedule = some (none, search') := by
        rw [ChessSearchStack.generateNextSchedule, h.length]
        exact hnone
      refine ⟨{ self with search_stack := search', completed_search := true }, ?_, rfl, by simp⟩
      simp [checkLoop, hincomplete, hwithin, hgenerate]
  | go stack stack' visited last hstep _ ih =>
      obtain ⟨turns, rfl⟩ : ∃ n, turns = n + 1 := ⟨turns - 1, by simp at hturns; omega⟩
      simp only [List.length_cons] at hexecutions hturns
      have hwithin : ¬execution_bound < self.executions := by omega
      have hincomplete : self.search_stack.isSearchComplete = false := by
        rw [h.isSearchComplete, List.isEmpty_eq_false_iff]
        exact hne
      obtain ⟨target, search', hgenerate, hpreempts, hchoices, hlinked', hspent', search'',
        hregenerate, hholds⟩ := turn_spec self.search_stack stack' hlinked h hspent hstep
      obtain ⟨errors, herrors⟩ := recordAnyErrors_spec { self with
        search_stack := search'
        executions := self.executions + 1
        tested := self.tested ++ [tree.program target] } (tree.program target) hexit
      have hne' : stack' ≠ [] := by
        obtain ⟨mid, hback, rfl⟩ := Option.map_eq_some_iff.mp hstep
        have hsplit := descend_append rules [] mid (treeAt tree.toSearch mid)
        rw [List.nil_append] at hsplit
        rw [hsplit]
        exact List.append_ne_nil_of_right_ne_nil _ (back_ne_nil hback)
      obtain ⟨self', hloop, hcompleted, hpaths⟩ := ih hlast turns { self with
        search_stack := search''
        executions := self.executions + 1
        tested := self.tested ++ [tree.program target]
        errors_found := errors } hne' hlinked' hholds hspent' hexit hbound
        (by simp only; omega) (by omega)
      refine ⟨self', ?_, hcompleted, ?_⟩
      · rw [← hloop, checkLoop]
        simp only [hincomplete, hwithin, Bool.false_eq_true, if_false, hgenerate,
          Option.bind_eq_bind, Option.bind_some, testSchedule, Schedule.getPreemptions_eq, guard,
          hbound ▸ hpreempts, if_true, Option.pure_def, herrors, regenerateSearchStack, hregenerate]
      · rw [hpaths]
        simp [hchoices]

theorem toSearch_ne_leaf (tree : DecisionTree) (hdecides : ∀ error, tree ≠ .finished error)
    (error : Option String) : tree.toSearch ≠ .leaf error := by
  cases tree with
  | finished error' => exact absurd rfl (hdecides error')
  | sched decision next => simp [toSearch]
  | signal decision after same_caller next => simp [toSearch]

-- For every program and every bound on preemptions the check, given enough executions, ends by
-- itself and has then run each maximal path that the bound allows, and no other, exactly once.
theorem checkWithBound_complete (tree : DecisionTree) (bound : Nat) (addrlist : List String)
    (hdecides : ∀ error, tree ≠ .finished error) :
    ∃ enough, ∀ execution_bound, enough ≤ execution_bound →
      ∃ checker, (ChessChecker.new bound addrlist).checkWithBound tree.program execution_bound =
          some checker ∧
        checker.completed_search = true ∧
        (checker.tested.map fun sched => Schedule.choices sched.schedule).Nodup ∧
        ∀ path, path ∈ checker.tested.map (fun sched => Schedule.choices sched.schedule) ↔
          tree.IsPath path ∧ tree.preemptions path ≤ bound := by
  let root := tree.toSearch
  have hleaf := toSearch_ne_leaf tree hdecides
  obtain ⟨visited, last, hruns, hpaths, hlast⟩ := runs_explore rules root bound root []
    (Nat.zero_le bound)
  let frames := descend rules [] root
  have hlinked : Linked rules root frames ∧ ∃ error, treeAt root frames = .leaf error :=
    @Linked.descend _ _ _ rules root [] trivial root rfl
  have hne : frames ≠ [] := by
    intro hnil
    obtain ⟨error, herror⟩ := hlinked.2
    rw [hnil] at herror
    exact hleaf error herror
  have hinit : Holds (ChessSearchStack.getEmptySearchStack
      { preempt_bound := 0, addrlist } bound addrlist) bound addrlist [] :=
    ⟨rfl, rfl, rfl, rfl, List.Forall₂.nil⟩
  obtain ⟨search, hgenerate, hholds⟩ := foldlM_pushPoint root none [] (toSearch_signalled tree) rfl
    hinit (Nat.zero_le bound)
  let first : Schedule := tree.program { addrlist }
  have hfirst : first.schedule = (follow root []).1 := by
    rw [follow_toSearch]
    rfl
  refine ⟨visited.length + 1, fun execution_bound henough => ?_⟩
  obtain ⟨checker, hloop, hcompleted, htested⟩ := checkLoop_runs visited last hruns hlast
    execution_bound (execution_bound + 1) { ChessChecker.new bound addrlist with
      executions := 1, tested := [first], search_stack := search } hne hlinked.1 hholds
    (by rw [spent_descend]; exact Nat.zero_le bound) rfl rfl (by simp only; omega) (by omega)
  have hall : checker.tested.map (fun sched => Schedule.choices sched.schedule) =
      explore rules root bound := by
    have hfirstpath : Schedule.choices first.schedule = path frames := by
      obtain ⟨error, herror⟩ := hlinked.2
      rw [← choices_complete hlinked.1 error herror, points_descend, hfirst]
      rfl
    rw [htested, ← List.map_id (explore rules root bound)]
    simp only [List.map_cons, List.map_nil, List.singleton_append, hfirstpath]
    exact hpaths
  refine ⟨checker, ?_, hcompleted, hall ▸ nodup_explore rules root bound, fun path => ?_⟩
  · have hstack : (ChessChecker.new bound addrlist).search_stack.generateSearchStack bound first =
        some search := by
      rw [ChessSearchStack.generateSearchStack, hfirst]
      simpa [guard, first, program, ChessChecker.new] using hgenerate
    have hgenerated : ChessChecker.generateSearchStack
        { ChessChecker.new bound addrlist with executions := 1, tested := [first] } first =
        some { ChessChecker.new bound addrlist with
          executions := 1, tested := [first], search_stack := search } := by
      rw [ChessChecker.generateSearchStack]
      simp only [ChessChecker.new] at hstack ⊢
      rw [hstack]
      rfl
    have hinitial : (ChessChecker.new bound addrlist).getInitialSchedule tree.program =
        some (first, { ChessChecker.new bound addrlist with
          executions := 1, tested := [first] }) := rfl
    rw [← hloop, checkWithBound, hinitial]
    simp only [Option.bind_eq_bind, Option.bind_some]
    rw [hgenerated]
    rfl
  · rw [hall, mem_explore, isPath_toSearch, cost_toSearch]

end

-- Thread 0 signals one of two waiting threads and may then be preempted.
def signalOnce : DecisionTree :=
  let after : SchedDecision :=
    { caller := some "0", type := "Simulate_Signal", addr := "0x401b20"
      enabled := [some "0", some "1"], pick := some "0"
      nodup := by decide, named := by decide, pick_mem := by decide, keeps_caller := by decide }
  .signal
    { caller := some "0", cond := "0x6020c0", oncond := [some "1", some "2"], pick := some "1"
      nodup := by decide, named := by decide, pick_mem := by decide }
    (fun _ => after) (fun _ => rfl) fun _ _ => .finished none

theorem checkWithBound_complete_signalOnce :
    ∃ enough, ∀ execution_bound, enough ≤ execution_bound → ∃ checker,
      (ChessChecker.new 1 ["all"]).checkWithBound signalOnce.program execution_bound =
        some checker ∧ checker.completed_search = true ∧
      [some "2", some "1"] ∈ checker.tested.map fun sched => Schedule.choices sched.schedule := by
  obtain ⟨enough, hall⟩ := checkWithBound_complete signalOnce 1 ["all"] (by simp [signalOnce])
  refine ⟨enough, fun execution_bound henough => ?_⟩
  obtain ⟨checker, hrun, hcompleted, _, hpaths⟩ := hall execution_bound henough
  refine ⟨checker, hrun, hcompleted, (hpaths _).mpr ⟨?_, ?_⟩⟩
  · simp [signalOnce, DecisionTree.IsPath]
  · decide

end ChessChecker

end Thrille
