import Thrille.Chess.CheckpointPaths

namespace Thrille

open BoundedSearch ChessSearchStack

namespace DecisionTree

-- The element of a decision for the next thread, whichever thread it decides for now.
structure Decides (decision : SchedDecision) (sig : Option SignalInfo) (chosen : Name)
    (todo : List Name) (element : SearchStackElement) : Prop where
  issignal : element.issignal = false
  ischeckpoint : element.ischeckpoint = decision.isCheckpoint
  point : ∃ first, element.schedule_point = decision.point sig first
  chosen : element.chosen = chosen
  todo : element.todo = todo

namespace Decides

variable {decision : SchedDecision} {sig : Option SignalInfo} {chosen : Name} {todo : List Name}
  {element : SearchStackElement}

theorem new (decision : SchedDecision) (sig : Option SignalInfo) (chosen : Name)
    (hmem : chosen ∈ decision.enabled) :
    ∃ element, SearchStackElement.new (decision.point sig chosen) false = some element ∧
      Decides decision sig chosen (decision.enabled.erase chosen) element := by
  refine ⟨_, by simp [SearchStackElement.new, SchedDecision.point, guard, hmem]; rfl,
    rfl, rfl, ⟨chosen, rfl⟩, rfl, rfl⟩

theorem makeSchedulePoint (h : Decides decision sig chosen todo element) :
    element.makeSchedulePoint = decision.point sig chosen := by
  obtain ⟨first, hpoint⟩ := h.point
  simp [SearchStackElement.makeSchedulePoint, h.issignal, hpoint, SchedDecision.point, h.chosen]

theorem isPreempt (h : Decides decision sig chosen todo element) :
    (if element.isPreempt then 1 else 0) =
      if decision.caller ∈ decision.enabled ∧ chosen ≠ decision.caller then 1 else 0 := by
  obtain ⟨first, hpoint⟩ := h.point
  by_cases heq : chosen = decision.caller
  · simp [SearchStackElement.isPreempt, h.issignal, hpoint, SchedDecision.point, h.chosen, heq]
  · have hne : decision.caller ≠ chosen := fun h => heq h.symm
    simp [SearchStackElement.isPreempt, h.issignal, hpoint, SchedDecision.point, h.chosen, heq, hne]

theorem needPreemptsToExplore (h : Decides decision sig chosen todo element) :
    element.needPreemptsToExplore = true ↔
      decision.caller ∈ decision.enabled ∧ chosen = decision.caller := by
  obtain ⟨first, hpoint⟩ := h.point
  by_cases heq : chosen = decision.caller
  · simp [SearchStackElement.needPreemptsToExplore, h.issignal, hpoint, SchedDecision.point,
      h.chosen, heq]
  · have hne : decision.caller ≠ chosen := fun h => heq h.symm
    simp [SearchStackElement.needPreemptsToExplore, h.issignal, hpoint, SchedDecision.point,
      h.chosen, heq, hne]

theorem chosenIsDone (h : Decides decision sig chosen todo element) :
    Decides decision sig chosen todo element.chosenIsDone := by
  rw [SearchStackElement.chosenIsDone]
  split
  · exact h
  · exact ⟨h.issignal, h.ischeckpoint, h.point, h.chosen, h.todo⟩

theorem doWork (h : Decides decision sig chosen todo element) (choice : Name)
    (hlast : todo.getLast? = some choice) (hmem : choice ∈ decision.enabled) :
    ∃ element', element.doWork = some element' ∧
      Decides decision sig choice todo.dropLast element' := by
  have hdone := h.chosenIsDone
  refine ⟨{ element.chosenIsDone with chosen := choice, todo := element.todo.dropLast }, ?_,
    ⟨hdone.issignal, hdone.ischeckpoint, hdone.point, rfl, by rw [h.todo]⟩⟩
  obtain ⟨first, hpoint⟩ := hdone.point
  have henabled : choice ∈ element.chosenIsDone.schedule_point.enabled := by
    rw [hpoint]
    exact hmem
  rw [SearchStackElement.doWork, h.todo, hlast]
  simp [hdone.issignal, guard, henabled]

end Decides

theorem preemptions_sched_point (decision : SchedDecision) (sig : Option SignalInfo)
    (chosen : Name) :
    [decision.point sig chosen].countP
        (fun x => x.caller != x.chosen && x.enabled.contains x.caller) =
      if decision.caller ∈ decision.enabled ∧ chosen ≠ decision.caller then 1 else 0 := by
  by_cases heq : chosen = decision.caller
  · simp [SchedDecision.point, heq]
  · have hne : decision.caller ≠ chosen := fun h => heq h.symm
    simp [SchedDecision.point, heq, hne]

theorem signal_element (decision : SignalDecision) (after : SchedDecision) (signalled chosen : Name)
    (hmem : signalled ∈ decision.oncond) :
    ∃ element, SearchStackElement.new
        (after.point (some (decision.info signalled)) chosen) true = some element ∧
      element.ischeckpoint = after.isCheckpoint ∧ element.isPreempt = false ∧
      element.makeSchedulePoint = after.point (some (decision.info signalled)) chosen := by
  let point := after.point (some (decision.info signalled)) chosen
  have hnew : SearchStackElement.new point true = some {
      schedule_point := point
      issignal := true
      ischeckpoint := after.isCheckpoint
      done := [signalled]
      chosen := signalled
      todo := decision.oncond.erase signalled } := by
    simp [SearchStackElement.new, point, SchedDecision.point, SignalDecision.info, guard, hmem]
    rfl
  exact ⟨_, hnew, rfl, rfl, rfl⟩

section

variable {tree sub : DecisionTree} {points : List SchedulePoint}

theorem push_unmarked (search : ChessSearchStack) (element : SearchStackElement)
    (hcheckpointed : search.checkpointed = true)
    (hwithin : search.current_preempts ≤ search.preempt_bound)
    (hunmarked : ∀ e ∈ search.stack, e.ischeckpoint = false)
    (helement : element.ischeckpoint = false) :
    search.push element = some { search with stack := search.stack ++ [element] } := by
  refine (push_eq_some _ _ _).mpr ⟨?_, hwithin⟩
  refine calculatePreemptions_unmarked { search with stack := search.stack ++ [element] }
    hcheckpointed ?_
  intro e he
  rcases List.mem_append.mp he with he | he
  · exact hunmarked e he
  · rw [List.mem_singleton.mp he]
    exact helement

-- The elements of a path before its checkpoint.
structure Elements (points : List SchedulePoint) (elements : List SearchStackElement) : Prop where
  unmarked : ∀ e ∈ elements, e.ischeckpoint = false
  joins : ∀ rest, joinSignals (elements.map (·.makeSchedulePoint) ++ rest) =
    (joinSignals rest).map (points ++ ·)
  preemptions : elements.countP (·.isPreempt) = Schedule._getPreemptions { schedule := points }
  length : elements.length = (Schedule.choices points).length

theorem Leads.push (h : Leads tree points sub)
    (hpoints : ∀ x ∈ points, x.isCheckpoint = false) (search : ChessSearchStack)
    (hcheckpointed : search.checkpointed = true)
    (hwithin : search.current_preempts ≤ search.preempt_bound)
    (hunmarked : ∀ e ∈ search.stack, e.ischeckpoint = false) :
    ∃ elements, points.foldlM pushPoint search =
        some { search with stack := search.stack ++ elements } ∧ Elements points elements := by
  induction h generalizing search with
  | here tree =>
      refine ⟨[], by simp, List.forall_mem_nil _, ?_, rfl, rfl⟩
      intro rest
      cases hrest : joinSignals rest with
      | none => simp [hrest]
      | some joined => simp [hrest]
  | sched decision next chosen points sub hmem _ ih =>
      obtain ⟨hmark, hrest⟩ := List.forall_mem_cons.mp hpoints
      obtain ⟨element, hnew, hdecides⟩ := Decides.new decision none chosen hmem
      have helement : element.ischeckpoint = false := hdecides.ischeckpoint.trans hmark
      have hpush := push_unmarked search element hcheckpointed hwithin hunmarked helement
      obtain ⟨elements, hfold, helements⟩ := ih hrest
        { search with stack := search.stack ++ [element] } hcheckpointed hwithin (by
          intro e he
          rcases List.mem_append.mp he with he | he
          · exact hunmarked e he
          · rw [List.mem_singleton.mp he]
            exact helement)
      refine ⟨element :: elements, ?_, ?_, ?_, ?_, ?_⟩
      · have hplain : (decision.point none chosen).isSignal = false := rfl
        rw [List.foldlM_cons, pushPoint, pushSignal, if_neg (by rw [hplain]; decide)]
        simp only [Option.bind_eq_bind, Option.bind_some, hnew, hpush, hfold, List.append_assoc,
          List.singleton_append]
      · rw [List.forall_mem_cons]
        exact ⟨helement, helements.unmarked⟩
      · intro rest
        rw [List.map_cons, List.cons_append, hdecides.makeSchedulePoint,
          joinSignals_cons _ _ rfl, helements.joins, Option.map_map]
        rfl
      · have hpoint := preemptions_sched_point decision none chosen
        have hcount := hdecides.isPreempt
        have hrest := helements.preemptions
        rw [Schedule._getPreemptions] at hrest ⊢
        rw [List.countP_cons, hrest, ← List.singleton_append, List.countP_append, hpoint, hcount]
        exact Nat.add_comm _ _
      · rw [choices_sched_point decision chosen hmem, List.length_cons, List.length_cons,
          helements.length]
  | signal decision after same_caller next signalled chosen points sub hsignalled hmem _ ih =>
      obtain ⟨hmark, hrest⟩ := List.forall_mem_cons.mp hpoints
      obtain ⟨half, hnewhalf, hhalfmark, hhalffree, hhalf⟩ :=
        signal_element decision (after signalled) signalled chosen hsignalled
      obtain ⟨element, hnew, hdecides⟩ :=
        Decides.new (after signalled) (some (decision.info signalled)) chosen hmem
      have helement : element.ischeckpoint = false := hdecides.ischeckpoint.trans hmark
      have hhalfmark : half.ischeckpoint = false := hhalfmark.trans hmark
      have hpushhalf := push_unmarked search half hcheckpointed hwithin hunmarked hhalfmark
      have hunmarked' : ∀ e ∈ search.stack ++ [half], e.ischeckpoint = false := by
        intro e he
        rcases List.mem_append.mp he with he | he
        · exact hunmarked e he
        · rw [List.mem_singleton.mp he]
          exact hhalfmark
      have hpush := push_unmarked { search with stack := search.stack ++ [half] } element
        hcheckpointed hwithin hunmarked' helement
      obtain ⟨elements, hfold, helements⟩ := ih hrest
        { search with stack := search.stack ++ [half] ++ [element] } hcheckpointed hwithin (by
          intro e he
          rcases List.mem_append.mp he with he | he
          · exact hunmarked' e he
          · rw [List.mem_singleton.mp he]
            exact helement)
      refine ⟨half :: element :: elements, ?_, ?_, ?_, ?_, ?_⟩
      · have hsignal : ((after signalled).point (some (decision.info signalled)) chosen).isSignal =
            true := rfl
        rw [List.foldlM_cons, pushPoint, pushSignal, if_pos hsignal]
        simp only [Option.bind_eq_bind, Option.bind_some, hnewhalf, hpushhalf, hnew]
        rw [hpush, Option.bind_some, hfold]
        simp only [List.append_assoc, List.cons_append, List.nil_append]
      · rw [List.forall_mem_cons, List.forall_mem_cons]
        exact ⟨hhalfmark, helement, helements.unmarked⟩
      · intro rest
        rw [List.map_cons, List.map_cons, List.cons_append, List.cons_append, hhalf,
          hdecides.makeSchedulePoint, joinSignals_pair _ _ _ _ rfl rfl rfl, helements.joins,
          Option.map_map]
        rfl
      · have hpoint := preemptions_sched_point (after signalled) (some (decision.info signalled))
          chosen
        have hcount := hdecides.isPreempt
        have hrest := helements.preemptions
        rw [Schedule._getPreemptions] at hrest ⊢
        rw [List.countP_cons, List.countP_cons, hrest, ← List.singleton_append, List.countP_append,
          hpoint, hcount, hhalffree, if_neg Bool.false_ne_true, Nat.add_zero]
        exact Nat.add_comm _ _
      · rw [choices_signal_point decision (after signalled) signalled chosen hmem,
          List.length_cons, List.length_cons, List.length_cons, List.length_cons, helements.length]

end

end DecisionTree

end Thrille
