import Thrille.Chess.Points

namespace Thrille.DecisionTree

open BoundedSearch

-- The threads that are enabled where the next thread is decided.
def enabledAt : SearchTree → List Name
  | .node (.sched decision _) _ => decision.enabled
  | _ => []

-- An element of the search stack stands for a frame of the abstract search. The point it keeps is
-- the one it was made from: a signal element knows who signals, for which condition, and the
-- threads that were enabled after the first choice.
structure Refines (element : SearchStackElement) (frame : SearchFrame) : Prop where
  chosen : element.chosen = frame.chosen
  todo : element.todo = frame.todo
  sched : ∀ decision sig, frame.info = .sched decision sig → element.issignal = false ∧
    ∃ chosen, element.schedule_point = decision.point sig chosen
  signal : ∀ decision, frame.info = .signal decision → element.issignal = true ∧
    element.schedule_point.caller = decision.caller ∧
    ∃ signalled, element.schedule_point.signal = some (decision.info signalled)
  waits : ∀ decision, frame.info = .signal decision →
    element.schedule_point.enabled = enabledAt (frame.next decision.pick)

structure Holds (search : ChessSearchStack) (bound : Nat) (addrlist : List String)
    (frames : List SearchFrame) : Prop where
  plain : search.checkpointed = false
  bound : search.preempt_bound = bound
  addrlist : search.addrlist = addrlist
  current : search.current_preempts = spent rules frames
  elements : List.Forall₂ Refines search.stack.reverse frames

section

variable {element : SearchStackElement} {frame : SearchFrame} {bound : Nat}
  {addrlist : List String} {frames : List SearchFrame}
  {search : ChessSearchStack}

theorem Refines.isPreempt (h : Refines element frame) :
    (if element.isPreempt then 1 else 0) = Frame.paid rules frame := by
  cases hinfo : frame.info with
  | sched decision sig =>
      obtain ⟨hkind, chosen, hpoint⟩ := h.sched decision sig hinfo
      rw [Frame.paid, hinfo, charge_sched, ← h.chosen]
      by_cases heq : element.chosen = decision.caller
      · simp [SearchStackElement.isPreempt, hkind, hpoint, SchedDecision.point, heq]
      · have hne : decision.caller ≠ element.chosen := Ne.symm heq
        simp [SearchStackElement.isPreempt, hkind, hpoint, SchedDecision.point, heq, hne]
  | signal decision =>
      rw [Frame.paid, hinfo, charge_signal, SearchStackElement.isPreempt,
        (h.signal decision hinfo).1]
      rfl

theorem countP_isPreempt {elements : List SearchStackElement}
    (h : List.Forall₂ Refines elements frames) :
    elements.countP (·.isPreempt) = spent rules frames := by
  induction h with
  | nil => rfl
  | cons hhead _ ih =>
      simp only [List.countP_cons, ih, spent, List.map_cons, List.sum_cons, ← hhead.isPreempt]
      omega

-- Recounting the preemptions of a stack of elements that refine `frames`.
theorem calculatePreemptions_spec (search : ChessSearchStack) (hplain : search.checkpointed = false)
    (haddr : search.addrlist = addrlist) (hbound : search.preempt_bound = bound)
    (helements : List.Forall₂ Refines search.stack.reverse frames)
    (hspent : spent rules frames ≤ bound) :
    ∃ search', search.calculatePreemptions = some search' ∧ search'.stack = search.stack ∧
      Holds search' bound addrlist frames := by
  have hcount : search.calculatePreemptionsInRange 0 = spent rules frames := by
    rw [ChessSearchStack.calculatePreemptionsInRange, List.drop_zero,
      ← countP_isPreempt helements, List.countP_reverse]
  refine ⟨{ search with current_preempts := spent rules frames }, ?_, rfl,
    ⟨hplain, hbound, haddr, rfl, helements⟩⟩
  rw [ChessSearchStack.calculatePreemptions, hplain]
  simp only [Bool.false_eq_true, if_false, hcount, hbound, guard, hspent, if_true]
  rfl

theorem Holds.push (h : Holds search bound addrlist frames) (hrefines : Refines element frame)
    (hspent : spent rules (frame :: frames) ≤ bound) :
    ∃ search', search.push element = some search' ∧ Holds search' bound addrlist (frame :: frames) := by
  obtain ⟨search', hcalc, _, hholds⟩ := calculatePreemptions_spec
    { search with stack := search.stack ++ [element] } h.plain h.addrlist h.bound
    (by simpa using ⟨hrefines, h.elements⟩) hspent
  refine ⟨search', ?_, hholds⟩
  rw [ChessSearchStack.push, hcalc]
  have hle : search'.current_preempts ≤ search'.preempt_bound := by
    rw [hholds.current, hholds.bound]
    exact hspent
  simp [guard, hle]

theorem Holds.pop (h : Holds search bound addrlist (frame :: frames))
    (hspent : spent rules frames ≤ bound) :
    ∃ element search', search.pop = some (element, search') ∧ Refines element frame ∧
      Holds search' bound addrlist frames := by
  obtain ⟨element, elements, hrefines, hrest, hstack⟩ := List.forall₂_cons_right_iff.mp h.elements
  have hstack' : search.stack = elements.reverse ++ [element] := by
    rw [← List.reverse_reverse search.stack, hstack, List.reverse_cons]
  obtain ⟨search', hcalc, _, hholds⟩ := calculatePreemptions_spec
    { search with stack := elements.reverse } h.plain h.addrlist h.bound
    (by simpa using hrest) hspent
  refine ⟨element, search', ?_, hrefines, hholds⟩
  rw [ChessSearchStack.pop, hstack', List.getLast?_append, List.dropLast_concat, hcalc]
  rfl

theorem Holds.popBottom (h : Holds search bound addrlist (frames ++ [frame]))
    (hspent : spent rules frames ≤ bound) :
    ∃ element search', search.popBottom = some (element, search') ∧ Refines element frame ∧
      Holds search' bound addrlist frames := by
  have hreverse := List.forall₂_reverse_iff.mpr h.elements
  rw [List.reverse_reverse, List.reverse_append, List.reverse_singleton,
    List.singleton_append] at hreverse
  obtain ⟨element, elements, hrefines, hrest, hstack⟩ := List.forall₂_cons_right_iff.mp hreverse
  obtain ⟨search', hcalc, _, hholds⟩ := calculatePreemptions_spec
    { search with stack := elements } h.plain h.addrlist h.bound
    (by simpa using List.forall₂_reverse_iff.mpr hrest) hspent
  refine ⟨element, search', ?_, hrefines, hholds⟩
  rw [ChessSearchStack.popBottom, hstack, List.head?_cons, List.tail_cons, hcalc]
  rfl

theorem spent_append (frames frames' : List SearchFrame) :
    spent rules (frames ++ frames') = spent rules frames + spent rules frames' := by
  simp only [spent, List.map_append, List.sum_append]

-- What `isWorkToDo` looks at is whether the last possibility left is affordable: all of them
-- have the same price, and it is paid exactly where the present one did not cost anything.
theorem Holds.isWorkToDo (h : Holds search bound addrlist frames) (hrefines : Refines element frame)
    (hspent : spent rules (frame :: frames) ≤ bound) :
    search.isWorkToDo element = some (!frame.todo.isEmpty &&
      decide (spent rules frames + rules.price frame.info ≤ bound)) := by
  have hneeds : element.needPreemptsToExplore = true ↔
      rules.price frame.info = 1 ∧ Frame.paid rules frame = 0 := by
    cases hinfo : frame.info with
    | sched decision sig =>
        obtain ⟨hkind, chosen, hpoint⟩ := hrefines.sched decision sig hinfo
        rw [Frame.paid, hinfo, charge_sched, ← hrefines.chosen]
        by_cases heq : element.chosen = decision.caller
        · simp [SearchStackElement.needPreemptsToExplore, hkind, hpoint, SchedDecision.point,
            rules, Info.price, heq]
        · have hne : decision.caller ≠ element.chosen := Ne.symm heq
          simp [SearchStackElement.needPreemptsToExplore, hkind, hpoint, SchedDecision.point,
            rules, Info.price, heq, hne]
    | signal decision =>
        simp [SearchStackElement.needPreemptsToExplore, (hrefines.signal decision hinfo).1,
          rules, Info.price]
  have hprice : rules.price frame.info ≤ 1 := by
    cases frame.info with
    | sched decision sig => simp only [rules, Info.price]; split <;> omega
    | signal decision => exact Nat.zero_le 1
  have htotal : spent rules (frame :: frames) =
      Frame.paid rules frame + spent rules frames := by
    simp only [spent, List.map_cons, List.sum_cons]
  rw [htotal] at hspent
  rw [ChessSearchStack.isWorkToDo, SearchStackElement.hasToDo, hrefines.todo, h.current, h.bound]
  cases frame.todo.isEmpty with
  | true => rfl
  | false =>
      by_cases hlt : spent rules frames < bound
      · have hafford : spent rules frames + rules.price frame.info ≤ bound := by omega
        simp [hlt, hafford]
      · have hfull : spent rules frames = bound := by omega
        have hneeds' : element.needPreemptsToExplore =
            !decide (spent rules frames + rules.price frame.info ≤ bound) := by
          rw [Bool.eq_iff_iff, hneeds]
          simp only [Bool.not_eq_true', decide_eq_false_iff_not]
          omega
        rw [hneeds']
        simp [hfull]

theorem Refines.chosenIsDone (h : Refines element frame) :
    Refines element.chosenIsDone frame := by
  unfold SearchStackElement.chosenIsDone
  split
  · exact h
  · exact ⟨h.chosen, h.todo, h.sched, h.signal, h.waits⟩

theorem Refines.doWork (h : Refines element frame) (choice : Name)
    (hlast : frame.todo.getLast? = some choice) (hmem : choice ∈ frame.info.alternatives) :
    ∃ element', element.doWork = some element' ∧
      Refines element' { frame with chosen := choice, todo := frame.todo.dropLast } := by
  have hdone := h.chosenIsDone
  refine ⟨{ element.chosenIsDone with chosen := choice, todo := element.todo.dropLast }, ?_,
    ⟨rfl, by rw [h.todo], hdone.sched, hdone.signal, hdone.waits⟩⟩
  rw [SearchStackElement.doWork, h.todo, hlast]
  cases hinfo : frame.info with
  | sched decision sig =>
      obtain ⟨hkind, chosen, hpoint⟩ := hdone.sched decision sig hinfo
      rw [hinfo] at hmem
      have henabled : choice ∈ element.chosenIsDone.schedule_point.enabled := by
        rw [hpoint]
        exact hmem
      simp [hkind, guard, henabled]
  | signal decision =>
      obtain ⟨hkind, _, signalled, hsignal⟩ := hdone.signal decision hinfo
      rw [hinfo] at hmem
      have honcond : choice ∈ (decision.info signalled).oncond := hmem
      simp [hkind, hsignal, guard, honcond]

theorem Holds.length (h : Holds search bound addrlist frames) :
    search.stack.length = frames.length := by
  rw [← List.length_reverse, h.elements.length_eq]

theorem Holds.isSearchComplete (h : Holds search bound addrlist frames) :
    search.isSearchComplete = frames.isEmpty := by
  have hlength := h.length
  rw [ChessSearchStack.isSearchComplete, h.plain]
  cases frames with
  | nil => simpa using hlength
  | cons frame rest =>
      simp only [Bool.false_eq_true, if_false, List.isEmpty_cons, List.isEmpty_eq_false_iff]
      exact List.ne_nil_of_length_pos (hlength ▸ Nat.succ_pos _)

-- The point that is open where a signal is on top of the stack.
def halfOf (elements : List SearchStackElement) : List SchedulePoint :=
  (elements.head?.filter (·.issignal)).toList.map (·.makeSchedulePoint)

-- The point that an undecided signal half leaves at the end of a list of points.
def OpenSignal : Pending → List SchedulePoint → Prop
  | none, half => half = []
  | some (decision, signalled), half => ∃ point, half = [point] ∧
      point.caller = decision.caller ∧ point.signal = some (decision.info signalled)

theorem Refines.makeSchedulePoint_sched (h : Refines element frame) (decision : SchedDecision)
    (sig : Option SignalInfo) (hinfo : frame.info = .sched decision sig) :
    element.makeSchedulePoint = decision.point sig frame.chosen := by
  obtain ⟨hkind, chosen, hpoint⟩ := h.sched decision sig hinfo
  simp [SearchStackElement.makeSchedulePoint, hkind, hpoint, SchedDecision.point, h.chosen]

theorem Refines.makeSchedulePoint_signal (h : Refines element frame) (decision : SignalDecision)
    (hinfo : frame.info = .signal decision) :
    element.makeSchedulePoint.caller = decision.caller ∧
      element.makeSchedulePoint.signal = some (decision.info frame.chosen) := by
  obtain ⟨hkind, hcaller, signalled, hsignal⟩ := h.signal decision hinfo
  simp [SearchStackElement.makeSchedulePoint, hkind, hcaller, hsignal, SignalDecision.info,
    h.chosen]

theorem joinSignals_cons (point : SchedulePoint) (rest : List SchedulePoint)
    (hplain : point.signal = none) :
    ChessSearchStack.joinSignals (point :: rest) =
      (ChessSearchStack.joinSignals rest).map (point :: ·) := by
  cases rest with
  | nil => simp [ChessSearchStack.joinSignals, SchedulePoint.isSignal, hplain]
  | cons next rest =>
      rw [ChessSearchStack.joinSignals, hplain]
      cases ChessSearchStack.joinSignals (next :: rest) <;> rfl

theorem joinSignals_pair (half point : SchedulePoint) (rest : List SchedulePoint)
    (info : SignalInfo) (hhalf : half.signal = some info) (hpoint : point.signal = some info)
    (hcaller : point.caller = half.caller) :
    ChessSearchStack.joinSignals (half :: point :: rest) =
      (ChessSearchStack.joinSignals rest).map (point :: ·) := by
  rw [ChessSearchStack.joinSignals, hhalf, hpoint]
  simp only [Option.bind_eq_bind, Option.bind_some, guard, hcaller, if_true]
  cases ChessSearchStack.joinSignals rest <;> rfl

-- The elements of the stack join to the logged points, whatever points follow them.
theorem joinSignals_stack {root : SearchTree} (hroot : Signalled root none)
    (hlinked : Linked rules root frames) (elements : List SearchStackElement)
    (h : List.Forall₂ Refines elements frames) :
    OpenSignal (pendingOf frames) (halfOf elements) ∧ ∀ rest,
      ChessSearchStack.joinSignals (elements.reverse.map (·.makeSchedulePoint) ++ rest) =
        (ChessSearchStack.joinSignals (halfOf elements ++ rest)).map (points frames ++ ·) := by
  induction h with
  | nil => exact ⟨rfl, fun rest => by simp [points, halfOf]⟩
  | @cons element frame elements frames hrefines helements ih =>
      obtain ⟨hnode, _, _, hrest⟩ := hlinked
      have hsignalled := signalled_treeAt hroot hrest
      rw [hnode] at hsignalled
      obtain ⟨hhalf, hjoin⟩ := ih hrest
      have hsplit (rest : List SchedulePoint) :
          (element :: elements).reverse.map (·.makeSchedulePoint) ++ rest =
            elements.reverse.map (·.makeSchedulePoint) ++ element.makeSchedulePoint :: rest := by
        simp only [List.reverse_cons, List.map_append, List.map_cons, List.map_nil,
          List.append_assoc, List.singleton_append]
      cases hinfo : frame.info with
      | sched decision sig =>
          rw [hinfo] at hsignalled
          have hmake := hrefines.makeSchedulePoint_sched decision sig hinfo
          have hnone : halfOf (element :: elements) = [] := by
            simp [halfOf, (hrefines.sched decision sig hinfo).1]
          rw [pendingOf_sched frame frames decision sig hinfo, hnone]
          refine ⟨rfl, fun rest => ?_⟩
          rw [hsplit, hjoin, points_cons, hinfo, hmake]
          have hstep : ChessSearchStack.joinSignals
              (halfOf elements ++ decision.point sig frame.chosen :: rest) =
              (ChessSearchStack.joinSignals rest).map (decision.point sig frame.chosen :: ·) := by
            obtain ⟨hsig, hcaller, _⟩ := hsignalled
            cases hpending : pendingOf frames with
            | none =>
                rw [hpending] at hhalf hsig
                rw [show halfOf elements = [] from hhalf]
                exact joinSignals_cons _ _ hsig
            | some p =>
                rw [hpending] at hhalf hsig
                obtain ⟨point, hhalfpoint, hpoint, hpointsig⟩ := hhalf
                rw [hhalfpoint]
                exact joinSignals_pair point _ rest _ hpointsig hsig
                  ((hcaller p hpending).trans hpoint.symm)
          rw [hstep, Option.map_map, List.nil_append]
          congr 1
          funext tail
          simp [Info.point]
      | signal decision =>
          rw [hinfo] at hsignalled
          have hmake := hrefines.makeSchedulePoint_signal decision hinfo
          have hone : halfOf (element :: elements) = [element.makeSchedulePoint] := by
            simp [halfOf, (hrefines.signal decision hinfo).1]
          rw [pendingOf_signal frame frames decision hinfo, hone]
          refine ⟨⟨_, rfl, hmake⟩, fun rest => ?_⟩
          rw [hsignalled.1] at hhalf
          rw [hsplit, hjoin, points_cons, hinfo, show halfOf elements = [] from hhalf]
          simp [Info.point]

-- A schedule to be tested ends, where a signal was flipped, with a point whose next thread is open.
theorem Holds.buildSchedule {root : SearchTree} (hroot : Signalled root none)
    (hlinked : Linked rules root frames) (h : Holds search bound addrlist frames) :
    OpenSignal (pendingOf frames) (halfOf search.stack.reverse) ∧ search.buildSchedule = some {
      schedule := points frames ++
        (halfOf search.stack.reverse).map fun point => { point with chosen := none }
      addrlist := addrlist } := by
  obtain ⟨hhalf, hjoin⟩ := joinSignals_stack hroot hlinked _ h.elements
  refine ⟨hhalf, ?_⟩
  generalize halfOf search.stack.reverse = half at hhalf hjoin
  have hall := hjoin []
  rw [List.reverse_reverse, List.append_nil, List.append_nil] at hall
  have hopen : ChessSearchStack.joinSignals half =
      some (half.map fun point => { point with chosen := none }) := by
    cases hpending : pendingOf frames with
    | none =>
        rw [hpending] at hhalf
        rw [show half = [] from hhalf]
        rfl
    | some p =>
        rw [hpending] at hhalf
        obtain ⟨point, rfl, _, hpointsig⟩ := hhalf
        simp [ChessSearchStack.joinSignals, SchedulePoint.isSignal, hpointsig]
  rw [ChessSearchStack.buildSchedule, hall, hopen, h.addrlist]
  rfl

-- The loop of `generateNextSchedule` is the backtracking of the abstract search.
theorem Holds.nextSchedule {root : SearchTree} (hroot : Signalled root none)
    (hlinked : Linked rules root frames) (h : Holds search bound addrlist frames)
    (hspent : spent rules frames ≤ bound) :
    match back rules bound frames with
    | none => ∃ search', search.nextSchedule frames.length = some (none, search') ∧
        Holds search' bound addrlist []
    | some frames' => ∃ sched search',
        search.nextSchedule frames.length = some (some sched, search') ∧
        search'.buildSchedule = some sched ∧ Holds search' bound addrlist frames' := by
  induction frames generalizing search with
  | nil => exact ⟨search, rfl, h⟩
  | cons frame rest ih =>
      have hrest : spent rules rest ≤ bound := by
        simp only [spent, List.map_cons, List.sum_cons] at hspent ⊢
        omega
      obtain ⟨element, search', hpop, hrefines, hholds⟩ := h.pop hrest
      have hwork := hholds.isWorkToDo hrefines hspent
      have hincomplete : search.isSearchComplete = false := h.isSearchComplete
      have hskip := ih hlinked.2.2.2 hholds hrest
      simp only [List.length_cons, ChessSearchStack.nextSchedule, hincomplete, Bool.false_eq_true,
        if_false, hpop, Option.bind_eq_bind, Option.bind_some, hwork]
      cases hlast : frame.todo.getLast? with
      | none =>
          have hback : back rules bound (frame :: rest) = back rules bound rest := by
            rw [back, hlast]
          rw [List.getLast?_eq_none_iff] at hlast
          simpa [hlast, hback] using hskip
      | some choice =>
          have hne : frame.todo ≠ [] := by
            intro hnil
            simp [hnil] at hlast
          by_cases hafford : spent rules rest + rules.price frame.info ≤ bound
          · have hback : back rules bound (frame :: rest) =
                some ({ frame with chosen := choice, todo := frame.todo.dropLast } :: rest) := by
              simp only [back, hlast, hafford, if_true]
            have hlinked' := Linked.back hlinked hback
            have hchoice := (mem_rules _ _).mp hlinked'.2.1
            obtain ⟨element', hdo, hrefines'⟩ := hrefines.doWork choice hlast hchoice
            obtain ⟨search'', hpush, hholds'⟩ := hholds.push hrefines' (spent_back hback)
            obtain ⟨-, hbuild⟩ := hholds'.buildSchedule hroot hlinked'
            rw [hback]
            refine ⟨_, search'', ?_, hbuild, hholds'⟩
            simp [hne, hafford, hdo, hpush, hbuild]
          · have hback : back rules bound (frame :: rest) = back rules bound rest := by
              simp only [back, hlast, hafford, if_false]
            simpa [hafford, hback] using hskip

end

end Thrille.DecisionTree
