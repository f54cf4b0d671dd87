import Thrille.Chess.DecisionTree

namespace Thrille.DecisionTree

open BoundedSearch

-- What a node of the search adds to the log: a signal is logged with the decision after it.
def Info.point : Info → Name → Option SchedulePoint
  | .sched decision sig, chosen => some (decision.point sig chosen)
  | .signal _, _ => none

def points (stack : List SearchFrame) : List SchedulePoint :=
  stack.reverse.filterMap fun frame => frame.info.point frame.chosen

-- The run of a program, one node of the search at a time.
def follow : SearchTree → List Name → List SchedulePoint × Option String
  | .leaf error, _ => ([], error)
  | .node info next, choices =>
      let choice := choices.head?.getD info.pick
      ((info.point choice).toList ++ (follow (next choice) choices.tail).1,
        (follow (next choice) choices.tail).2)

theorem follow_toSearch (tree : DecisionTree) (choices : List Name) :
    follow tree.toSearch choices = tree.run choices := by
  induction tree generalizing choices with
  | finished error => rfl
  | sched decision next ih => simp only [toSearch, follow, run, ih]; rfl
  | signal decision after same_caller next ih => simp only [toSearch, follow, run, ih]; rfl

-- A signal that is decided while the thread scheduled after it is still open.
abbrev Pending := Option (SignalDecision × Name)

-- Each signal node is followed by the decision for the next thread, which knows the signal.
def Signalled : SearchTree → Pending → Prop
  | .leaf _, pending => pending = none
  | .node (.sched decision sig) next, pending =>
      sig = pending.map (fun p => p.1.info p.2) ∧
        (∀ p ∈ pending, decision.caller = p.1.caller) ∧ ∀ choice, Signalled (next choice) none
  | .node (.signal decision) next, pending =>
      pending = none ∧ ∀ choice, Signalled (next choice) (some (decision, choice))

theorem toSearch_signalled (tree : DecisionTree) : Signalled tree.toSearch none := by
  induction tree with
  | finished error => rfl
  | sched decision next ih => exact ⟨rfl, by simp, ih⟩
  | signal decision after same_caller next ih =>
      refine ⟨rfl, fun name => ⟨rfl, ?_, ih name⟩⟩
      rintro p ⟨⟩
      exact same_caller name

def pendingOf : List SearchFrame → Pending
  | ⟨.signal decision, _, chosen, _⟩ :: _ => some (decision, chosen)
  | _ => none

theorem pendingOf_sched (frame : SearchFrame) (rest : List SearchFrame) (decision : SchedDecision)
    (sig : Option SignalInfo) (hinfo : frame.info = .sched decision sig) :
    pendingOf (frame :: rest) = none := by
  obtain ⟨info, next, chosen, todo⟩ := frame
  subst hinfo
  rfl

theorem pendingOf_signal (frame : SearchFrame) (rest : List SearchFrame)
    (decision : SignalDecision) (hinfo : frame.info = .signal decision) :
    pendingOf (frame :: rest) = some (decision, frame.chosen) := by
  obtain ⟨info, next, chosen, todo⟩ := frame
  subst hinfo
  rfl

section

variable {root : SearchTree} {stack : List SearchFrame}

theorem signalled_treeAt (hroot : Signalled root none) (hlinked : Linked rules root stack) :
    Signalled (treeAt root stack) (pendingOf stack) := by
  induction stack with
  | nil => exact hroot
  | cons frame rest ih =>
      obtain ⟨hnode, _, _, hrest⟩ := hlinked
      have hsignalled := ih hrest
      rw [hnode] at hsignalled
      cases hinfo : frame.info with
      | sched decision sig =>
          rw [hinfo] at hsignalled
          rw [pendingOf_sched frame rest decision sig hinfo]
          exact hsignalled.2.2 frame.chosen
      | signal decision =>
          rw [hinfo] at hsignalled
          rw [pendingOf_signal frame rest decision hinfo]
          exact hsignalled.2 frame.chosen

theorem chosen_ne_none (frame : SearchFrame) (rest : List SearchFrame)
    (hlinked : Linked rules root (frame :: rest)) : frame.chosen ≠ none := by
  intro hnone
  have hmem := (mem_rules _ _).mp hlinked.2.1
  exact frame.info.named (hnone ▸ hmem)

theorem points_cons (frame : SearchFrame) (rest : List SearchFrame) :
    points (frame :: rest) = points rest ++ (frame.info.point frame.chosen).toList := by
  simp only [points, List.reverse_cons, List.filterMap_append, List.filterMap_cons,
    List.filterMap_nil]
  cases frame.info.point frame.chosen <;> rfl

theorem follow_path (hlinked : Linked rules root stack) (choices : List Name) :
    follow root (path stack ++ choices) =
      (points stack ++ (follow (treeAt root stack) choices).1,
        (follow (treeAt root stack) choices).2) := by
  induction stack generalizing choices with
  | nil => rfl
  | cons frame rest ih =>
      obtain ⟨hnode, _, _, hrest⟩ := hlinked
      rw [path_cons, List.append_assoc, List.singleton_append, ih hrest, hnode, points_cons]
      simp only [follow, List.head?_cons, Option.getD_some, List.tail_cons, List.append_assoc,
        treeAt]

theorem points_descend (stack : List SearchFrame) (tree : SearchTree) :
    points (descend rules stack tree) = points stack ++ (follow tree []).1 := by
  induction tree generalizing stack with
  | leaf error => simp [descend, follow]
  | node info next ih =>
      rw [descend, ih, points_cons]
      simp only [follow, List.head?_nil, Option.getD_none, List.tail_nil, List.append_assoc]
      rfl

@[simp] theorem choices_append (front back : List SchedulePoint) :
    Schedule.choices (front ++ back) = Schedule.choices front ++ Schedule.choices back := by
  simp only [Schedule.choices, List.flatMap_append]

-- The choices of the logged points are the decisions on the stack, but for an open signal.
theorem choices_points (hroot : Signalled root none) (hlinked : Linked rules root stack) :
    Schedule.choices (points stack) ++ (pendingOf stack).toList.map Prod.snd = path stack := by
  induction stack with
  | nil => rfl
  | cons frame rest ih =>
      have hchosen := chosen_ne_none frame rest hlinked
      obtain ⟨hnode, _, _, hrest⟩ := hlinked
      have hsignalled := signalled_treeAt hroot hrest
      rw [hnode] at hsignalled
      rw [points_cons, path_cons, choices_append, ← ih hrest]
      cases hinfo : frame.info with
      | sched decision sig =>
          rw [hinfo] at hsignalled
          rw [pendingOf_sched frame rest decision sig hinfo, hsignalled.1]
          cases pendingOf rest with
          | none => simp [Schedule.choices, Info.point, SchedDecision.point, hchosen,
              SchedulePoint.signalled]
          | some p => simp [Schedule.choices, Info.point, SchedDecision.point, hchosen,
              SchedulePoint.signalled, SignalDecision.info]
      | signal decision =>
          rw [hinfo] at hsignalled
          rw [pendingOf_signal frame rest decision hinfo, hsignalled.1]
          simp [Schedule.choices, Info.point]

theorem getPreemptions_points (stack : List SearchFrame) (sched : Schedule)
    (hsched : sched.schedule = points stack) : sched._getPreemptions = spent rules stack := by
  rw [Schedule._getPreemptions, hsched]
  clear hsched
  induction stack with
  | nil => rfl
  | cons frame rest ih =>
      rw [points_cons, List.countP_append, ih]
      simp only [spent, List.map_cons, List.sum_cons, Frame.paid]
      cases hinfo : frame.info with
      | sched decision sig =>
          rw [charge_sched]
          by_cases heq : frame.chosen = decision.caller
          · simp [Info.point, SchedDecision.point, heq]
          · have hne : decision.caller ≠ frame.chosen := Ne.symm heq
            by_cases hcaller : decision.caller ∈ decision.enabled
            · simp [Info.point, SchedDecision.point, heq, hne, hcaller, Nat.add_comm]
            · simp [Info.point, SchedDecision.point, hcaller]
      | signal decision =>
          rw [charge_signal]
          simp [Info.point]

end

end Thrille.DecisionTree
