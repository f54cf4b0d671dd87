import Thrille.Chess.Checkpoint

namespace Thrille

open BoundedSearch

namespace SchedDecision

def isCheckpoint (decision : SchedDecision) : Bool :=
  (decision.point none decision.pick).isCheckpoint

-- What another thread than an enabled caller costs, and what `chosen` costs.
def price (decision : SchedDecision) : Nat := if decision.caller ∈ decision.enabled then 1 else 0

def charge (decision : SchedDecision) (chosen : Name) : Nat :=
  if decision.caller ∈ decision.enabled ∧ chosen ≠ decision.caller then 1 else 0

theorem charge_le_price (decision : SchedDecision) (chosen : Name) :
    decision.charge chosen ≤ decision.price ∧ decision.price ≤ 1 := by
  unfold charge price
  by_cases hcaller : decision.caller ∈ decision.enabled
  · by_cases hchosen : chosen = decision.caller
    · simp [hcaller, hchosen]
    · simp [hcaller, hchosen]
  · simp [hcaller]

-- Two threads of which one is free, where the other possibilities are not.
theorem charge_of_ne (decision : SchedDecision) (chosen other : Name) (hne : other ≠ chosen)
    (hfree : decision.charge chosen = 0) (hprice : decision.price = 1) :
    decision.charge other = 1 := by
  unfold charge price at *
  have hcaller : decision.caller ∈ decision.enabled := by
    by_contra hnot
    rw [if_neg hnot] at hprice
    omega
  have hchosen : chosen = decision.caller := by
    by_contra hnot
    rw [if_pos ⟨hcaller, hnot⟩] at hfree
    omega
  rw [if_pos ⟨hcaller, hchosen ▸ hne⟩]

end SchedDecision

namespace DecisionTree

def NoCheckpoint : DecisionTree → Prop
  | finished _ => True
  | sched decision next =>
      decision.isCheckpoint = false ∧ ∀ chosen ∈ decision.enabled, (next chosen).NoCheckpoint
  | signal decision after _ next => ∀ signalled ∈ decision.oncond,
      (after signalled).isCheckpoint = false ∧
        ∀ chosen ∈ (after signalled).enabled, (next signalled chosen).NoCheckpoint

-- Every path passes one checkpoint, and no checkpoint is the point of a signal.
def OneCheckpoint : DecisionTree → Prop
  | finished _ => False
  | sched decision next =>
      (decision.isCheckpoint = true → ∀ chosen ∈ decision.enabled, (next chosen).NoCheckpoint) ∧
        (decision.isCheckpoint = false → ∀ chosen ∈ decision.enabled, (next chosen).OneCheckpoint)
  | signal decision after _ next => ∀ signalled ∈ decision.oncond,
      (after signalled).isCheckpoint = false ∧
        ∀ chosen ∈ (after signalled).enabled, (next signalled chosen).OneCheckpoint

-- The decisions of a path before its checkpoint.
def beforeCheckpoint : DecisionTree → List Name → List Name
  | sched decision next, chosen :: path =>
      if decision.isCheckpoint then [] else chosen :: (next chosen).beforeCheckpoint path
  | signal _ _ _ next, signalled :: chosen :: path =>
      signalled :: chosen :: (next signalled chosen).beforeCheckpoint path
  | _, _ => []

-- What is left of the tree and of a path at its checkpoint.
def atCheckpoint : DecisionTree → List Name → DecisionTree × List Name
  | sched decision next, chosen :: path =>
      if decision.isCheckpoint then (sched decision next, chosen :: path)
      else (next chosen).atCheckpoint path
  | signal _ _ _ next, signalled :: chosen :: path => (next signalled chosen).atCheckpoint path
  | tree, path => (tree, path)

def preemptionsFromCheckpoint (tree : DecisionTree) (path : List Name) : Nat :=
  (tree.atCheckpoint path).1.preemptions (tree.atCheckpoint path).2

-- Whether the checkpoint decision itself is a preemption.
def preemptsAtCheckpoint (tree : DecisionTree) (path : List Name) : Nat :=
  (tree.atCheckpoint path).1.preemptions ((tree.atCheckpoint path).2.take 1)

-- The paths that go like the initial one up to the checkpoint, and are within the bound from there.
def Allowed (tree : DecisionTree) (initial : List Name) (bound : Nat) (path : List Name) : Prop :=
  tree.IsPath path ∧ tree.beforeCheckpoint path = tree.beforeCheckpoint initial ∧
    tree.preemptionsFromCheckpoint path ≤ bound

-- The path signals another thread than the program does by itself where no preemption is left,
-- and there the signalling thread stays enabled.
def FlipsAtLimit : DecisionTree → List Name → Nat → Prop
  | sched decision next, chosen :: path, left =>
      (next chosen).FlipsAtLimit path
        (left - if decision.caller ∈ decision.enabled ∧ chosen ≠ decision.caller then 1 else 0)
  | signal decision after _ next, signalled :: chosen :: path, left =>
      (signalled ≠ decision.pick ∧ left = 0 ∧ decision.caller ∈ (after decision.pick).enabled) ∨
        (next signalled chosen).FlipsAtLimit path
          (left - if (after signalled).caller ∈ (after signalled).enabled ∧
            chosen ≠ (after signalled).caller then 1 else 0)
  | _, _, _ => False

def FlipsFromCheckpoint (tree : DecisionTree) (path : List Name) (bound : Nat) : Prop :=
  (tree.atCheckpoint path).1.FlipsAtLimit (tree.atCheckpoint path).2 bound

-- The decisions that log `points` lead to the subtree.
inductive Leads : DecisionTree → List SchedulePoint → DecisionTree → Prop
  | here (tree : DecisionTree) : Leads tree [] tree
  | sched (decision : SchedDecision) (next : Name → DecisionTree) (chosen : Name)
      (points : List SchedulePoint) (sub : DecisionTree) : chosen ∈ decision.enabled →
      Leads (next chosen) points sub →
      Leads (.sched decision next) (decision.point none chosen :: points) sub
  | signal (decision : SignalDecision) (after : Name → SchedDecision)
      (same_caller : ∀ name, (after name).caller = decision.caller)
      (next : Name → Name → DecisionTree) (signalled chosen : Name) (points : List SchedulePoint)
      (sub : DecisionTree) : signalled ∈ decision.oncond → chosen ∈ (after signalled).enabled →
      Leads (next signalled chosen) points sub →
      Leads (.signal decision after same_caller next)
        ((after signalled).point (some (decision.info signalled)) chosen :: points) sub

section

variable {tree sub : DecisionTree} {points : List SchedulePoint}

theorem choices_sched_point (decision : SchedDecision) (chosen : Name)
    (hmem : chosen ∈ decision.enabled) (points : List SchedulePoint) :
    Schedule.choices (decision.point none chosen :: points) =
      chosen :: Schedule.choices points := by
  have hne : chosen ≠ none := fun h => decision.named (h ▸ hmem)
  simp [Schedule.choices, SchedDecision.point, SchedulePoint.signalled, hne]

theorem choices_signal_point (decision : SignalDecision) (after : SchedDecision)
    (signalled chosen : Name) (hmem : chosen ∈ after.enabled) (points : List SchedulePoint) :
    Schedule.choices (after.point (some (decision.info signalled)) chosen :: points) =
      signalled :: chosen :: Schedule.choices points := by
  have hne : chosen ≠ none := fun h => after.named (h ▸ hmem)
  simp [Schedule.choices, SchedDecision.point, SchedulePoint.signalled, SignalDecision.info, hne]

theorem Leads.run (h : Leads tree points sub) (choices : List Name) :
    tree.run (Schedule.choices points ++ choices) =
      (points ++ (sub.run choices).1, (sub.run choices).2) := by
  induction h with
  | here tree => rfl
  | sched decision next chosen points sub hmem _ ih =>
      rw [choices_sched_point decision chosen hmem, List.cons_append, DecisionTree.run]
      simp only [List.head?_cons, Option.getD_some, List.tail_cons, ih, List.cons_append]
  | signal decision after same_caller next signalled chosen points sub _ hmem _ ih =>
      rw [choices_signal_point decision (after signalled) signalled chosen hmem,
        List.cons_append, List.cons_append, DecisionTree.run]
      simp only [List.head?_cons, Option.getD_some, List.tail_cons, ih, List.cons_append]

theorem Leads.isPath (h : Leads tree points sub) (path : List Name) :
    tree.IsPath (Schedule.choices points ++ path) ↔ sub.IsPath path := by
  induction h with
  | here tree => exact Iff.rfl
  | sched decision next chosen points sub hmem _ ih =>
      rw [choices_sched_point decision chosen hmem, List.cons_append, IsPath, ih]
      exact and_iff_right hmem
  | signal decision after same_caller next signalled chosen points sub hsignalled hmem _ ih =>
      rw [choices_signal_point decision (after signalled) signalled chosen hmem,
        List.cons_append, List.cons_append, IsPath, ih]
      exact ⟨fun h => h.2.2, fun h => ⟨hsignalled, hmem, h⟩⟩

theorem Leads.chosen (h : Leads tree points sub) : ∀ x ∈ points, x.chosen ≠ none := by
  induction h with
  | here tree => exact fun x hx => absurd hx List.not_mem_nil
  | sched decision next chosen points sub hmem _ ih =>
      rw [List.forall_mem_cons]
      exact ⟨fun h => decision.named (h ▸ hmem), ih⟩
  | signal decision after same_caller next signalled chosen points sub _ hmem _ ih =>
      rw [List.forall_mem_cons]
      exact ⟨fun h => (after signalled).named (h ▸ hmem), ih⟩

theorem Leads.snoc {decision : SchedDecision} {next : Name → DecisionTree}
    (h : Leads tree points (.sched decision next)) (chosen : Name)
    (hmem : chosen ∈ decision.enabled) :
    Leads tree (points ++ [decision.point none chosen]) (next chosen) := by
  generalize hsub : DecisionTree.sched decision next = sub at h
  induction h with
  | here tree =>
      subst hsub
      exact Leads.sched decision next chosen [] _ hmem (Leads.here _)
  | sched decision' next' chosen' points sub hmem' _ ih =>
      exact Leads.sched decision' next' chosen' _ _ hmem' (ih hsub)
  | signal decision' after same_caller next' signalled chosen' points sub hsignalled hmem' _ ih =>
      exact Leads.signal decision' after same_caller next' signalled chosen' _ _ hsignalled hmem'
        (ih hsub)

-- Behind the points that lead to a subtree the program goes on as in the subtree.
theorem Leads.program (h : Leads tree points sub) (target : Schedule) :
    tree.program { target with schedule := points ++ target.schedule } =
      { sub.program target with schedule := points ++ (sub.program target).schedule } := by
  rw [DecisionTree.program, DecisionTree.program, choices_append, h.run]

-- Where no checkpoint is passed, the rest of the path decides what is at the checkpoint.
theorem Leads.checkpoint (h : Leads tree points sub)
    (hunmarked : ∀ x ∈ points, x.isCheckpoint = false) (path : List Name) :
    tree.beforeCheckpoint (Schedule.choices points ++ path) =
        Schedule.choices points ++ sub.beforeCheckpoint path ∧
      tree.atCheckpoint (Schedule.choices points ++ path) = sub.atCheckpoint path := by
  induction h with
  | here tree => exact ⟨rfl, rfl⟩
  | sched decision next chosen points sub hmem _ ih =>
      obtain ⟨hhead, hrest⟩ := List.forall_mem_cons.mp hunmarked
      obtain ⟨hbefore, hat⟩ := ih hrest
      have hmark : ¬ decision.isCheckpoint = true := by
        rw [show decision.isCheckpoint = false from hhead]
        exact Bool.false_ne_true
      rw [choices_sched_point decision chosen hmem, List.cons_append, beforeCheckpoint,
        atCheckpoint, if_neg hmark, if_neg hmark, hbefore, hat]
      exact ⟨rfl, rfl⟩
  | signal decision after same_caller next signalled chosen points sub _ hmem _ ih =>
      obtain ⟨hbefore, hat⟩ := ih (List.forall_mem_cons.mp hunmarked).2
      rw [choices_signal_point decision (after signalled) signalled chosen hmem,
        List.cons_append, List.cons_append, beforeCheckpoint, atCheckpoint, hbefore, hat]
      exact ⟨rfl, rfl⟩

end

-- Where a path comes to its checkpoint.
structure Reached (tree : DecisionTree) where
  front : List SchedulePoint
  decision : SchedDecision
  next : Name → DecisionTree
  leads : Leads tree front (.sched decision next)
  unmarked : ∀ x ∈ front, x.isCheckpoint = false
  marked : decision.isCheckpoint = true
  later : ∀ chosen ∈ decision.enabled, (next chosen).NoCheckpoint

theorem exists_reached (tree : DecisionTree) (hone : tree.OneCheckpoint) (path : List Name)
    (hpath : tree.IsPath path) :
    ∃ (reached : Reached tree) (chosen : Name) (rest : List Name),
      path = Schedule.choices reached.front ++ chosen :: rest := by
  induction tree generalizing path with
  | finished error => exact False.elim hone
  | sched decision next ih =>
      cases path with
      | nil => exact False.elim hpath
      | cons chosen path =>
          obtain ⟨hmem, hrest⟩ := hpath
          by_cases hmark : decision.isCheckpoint = true
          · exact ⟨⟨[], decision, next, Leads.here _, List.forall_mem_nil _, hmark, hone.1 hmark⟩,
              chosen, path, rfl⟩
          · obtain ⟨reached, chosen', rest, rfl⟩ :=
              ih chosen (hone.2 (Bool.eq_false_iff.mpr hmark) chosen hmem) path hrest
            refine ⟨⟨_, reached.decision, reached.next,
              Leads.sched decision next chosen _ _ hmem reached.leads, ?_, reached.marked,
              reached.later⟩, chosen', rest, ?_⟩
            · rw [List.forall_mem_cons]
              exact ⟨Bool.eq_false_iff.mpr hmark, reached.unmarked⟩
            · rw [choices_sched_point decision chosen hmem, List.cons_append]
  | signal decision after same_caller next ih =>
      match path, hpath with
      | signalled :: chosen :: path, hpath =>
          obtain ⟨hsignalled, hmem, hrest⟩ := hpath
          obtain ⟨hafter, hnext⟩ := hone signalled hsignalled
          obtain ⟨reached, chosen', rest, rfl⟩ := ih signalled chosen (hnext chosen hmem) path hrest
          refine ⟨⟨_, reached.decision, reached.next, Leads.signal decision after same_caller next
            signalled chosen _ _ hsignalled hmem reached.leads, ?_, reached.marked,
            reached.later⟩, chosen', rest, ?_⟩
          · rw [List.forall_mem_cons]
            exact ⟨hafter, reached.unmarked⟩
          · rw [choices_signal_point decision (after signalled) signalled chosen hmem,
              List.cons_append, List.cons_append]

namespace Reached

variable {tree : DecisionTree} (reached : Reached tree)

-- The points up to the checkpoint and with it.
def through (chosen : Name) : List SchedulePoint :=
  reached.front ++ [reached.decision.point none chosen]

def preemptions : Nat := Schedule._getPreemptions { schedule := reached.front }

variable {reached} {chosen : Name}

theorem leads_through (hmem : chosen ∈ reached.decision.enabled) :
    Leads tree (reached.through chosen) (reached.next chosen) :=
  reached.leads.snoc chosen hmem

theorem choices_through (hmem : chosen ∈ reached.decision.enabled) :
    Schedule.choices (reached.through chosen) = Schedule.choices reached.front ++ [chosen] := by
  rw [through, choices_append, choices_sched_point _ _ hmem]
  rfl

variable (reached)

theorem checkpoint (chosen : Name) (path : List Name) :
    tree.beforeCheckpoint (Schedule.choices reached.front ++ chosen :: path) =
        Schedule.choices reached.front ∧
      tree.atCheckpoint (Schedule.choices reached.front ++ chosen :: path) =
        (.sched reached.decision reached.next, chosen :: path) := by
  obtain ⟨hbefore, hat⟩ := reached.leads.checkpoint reached.unmarked (chosen :: path)
  rw [hbefore, hat, beforeCheckpoint, atCheckpoint, if_pos reached.marked, if_pos reached.marked,
    List.append_nil]
  exact ⟨rfl, rfl⟩

theorem preemptsAtCheckpoint (chosen : Name) (path : List Name) :
    tree.preemptsAtCheckpoint (Schedule.choices reached.front ++ chosen :: path) =
      reached.decision.charge chosen := by
  have hnil (sub : DecisionTree) : sub.preemptions [] = 0 := by
    cases sub with
    | finished error => rfl
    | sched decision next => rfl
    | signal decision after same_caller next => rfl
  rw [DecisionTree.preemptsAtCheckpoint, (reached.checkpoint chosen path).2]
  simp only [List.take_succ_cons, List.take_zero, DecisionTree.preemptions, hnil, Nat.add_zero]
  rfl

theorem allowed_iff (hone : tree.OneCheckpoint) (chosen : Name) (rest : List Name) (bound : Nat)
    (path : List Name) :
    tree.Allowed (Schedule.choices reached.front ++ chosen :: rest) bound path ↔
      ∃ later, path = Schedule.choices reached.front ++ later ∧
        (DecisionTree.sched reached.decision reached.next).IsPath later ∧
        (DecisionTree.sched reached.decision reached.next).preemptions later ≤ bound := by
  rw [Allowed, (reached.checkpoint chosen rest).1]
  constructor
  · rintro ⟨hpath, hbefore, hwithin⟩
    obtain ⟨reached', chosen', rest', rfl⟩ := exists_reached tree hone path hpath
    rw [(reached'.checkpoint chosen' rest').1] at hbefore
    rw [hbefore] at hpath hwithin
    rw [preemptionsFromCheckpoint, (reached.checkpoint chosen' rest').2] at hwithin
    exact ⟨chosen' :: rest', by rw [hbefore], (reached.leads.isPath _).mp hpath, hwithin⟩
  · rintro ⟨later, rfl, hpath, hwithin⟩
    cases later with
    | nil => exact False.elim hpath
    | cons chosen' rest' =>
        rw [preemptionsFromCheckpoint, (reached.checkpoint chosen' rest').2,
          (reached.checkpoint chosen' rest').1]
        exact ⟨(reached.leads.isPath _).mpr hpath, rfl, hwithin⟩

end Reached

theorem NoCheckpoint.run {tree : DecisionTree} (h : tree.NoCheckpoint) (path : List Name)
    (hpath : tree.IsPath path) : ∀ x ∈ (tree.run path).1, x.isCheckpoint = false := by
  induction tree generalizing path with
  | finished error => exact List.forall_mem_nil _
  | sched decision next ih =>
      cases path with
      | nil => exact False.elim hpath
      | cons chosen path =>
          simp only [DecisionTree.run, List.head?_cons, Option.getD_some, List.tail_cons,
            List.forall_mem_cons]
          exact ⟨h.1, ih chosen (h.2 chosen hpath.1) path hpath.2⟩
  | signal decision after same_caller next ih =>
      rcases path with _ | ⟨signalled, _ | ⟨chosen, path⟩⟩
      · exact False.elim hpath
      · exact False.elim hpath
      · obtain ⟨hsignalled, hmem, hrest⟩ := hpath
        obtain ⟨hafter, hnext⟩ := h signalled hsignalled
        simp only [DecisionTree.run, List.head?_cons, Option.getD_some, List.tail_cons,
          List.forall_mem_cons]
        exact ⟨hafter, ih signalled chosen (hnext chosen hmem) path hrest⟩

-- The same of the tree that the search walks through.
def Unmarked : SearchTree → Prop
  | .leaf _ => True
  | .node info next =>
      (∀ decision sig, info = .sched decision sig → decision.isCheckpoint = false) ∧
        ∀ choice ∈ info.alternatives, Unmarked (next choice)

theorem NoCheckpoint.toSearch {tree : DecisionTree} (h : tree.NoCheckpoint) : Unmarked tree.toSearch := by
  induction tree with
  | finished error => trivial
  | sched decision next ih =>
      refine ⟨?_, fun chosen hmem => ih chosen (h.2 chosen hmem)⟩
      rintro _ _ ⟨⟩
      exact h.1
  | signal decision after same_caller next ih =>
      refine ⟨by rintro _ _ ⟨⟩, fun signalled hsignalled => ?_⟩
      obtain ⟨hafter, hnext⟩ := h signalled hsignalled
      refine ⟨?_, fun chosen hmem => ih signalled chosen (hnext chosen hmem)⟩
      rintro _ _ ⟨⟩
      exact hafter

theorem Unmarked.treeAt {root : SearchTree} {frames : List SearchFrame} (h : Unmarked root)
    (hlinked : Linked rules root frames) : Unmarked (treeAt root frames) := by
  induction frames with
  | nil => exact h
  | cons frame rest ih =>
      obtain ⟨hnode, hchosen, -, hrest⟩ := hlinked
      have hbelow := ih hrest
      rw [hnode] at hbelow
      exact hbelow.2 frame.chosen ((mem_rules _ _).mp hchosen)

theorem Unmarked.isCheckpoint {root : SearchTree} {frames : List SearchFrame} (h : Unmarked root)
    (hlinked : Linked rules root frames) : ∀ x ∈ points frames, x.isCheckpoint = false := by
  induction frames with
  | nil => exact List.forall_mem_nil _
  | cons frame rest ih =>
      obtain ⟨hnode, -, -, hrest⟩ := hlinked
      have hbelow := h.treeAt hrest
      rw [hnode] at hbelow
      rw [points_cons, List.forall_mem_append]
      refine ⟨ih hrest, ?_⟩
      cases hinfo : frame.info with
      | sched decision sig =>
          rw [Info.point, Option.toList_some, List.forall_mem_singleton]
          exact hbelow.1 decision sig hinfo
      | signal decision => exact List.forall_mem_nil _

end DecisionTree

end Thrille
