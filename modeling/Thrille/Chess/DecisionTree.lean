import Thrille.Chess
import Thrille.Lib.BoundedSearch

namespace Thrille

open BoundedSearch

-- A point at which the program under test has a thread scheduled. Left to itself it goes on with
-- the caller if that is enabled.
structure SchedDecision where
  caller : Name
  type : String
  addr : String
  enabled : List Name
  pick : Name
  nodup : enabled.Nodup
  named : none ∉ enabled
  pick_mem : pick ∈ enabled
  keeps_caller : caller ∈ enabled → pick = caller

-- A signal that some threads wait for.
structure SignalDecision where
  caller : Name
  cond : String
  oncond : List Name
  pick : Name
  nodup : oncond.Nodup
  named : none ∉ oncond
  pick_mem : pick ∈ oncond

-- The program under test. Who is signalled is decided right before the next thread is.
inductive DecisionTree
  | finished (error : Option String)
  | sched (decision : SchedDecision) (next : Name → DecisionTree)
  | signal (decision : SignalDecision) (after : Name → SchedDecision)
      (same_caller : ∀ name, (after name).caller = decision.caller)
      (next : Name → Name → DecisionTree)

def SchedDecision.point (decision : SchedDecision) (signal : Option SignalInfo) (chosen : Name) :
    SchedulePoint where
  chosen := chosen
  caller := decision.caller
  type := decision.type
  addr := decision.addr
  enabled := decision.enabled
  signal := signal

def SignalDecision.info (decision : SignalDecision) (signalled : Name) : SignalInfo where
  signalled := signalled
  cond := decision.cond
  oncond := decision.oncond

-- The choices that a schedule file makes, in order. A signal point may leave the next thread open.
def Schedule.choices (sched : List SchedulePoint) : List Name :=
  sched.flatMap fun x => x.signalled ++ if x.chosen = none then [] else [x.chosen]

namespace DecisionTree

-- Follow the prefix, and go on by the picks.
def run : DecisionTree → List Name → List SchedulePoint × Option String
  | finished error, _ => ([], error)
  | sched decision next, choices =>
      let chosen := choices.head?.getD decision.pick
      let (points, error) := (next chosen).run choices.tail
      (decision.point none chosen :: points, error)
  | signal decision after _ next, choices =>
      let signalled := choices.head?.getD decision.pick
      let chosen := choices.tail.head?.getD (after signalled).pick
      let (points, error) := (next signalled chosen).run choices.tail.tail
      ((after signalled).point (some (decision.info signalled)) chosen :: points, error)

def program (tree : DecisionTree) (target : Schedule) : Schedule :=
  let (points, error) := tree.run (Schedule.choices target.schedule)
  { schedule := points, addrlist := target.addrlist, error := error }

-- The maximal paths, and how often one of them leaves an enabled caller.
def IsPath : DecisionTree → List Name → Prop
  | finished _, path => path = []
  | sched decision next, chosen :: path => chosen ∈ decision.enabled ∧ (next chosen).IsPath path
  | signal decision after _ next, signalled :: chosen :: path =>
      signalled ∈ decision.oncond ∧ chosen ∈ (after signalled).enabled ∧
        (next signalled chosen).IsPath path
  | _, _ => False

def preemptions : DecisionTree → List Name → Nat
  | sched decision next, chosen :: path =>
      (if decision.caller ∈ decision.enabled ∧ chosen ≠ decision.caller then 1 else 0) +
        (next chosen).preemptions path
  | signal _ after _ next, signalled :: chosen :: path =>
      (if (after signalled).caller ∈ (after signalled).enabled ∧
        chosen ≠ (after signalled).caller then 1 else 0) +
        (next signalled chosen).preemptions path
  | _, _ => 0

-- What is decided at a node of the search, where signals have nodes of their own.
inductive Info
  | sched (decision : SchedDecision) (signal : Option SignalInfo)
  | signal (decision : SignalDecision)

abbrev SearchTree := Tree Info Name (Option String)

abbrev SearchFrame := Frame Info Name (Option String)

def toSearch : DecisionTree → SearchTree
  | finished error => .leaf error
  | sched decision next => .node (.sched decision none) fun chosen => (next chosen).toSearch
  | signal decision after _ next =>
      .node (.signal decision) fun signalled =>
        .node (.sched (after signalled) (some (decision.info signalled))) fun chosen =>
          (next signalled chosen).toSearch

def Info.pick : Info → Name
  | sched decision _ => decision.pick
  | signal decision => decision.pick

def Info.alternatives : Info → List Name
  | sched decision _ => decision.enabled
  | signal decision => decision.oncond

def Info.price : Info → Nat
  | sched decision _ => if decision.caller ∈ decision.enabled then 1 else 0
  | signal _ => 0

theorem Info.nodup (info : Info) : info.alternatives.Nodup := by
  cases info with
  | sched decision => exact decision.nodup
  | signal decision => exact decision.nodup

theorem Info.pick_mem (info : Info) : info.pick ∈ info.alternatives := by
  cases info with
  | sched decision => exact decision.pick_mem
  | signal decision => exact decision.pick_mem

theorem Info.named (info : Info) : none ∉ info.alternatives := by
  cases info with
  | sched decision => exact decision.named
  | signal decision => exact decision.named

def rules : Rules Info Name where
  pick := Info.pick
  others info := info.alternatives.erase info.pick
  price := Info.price
  nodup info := List.nodup_cons.mpr ⟨info.nodup.not_mem_erase, info.nodup.erase _⟩

theorem mem_rules (info : Info) (choice : Name) :
    choice ∈ rules.pick info :: rules.others info ↔ choice ∈ info.alternatives := by
  rw [List.mem_cons]
  constructor
  · rintro (rfl | hmem)
    · exact info.pick_mem
    · exact List.mem_of_mem_erase hmem
  · intro hmem
    by_cases heq : choice = info.pick
    · exact Or.inl heq
    · exact Or.inr ((List.mem_erase_of_ne heq).mpr hmem)

theorem charge_sched (decision : SchedDecision) (signal : Option SignalInfo) (chosen : Name) :
    charge rules (.sched decision signal) chosen =
      if decision.caller ∈ decision.enabled ∧ chosen ≠ decision.caller then 1 else 0 := by
  by_cases hcaller : decision.caller ∈ decision.enabled
  · have hpick := decision.keeps_caller hcaller
    by_cases heq : chosen = decision.caller <;>
      simp [charge, rules, Info.pick, Info.price, hcaller, hpick, heq]
  · simp [charge, rules, Info.price, hcaller]

theorem charge_signal (decision : SignalDecision) (signalled : Name) :
    charge rules (.signal decision) signalled = 0 := by
  unfold charge
  split <;> rfl

theorem isPath_toSearch (tree : DecisionTree) (path : List Name) :
    BoundedSearch.IsPath rules tree.toSearch path ↔ tree.IsPath path := by
  induction tree generalizing path with
  | finished error => simp [toSearch, IsPath, BoundedSearch.IsPath]
  | sched decision next ih =>
      cases path with
      | nil => simp [toSearch, IsPath, BoundedSearch.IsPath]
      | cons chosen path =>
          simp only [toSearch, IsPath, BoundedSearch.IsPath, mem_rules, ih, Info.alternatives]
  | signal decision after same_caller next ih =>
      rcases path with _ | ⟨signalled, _ | ⟨chosen, path⟩⟩
      · simp [toSearch, IsPath, BoundedSearch.IsPath]
      · simp [toSearch, IsPath, BoundedSearch.IsPath]
      · simp only [toSearch, IsPath, BoundedSearch.IsPath, mem_rules, ih, Info.alternatives]

theorem cost_toSearch (tree : DecisionTree) (path : List Name) :
    cost rules tree.toSearch path = tree.preemptions path := by
  induction tree generalizing path with
  | finished error => simp [toSearch, preemptions, cost]
  | sched decision next ih =>
      cases path with
      | nil => simp [toSearch, preemptions, cost]
      | cons chosen path => simp only [toSearch, preemptions, cost, charge_sched, ih]
  | signal decision after same_caller next ih =>
      rcases path with _ | ⟨signalled, _ | ⟨chosen, path⟩⟩
      · simp [toSearch, preemptions, cost]
      · simp [toSearch, preemptions, cost, charge_signal]
      · simp only [toSearch, preemptions, cost, charge_sched, charge_signal, ih, Nat.zero_add]

end DecisionTree

end Thrille
