import Thrille.Chess.CheckpointPaths

namespace Thrille

open BoundedSearch ChessChecker

namespace DecisionTree

-- Where a search with a checkpoint is: the thread that the checkpoint decides for, the other
-- threads that are left there, and the stack above it.
structure CheckpointState where
  chosen : Name
  todo : List Name
  frames : List SearchFrame

section

variable (decision : SchedDecision) (next : Name → DecisionTree) (bound : Nat)

def budget (chosen : Name) : Nat := bound - decision.charge chosen

def root (chosen : Name) : SearchTree := (next chosen).toSearch

def enter (chosen : Name) (todo : List Name) : CheckpointState where
  chosen := chosen
  todo := todo
  frames := descend rules [] (root next chosen)

def pathFrom (state : CheckpointState) : List Name := state.chosen :: path state.frames

-- The next path above the checkpoint, or else the next thread at the checkpoint.
def stateStep (state : CheckpointState) : Option CheckpointState :=
  match back rules (budget decision bound state.chosen) state.frames with
  | some mid =>
      some { state with frames := descend rules mid (treeAt (root next state.chosen) mid) }
  | none =>
      match state.todo.getLast? with
      | none => none
      | some choice =>
          if decision.price ≤ bound then some (enter next choice state.todo.dropLast) else none

inductive StateRuns : CheckpointState → List CheckpointState → CheckpointState → Prop
  | stop (state : CheckpointState) : StateRuns state [] state
  | go (state following : CheckpointState) (visited : List CheckpointState)
      (last : CheckpointState) : stateStep decision next bound state = some following →
      StateRuns following visited last → StateRuns state (following :: visited) last

variable {decision next bound}

theorem StateRuns.append {state mid last : CheckpointState}
    {visited visited' : List CheckpointState}
    (h : StateRuns decision next bound state visited mid)
    (h' : StateRuns decision next bound mid visited' last) :
    StateRuns decision next bound state (visited ++ visited') last := by
  induction h with
  | stop state => exact h'
  | go state following visited last hstep _ ih => exact StateRuns.go _ _ _ _ hstep (ih h')

-- The search of one subtree.
theorem runs_states (chosen : Name) (todo : List Name) {frames last : List SearchFrame}
    {visited : List (List SearchFrame)}
    (hruns : Runs rules (root next chosen) (budget decision bound chosen) frames visited last) :
    StateRuns decision next bound ⟨chosen, todo, frames⟩
      (visited.map fun frames => ⟨chosen, todo, frames⟩) ⟨chosen, todo, last⟩ := by
  induction hruns with
  | stop frames => exact StateRuns.stop _
  | go frames frames' visited last hstep _ ih =>
      refine StateRuns.go _ _ _ _ ?_ ih
      obtain ⟨mid, hback, rfl⟩ := Option.map_eq_some_iff.mp hstep
      rw [stateStep, hback]

variable (decision next bound) in
-- The paths from the checkpoint on, in the order in which the search meets them.
def explored (chosen : Name) (todo : List Name) : List (List Name) :=
  (explore rules (root next chosen) (budget decision bound chosen)).map (chosen :: ·) ++
    if decision.price ≤ bound then
      todo.reverse.flatMap fun choice =>
        (explore rules (root next choice) (budget decision bound choice)).map (choice :: ·)
    else []

variable (decision next bound) in
theorem states_explored (chosen : Name) (todo : List Name) :
    ∃ visited last, StateRuns decision next bound (enter next chosen todo) visited last ∧
      stateStep decision next bound last = none ∧
      (enter next chosen todo :: visited).map pathFrom =
        explored decision next bound chosen todo := by
  induction todo using List.reverseRecOn generalizing chosen with
  | nil =>
      obtain ⟨visited, last, hruns, hpaths, hback⟩ := runs_explore rules (root next chosen)
        (budget decision bound chosen) (root next chosen) [] (Nat.zero_le _)
      refine ⟨_, _, runs_states chosen [] hruns, ?_, ?_⟩
      · rw [stateStep, hback]
        rfl
      · have hmap := congrArg (List.map (chosen :: ·)) hpaths
        simp only [List.map_map] at hmap
        simpa [explored, pathFrom, enter, Function.comp_def, spent, path] using hmap
  | append_singleton todo choice ih =>
      obtain ⟨visited, last, hruns, hpaths, hback⟩ := runs_explore rules (root next chosen)
        (budget decision bound chosen) (root next chosen) [] (Nat.zero_le _)
      have hmap := congrArg (List.map (chosen :: ·)) hpaths
      simp only [List.map_map] at hmap
      have hstates := runs_states chosen (todo ++ [choice]) hruns
      by_cases hprice : decision.price ≤ bound
      · obtain ⟨visited', last', hruns', hstop, hpaths'⟩ := ih choice
        have hstep : stateStep decision next bound ⟨chosen, todo ++ [choice], last⟩ =
            some (enter next choice todo) := by
          rw [stateStep, hback]
          simp [back, hprice]
        refine ⟨_, last', hstates.append (StateRuns.go _ _ _ _ hstep hruns'), hstop, ?_⟩
        rw [explored, if_pos hprice] at hpaths'
        rw [← List.cons_append, List.map_append, hpaths', explored, if_pos hprice]
        congr 1
        · simpa [pathFrom, enter, Function.comp_def, spent, path] using hmap
        · simp
      · refine ⟨_, _, hstates, ?_, ?_⟩
        · rw [stateStep, hback]
          simp [back, hprice]
        · rw [explored, if_neg hprice, List.append_nil]
          simpa [pathFrom, enter, Function.comp_def, spent, path] using hmap

variable (decision next bound) in
structure Proper (state : CheckpointState) : Prop where
  linked : Linked rules (root next state.chosen) state.frames
  spent : spent rules state.frames ≤ budget decision bound state.chosen
  charge : decision.charge state.chosen ≤ bound
  chosen : state.chosen ∈ decision.enabled
  todo : ∀ choice ∈ state.todo, choice ∈ decision.enabled

theorem proper_enter (chosen : Name) (todo : List Name) (hcharge : decision.charge chosen ≤ bound)
    (hchosen : chosen ∈ decision.enabled) (htodo : ∀ choice ∈ todo, choice ∈ decision.enabled) :
    Proper decision next bound (enter next chosen todo) := by
  refine ⟨?_, ?_, hcharge, hchosen, htodo⟩
  · exact (@Linked.descend _ _ _ rules (root next chosen) [] trivial (root next chosen) rfl).1
  · have hspent : spent rules (enter next chosen todo).frames = 0 := spent_descend [] _
    rw [hspent]
    exact Nat.zero_le _

theorem Proper.step {state following : CheckpointState} (h : Proper decision next bound state)
    (hstep : stateStep decision next bound state = some following) :
    Proper decision next bound following := by
  rw [stateStep] at hstep
  split at hstep
  · rename_i mid hback
    cases hstep
    have hmid := Linked.back h.linked hback
    refine ⟨(hmid.descend _ rfl).1, ?_, h.charge, h.chosen, h.todo⟩
    rw [spent_descend]
    exact spent_back hback
  · split at hstep
    · cases hstep
    · rename_i choice hlast
      split at hstep
      · rename_i hprice
        cases hstep
        exact proper_enter choice _ (Nat.le_trans (decision.charge_le_price choice).1 hprice)
          (h.todo choice (List.mem_of_getLast? hlast))
          fun c hc => h.todo c (List.dropLast_subset _ hc)
      · cases hstep

theorem StateRuns.proper {state last : CheckpointState} {visited : List CheckpointState}
    (hruns : StateRuns decision next bound state visited last)
    (h : Proper decision next bound state) :
    ∀ s ∈ state :: visited, Proper decision next bound s := by
  induction hruns with
  | stop state =>
      rw [List.forall_mem_singleton]
      exact h
  | go state following visited last hstep _ ih =>
      rw [List.forall_mem_cons]
      exact ⟨h, ih (h.step hstep)⟩

-- A frame that does not decide for the first possibility got its decision by backtracking.
theorem StateRuns.exists_back {state last : CheckpointState} {visited : List CheckpointState}
    (hruns : StateRuns decision next bound state visited last) (chosen : Name) (frame : SearchFrame)
    (below : List SearchFrame) (hother : frame.chosen ≠ rules.pick frame.info)
    (hstart : ¬ (state.chosen = chosen ∧ frame :: below <:+ state.frames))
    (found : CheckpointState) (hmem : found ∈ visited) (hchosen : found.chosen = chosen)
    (hsuffix : frame :: below <:+ found.frames) :
    ∃ s ∈ state :: visited, s.chosen = chosen ∧
      back rules (budget decision bound chosen) s.frames = some (frame :: below) := by
  induction hruns with
  | stop state => exact absurd hmem List.not_mem_nil
  | go state following visited last hstep _ ih =>
      by_cases hnext : following.chosen = chosen ∧ frame :: below <:+ following.frames
      · obtain ⟨hsame, hin⟩ := hnext
        refine ⟨state, List.mem_cons_self, ?_⟩
        rw [stateStep] at hstep
        split at hstep
        · rename_i mid hback
          cases hstep
          have hmid := suffix_descend mid below frame _ hother hin
          rcases suffix_back hback frame below hmid with heq | hbelow
          · subst hsame
            rw [← heq]
            exact ⟨rfl, hback⟩
          · exact absurd ⟨hsame, hbelow⟩ hstart
        · split at hstep
          · cases hstep
          · split at hstep
            · cases hstep
              have hnil := suffix_descend [] below frame _ hother hin
              simp at hnil
            · cases hstep
      · rcases List.mem_cons.mp hmem with rfl | hmem
        · exact absurd ⟨hchosen, hsuffix⟩ hnext
        · obtain ⟨s, hs, hback⟩ := ih hnext hmem
          exact ⟨s, List.mem_cons_of_mem _ hs, hback⟩

-- The stack that a state is left for, as long as the subtree is not searched.
theorem StateRuns.back_mem {state last : CheckpointState} {visited : List CheckpointState}
    (hruns : StateRuns decision next bound state visited last)
    (hstop : stateStep decision next bound last = none) (s : CheckpointState)
    (hmem : s ∈ state :: visited) (mid : List SearchFrame)
    (hback : back rules (budget decision bound s.chosen) s.frames = some mid) :
    ∃ found ∈ visited, found.chosen = s.chosen ∧ mid <:+ found.frames := by
  have hstep : stateStep decision next bound s =
      some { s with frames := descend rules mid (treeAt (root next s.chosen) mid) } := by
    rw [stateStep, hback]
  have hsuffix : mid <:+ descend rules mid (treeAt (root next s.chosen) mid) := by
    have happend := descend_append rules [] mid (treeAt (root next s.chosen) mid)
    rw [List.nil_append] at happend
    rw [happend]
    exact List.suffix_append _ _
  induction hruns with
  | stop state =>
      rw [List.mem_singleton.mp hmem, hstop] at hstep
      cases hstep
  | go state following visited last hgo _ ih =>
      rcases List.mem_cons.mp hmem with rfl | hmem
      · rw [hgo] at hstep
        cases hstep
        exact ⟨_, List.mem_cons_self, rfl, hsuffix⟩
      · obtain ⟨found, hfound, hsame⟩ := ih hstop hmem
        exact ⟨found, List.mem_cons_of_mem _ hfound, hsame⟩

-- A signal that is decided for another thread with nothing left of the budget, where its point
-- counts as a preemption while it is open.
def Flips : Info → (Name → SearchTree) → Name → Nat → Prop
  | .sched _ _, _, _, _ => False
  | .signal decision, next, signalled, left =>
      signalled ≠ decision.pick ∧ left = 0 ∧ decision.caller ∈ enabledAt (next decision.pick)

theorem openCharge_le (frames : List SearchFrame) : openCharge frames ≤ 1 := by
  cases frames with
  | nil => exact Nat.zero_le 1
  | cons frame rest =>
      cases hinfo : frame.info with
      | sched decision sig =>
          rw [openCharge_sched frame rest decision sig hinfo]
          exact Nat.zero_le 1
      | signal decision =>
          rw [openCharge_signal frame rest decision hinfo]
          split
          · exact Nat.le_refl 1
          · exact Nat.zero_le 1

-- The open signal is affordable unless it is such a flip.
theorem openCharge_iff (frame : SearchFrame) (below : List SearchFrame) (limit : Nat)
    (hother : frame.chosen ≠ rules.pick frame.info)
    (hspent : spent rules (frame :: below) ≤ limit) :
    spent rules (frame :: below) + openCharge (frame :: below) ≤ limit ↔
      ¬ Flips frame.info frame.next frame.chosen (limit - spent rules below) := by
  cases hinfo : frame.info with
  | sched decision sig =>
      rw [openCharge_sched frame below decision sig hinfo]
      exact iff_of_true hspent (fun h => h)
  | signal decision =>
      have hsplit : spent rules (frame :: below) = spent rules below := by
        have hfree : Frame.paid rules frame = 0 := by
          rw [Frame.paid, hinfo, charge_signal]
        simp [spent, hfree]
      have hpick : frame.chosen ≠ decision.pick := by
        rw [hinfo] at hother
        exact hother
      rw [openCharge_signal frame below decision hinfo, hsplit, Flips]
      rw [hsplit] at hspent
      split
      · rename_i hcaller
        constructor
        · rintro hle ⟨-, hleft, -⟩
          omega
        · intro hnot
          by_contra hlt
          exact hnot ⟨hpick, by omega, hcaller⟩
      · rename_i hcaller
        exact iff_of_true hspent fun h => hcaller h.2.2

variable (decision bound) in
-- The schedule that the search goes on with shows no more preemptions than allowed.
def Good (slack : Nat) (state : CheckpointState) : Prop :=
  ∀ mid, back rules (budget decision bound state.chosen) state.frames = some mid →
    decision.charge state.chosen + (spent rules mid + openCharge mid) ≤ bound + slack

theorem Good.mono {state : CheckpointState} {slack : Nat} (h : Good decision bound slack state)
    (slack' : Nat) (hle : slack ≤ slack') : Good decision bound slack' state := by
  intro mid hback
  have hwithin := h mid hback
  omega

theorem good_of_slack (state : CheckpointState) (h : Proper decision next bound state)
    (slack : Nat) (hslack : 1 ≤ slack) : Good decision bound slack state := by
  intro mid hback
  have hspent := spent_back hback
  have hopen := openCharge_le mid
  have hcharge := h.charge
  rw [budget] at hspent
  omega

-- Without slack, all schedules are good where no path flips a signal at the limit.
theorem good_iff (chosen : Name) (todo : List Name) (last : CheckpointState)
    (visited : List CheckpointState)
    (hruns : StateRuns decision next bound (enter next chosen todo) visited last)
    (hstop : stateStep decision next bound last = none)
    (hproper : Proper decision next bound (enter next chosen todo)) :
    (∀ s ∈ enter next chosen todo :: visited, Good decision bound 0 s) ↔
      ∀ s ∈ enter next chosen todo :: visited,
        ¬ Meets rules Flips (root next s.chosen) (path s.frames)
          (budget decision bound s.chosen) := by
  have hall := hruns.proper hproper
  have hmeets (s : CheckpointState) (hs : s ∈ enter next chosen todo :: visited) :
      Meets rules Flips (root next s.chosen) (path s.frames) (budget decision bound s.chosen) ↔
        ∃ frame below, frame :: below <:+ s.frames ∧ Flips frame.info frame.next frame.chosen
          (budget decision bound s.chosen - spent rules below) := by
    have hiff := @meets_iff _ _ _ rules _ Flips _ _ (hall s hs).linked
      (budget decision bound s.chosen) []
    rw [List.append_nil] at hiff
    rw [hiff]
    refine or_iff_left ?_
    cases treeAt (root next s.chosen) s.frames with
    | leaf error => exact fun h => h
    | node info next => exact fun h => h
  have hflip (frame : SearchFrame) (left : Nat)
      (h : Flips frame.info frame.next frame.chosen left) :
      frame.chosen ≠ rules.pick frame.info := by
    cases hinfo : frame.info with
    | sched decision sig =>
        rw [hinfo] at h
        exact False.elim h
    | signal decision =>
        rw [hinfo] at h
        exact h.1
  have hfresh (frame : SearchFrame) (below : List SearchFrame)
      (hother : frame.chosen ≠ rules.pick frame.info) :
      ¬ frame :: below <:+ (enter next chosen todo).frames := by
    intro hsuffix
    have hnil := suffix_descend [] below frame _ hother hsuffix
    simp at hnil
  constructor
  · intro hgood s hs hmeet
    obtain ⟨frame, below, hsuffix, hflips⟩ := (hmeets s hs).mp hmeet
    have hother := hflip frame _ hflips
    rcases List.mem_cons.mp hs with rfl | hvisited
    · exact hfresh frame below hother hsuffix
    · obtain ⟨left, hleft, hsame, hback⟩ := hruns.exists_back s.chosen frame below hother
        (fun h => hfresh frame below hother h.2) s hvisited rfl hsuffix
      rw [← hsame] at hback hflips
      have hwithin := hgood left hleft _ hback
      have hcharge := (hall left hleft).charge
      have hiff := openCharge_iff frame below _ hother (spent_back hback)
      rw [budget] at hiff hflips
      exact hiff.mp (by omega) hflips
  · intro hnone s hs mid hback
    obtain ⟨frame, below, rfl, hothers⟩ := back_others (hall s hs).linked hback
    have hother := pick_ne_of_mem_others rules frame.info frame.chosen hothers
    obtain ⟨found, hfound, hsame, hsuffix⟩ := hruns.back_mem hstop s hs _ hback
    have hiff := openCharge_iff frame below _ hother (spent_back hback)
    have hfine := hiff.mpr (fun hflips => hnone found (List.mem_cons_of_mem _ hfound)
      ((hmeets found (List.mem_cons_of_mem _ hfound)).mpr
        ⟨frame, below, hsuffix, by rw [hsame]; exact hflips⟩))
    have hcharge := (hall s hs).charge
    rw [budget] at hfine
    omega

theorem flipsAtLimit_toSearch (tree : DecisionTree) (path : List Name) (hpath : tree.IsPath path)
    (left : Nat) : tree.FlipsAtLimit path left ↔ Meets rules Flips tree.toSearch path left := by
  induction tree generalizing path left with
  | finished error => exact Iff.rfl
  | sched decision next ih =>
      cases path with
      | nil => exact False.elim hpath
      | cons chosen path =>
          rw [FlipsAtLimit, toSearch, Meets, charge_sched, ih chosen path hpath.2]
          exact (or_iff_right (fun h => h)).symm
  | signal decision after same_caller next ih =>
      rcases path with _ | ⟨signalled, _ | ⟨chosen, path⟩⟩
      · exact False.elim hpath
      · exact False.elim hpath
      · rw [FlipsAtLimit, toSearch, Meets, Meets, charge_signal, charge_sched,
          ih signalled chosen path hpath.2.2, Nat.sub_zero]
        exact or_congr_right (or_iff_right (fun h => h)).symm

variable (decision bound) in
-- The threads that the search tries at the checkpoint.
def order (chosen : Name) (todo : List Name) : List Name :=
  chosen :: if decision.price ≤ bound then todo.reverse else []

theorem explored_eq (chosen : Name) (todo : List Name) :
    explored decision next bound chosen todo = (order decision bound chosen todo).flatMap
      fun choice => (explore rules (root next choice) (budget decision bound choice)).map
        (choice :: ·) := by
  rw [explored, order, List.flatMap_cons]
  congr 1
  by_cases hprice : decision.price ≤ bound
  · rw [if_pos hprice, if_pos hprice]
  · rw [if_neg hprice, if_neg hprice, List.flatMap_nil]

-- The affordable ones of the enabled threads are tried, and no others.
theorem mem_order (chosen : Name) (hmem : chosen ∈ decision.enabled)
    (hcharge : decision.charge chosen ≤ bound) (choice : Name) :
    choice ∈ order decision bound chosen (decision.enabled.erase chosen) ↔
      choice ∈ decision.enabled ∧ decision.charge choice ≤ bound := by
  rw [order, List.mem_cons]
  by_cases heq : choice = chosen
  · subst heq
    exact iff_of_true (Or.inl rfl) ⟨hmem, hcharge⟩
  · have hle := decision.charge_le_price choice
    have hafford : decision.charge choice ≤ bound ↔ decision.price ≤ bound := by
      constructor
      · intro hchoice
        by_contra hprice
        have hfree : decision.charge chosen = 0 := by omega
        have hother := decision.charge_of_ne chosen choice heq hfree (by omega)
        omega
      · intro hprice
        omega
    rw [hafford, or_iff_right heq]
    by_cases hprice : decision.price ≤ bound
    · rw [if_pos hprice, List.mem_reverse, List.mem_erase_of_ne heq, and_iff_left hprice]
    · rw [if_neg hprice]
      exact iff_of_false List.not_mem_nil fun h => hprice h.2

theorem nodup_order (chosen : Name) :
    (order decision bound chosen (decision.enabled.erase chosen)).Nodup := by
  have hnodup := decision.nodup
  rw [order, List.nodup_cons]
  split
  · rw [List.mem_reverse, List.nodup_reverse]
    exact ⟨hnodup.not_mem_erase, hnodup.erase _⟩
  · exact ⟨List.not_mem_nil, List.nodup_nil⟩

theorem mem_explored (chosen : Name) (hmem : chosen ∈ decision.enabled)
    (hcharge : decision.charge chosen ≤ bound) (path : List Name) :
    path ∈ explored decision next bound chosen (decision.enabled.erase chosen) ↔
      (sched decision next).IsPath path ∧ (sched decision next).preemptions path ≤ bound := by
  rw [explored_eq, List.mem_flatMap]
  simp only [mem_order chosen hmem hcharge, List.mem_map, mem_explore, root, isPath_toSearch,
    cost_toSearch, budget]
  constructor
  · rintro ⟨choice, ⟨hchoice, hwithin⟩, rest, ⟨hpath, hcost⟩, rfl⟩
    refine ⟨⟨hchoice, hpath⟩, ?_⟩
    rw [preemptions, ← SchedDecision.charge]
    omega
  · rintro ⟨hpath, hcost⟩
    cases path with
    | nil => exact False.elim hpath
    | cons choice rest =>
        rw [preemptions, ← SchedDecision.charge] at hcost
        exact ⟨choice, ⟨hpath.1, by omega⟩, rest, ⟨hpath.2, by omega⟩, rfl⟩

theorem nodup_explored (chosen : Name) :
    (explored decision next bound chosen (decision.enabled.erase chosen)).Nodup := by
  rw [explored_eq, List.nodup_flatMap]
  constructor
  · intro choice _
    exact (nodup_explore rules _ _).map List.cons_injective
  · refine (nodup_order chosen).imp ?_
    intro a b hne path ha hb
    obtain ⟨_, _, rfl⟩ := List.mem_map.mp ha
    obtain ⟨_, _, heq⟩ := List.mem_map.mp hb
    exact hne (List.cons.inj heq).1.symm

theorem good_iff_flips (chosen : Name) (hmem : chosen ∈ decision.enabled)
    (hcharge : decision.charge chosen ≤ bound) (last : CheckpointState)
    (visited : List CheckpointState)
    (hruns : StateRuns decision next bound (enter next chosen (decision.enabled.erase chosen))
      visited last) (hstop : stateStep decision next bound last = none)
    (hpaths : (enter next chosen (decision.enabled.erase chosen) :: visited).map pathFrom =
      explored decision next bound chosen (decision.enabled.erase chosen)) :
    (∀ s ∈ enter next chosen (decision.enabled.erase chosen) :: visited,
        Good decision bound 0 s) ↔
      ∀ path ∈ explored decision next bound chosen (decision.enabled.erase chosen),
        ¬ (sched decision next).FlipsAtLimit path bound := by
  have hproper : Proper decision next bound
      (enter next chosen (decision.enabled.erase chosen)) :=
    proper_enter chosen _ hcharge hmem fun c hc => List.mem_of_mem_erase hc
  rw [good_iff chosen _ last visited hruns hstop hproper, ← hpaths]
  simp only [List.forall_mem_map]
  refine forall₂_congr fun s hs => not_congr ?_
  have hpath : pathFrom s ∈ explored decision next bound chosen (decision.enabled.erase chosen) := by
    rw [← hpaths]
    exact List.mem_map_of_mem hs
  obtain ⟨hpath, -⟩ := (mem_explored chosen hmem hcharge _).mp hpath
  exact (flipsAtLimit_toSearch (next s.chosen) (path s.frames) hpath.2 _).symm

end

namespace Reached

variable {tree : DecisionTree} {chosen : Name} {bound : Nat}

theorem allowed_explored (reached : Reached tree) (hone : tree.OneCheckpoint)
    (hmem : chosen ∈ reached.decision.enabled) (hcharge : reached.decision.charge chosen ≤ bound)
    (rest path : List Name) :
    tree.Allowed (Schedule.choices reached.front ++ chosen :: rest) bound path ↔
      path ∈ (explored reached.decision reached.next bound chosen
        (reached.decision.enabled.erase chosen)).map (Schedule.choices reached.front ++ ·) := by
  rw [reached.allowed_iff hone, List.mem_map]
  refine exists_congr fun later => ?_
  rw [mem_explored chosen hmem hcharge]
  exact ⟨fun h => ⟨h.2, h.1.symm⟩, fun h => ⟨h.2.symm, h.1⟩⟩

theorem flips_explored (reached : Reached tree) (hone : tree.OneCheckpoint)
    (hmem : chosen ∈ reached.decision.enabled) (hcharge : reached.decision.charge chosen ≤ bound)
    (rest : List Name) :
    (∀ path, tree.Allowed (Schedule.choices reached.front ++ chosen :: rest) bound path →
        ¬ tree.FlipsFromCheckpoint path bound) ↔
      ∀ path ∈ explored reached.decision reached.next bound chosen
          (reached.decision.enabled.erase chosen),
        ¬ (DecisionTree.sched reached.decision reached.next).FlipsAtLimit path bound := by
  simp only [reached.allowed_explored hone hmem hcharge rest, List.forall_mem_map]
  refine forall₂_congr fun path hpath => not_congr ?_
  obtain ⟨hpath, -⟩ := (mem_explored chosen hmem hcharge path).mp hpath
  cases path with
  | nil => exact False.elim hpath
  | cons choice path =>
      rw [FlipsFromCheckpoint, (reached.checkpoint choice path).2]

end Reached

end DecisionTree

end Thrille
