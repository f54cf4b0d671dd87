import Mathlib.Data.List.Basic
import Mathlib.Data.List.Nodup
import Mathlib.Data.List.Induction
import Mathlib.Algebra.Ring.Nat

-- Depth-first search of a finite decision tree by a stack that holds one path of it. Decisions
-- other than the first one at a node have a price, and a path may cost no more than a bound.
namespace BoundedSearch

inductive Tree (ι α ε : Type)
  | leaf (outcome : ε)
  | node (info : ι) (next : α → Tree ι α ε)

-- What is decided first at a node, the other possibilities (tried from the last one on), and
-- what each of these others costs.
structure Rules (ι α : Type) where
  pick : ι → α
  others : ι → List α
  price : ι → Nat
  nodup : ∀ info, (pick info :: others info).Nodup

-- One node of the path, with the possibilities that are still to be tried there.
structure Frame (ι α ε : Type) where
  info : ι
  next : α → Tree ι α ε
  chosen : α
  todo : List α

section

variable {ι α ε : Type} (rules : Rules ι α)

def IsPath : Tree ι α ε → List α → Prop
  | .leaf _, path => path = []
  | .node _ _, [] => False
  | .node info next, choice :: path =>
      choice ∈ rules.pick info :: rules.others info ∧ IsPath (next choice) path

-- The affordable paths in the order in which the search meets them.
def explore : Tree ι α ε → Nat → List (List α)
  | .leaf _, _ => [[]]
  | .node info next, budget =>
      (explore (next (rules.pick info)) budget).map (rules.pick info :: ·) ++
        if rules.price info ≤ budget then
          (rules.others info).reverse.flatMap fun choice =>
            (explore (next choice) (budget - rules.price info)).map (choice :: ·)
        else []

theorem pick_ne_of_mem_others (info : ι) (choice : α) (hmem : choice ∈ rules.others info) :
    choice ≠ rules.pick info := by
  rintro rfl
  exact (List.nodup_cons.mp (rules.nodup info)).1 hmem

theorem nodup_explore (tree : Tree ι α ε) (budget : Nat) :
    (explore rules tree budget).Nodup := by
  induction tree generalizing budget with
  | leaf outcome => simp [explore]
  | node info next ih =>
      have hnodup := List.nodup_cons.mp (rules.nodup info)
      have hcons (choice : α) (k : Nat) :
          ((explore rules (next choice) k).map (choice :: ·)).Nodup :=
        (ih choice k).map (List.cons_injective)
      rw [explore, List.nodup_append]
      refine ⟨hcons _ _, ?_, ?_⟩
      · split
        · refine List.nodup_flatMap.mpr ⟨fun choice _ => hcons choice _, ?_⟩
          refine (List.nodup_reverse.mpr hnodup.2).imp ?_
          intro a b hne path ha hb
          obtain ⟨_, _, rfl⟩ := List.mem_map.mp ha
          obtain ⟨_, _, heq⟩ := List.mem_map.mp hb
          exact hne (List.cons.inj heq).1.symm
        · exact List.nodup_nil
      · intro path hpick other hother heq
        obtain ⟨_, _, rfl⟩ := List.mem_map.mp hpick
        split at hother
        · obtain ⟨choice, hmem, hpath⟩ := List.mem_flatMap.mp hother
          obtain ⟨_, _, rfl⟩ := List.mem_map.mp hpath
          have hsame : rules.pick info = choice := (List.cons.inj heq).1
          exact hnodup.1 (hsame ▸ List.mem_reverse.mp hmem)
        · exact absurd hother List.not_mem_nil

def Frame.fresh (info : ι) (next : α → Tree ι α ε) : Frame ι α ε :=
  { info, next, chosen := rules.pick info, todo := rules.others info }

def path (stack : List (Frame ι α ε)) : List α := (stack.map (·.chosen)).reverse

theorem path_cons (frame : Frame ι α ε) (rest : List (Frame ι α ε)) :
    path (frame :: rest) = path rest ++ [frame.chosen] := by
  simp only [path, List.map_cons, List.reverse_cons]

-- Walk down from the top of the stack along the first decisions.
def descend : List (Frame ι α ε) → Tree ι α ε → List (Frame ι α ε)
  | stack, .leaf _ => stack
  | stack, .node info next =>
      descend (Frame.fresh rules info next :: stack) (next (rules.pick info))

theorem descend_append (front back : List (Frame ι α ε)) (tree : Tree ι α ε) :
    descend rules (front ++ back) tree = descend rules front tree ++ back := by
  induction tree generalizing front with
  | leaf outcome => rfl
  | node info next ih => exact ih _ (Frame.fresh rules info next :: front)

-- The tree that is left below the top of the stack.
def treeAt (root : Tree ι α ε) : List (Frame ι α ε) → Tree ι α ε
  | [] => root
  | frame :: _ => frame.next frame.chosen

-- The frames are the nodes that their decisions lead to from the root.
def Linked (root : Tree ι α ε) : List (Frame ι α ε) → Prop
  | [] => True
  | frame :: rest => treeAt root rest = .node frame.info frame.next ∧
      frame.chosen ∈ rules.pick frame.info :: rules.others frame.info ∧
      (∀ c ∈ frame.todo, c ∈ rules.others frame.info) ∧ Linked root rest

variable {rules} in
theorem Linked.descend {root : Tree ι α ε} {stack : List (Frame ι α ε)}
    (hlinked : Linked rules root stack) (tree : Tree ι α ε) (htree : treeAt root stack = tree) :
    Linked rules root (descend rules stack tree) ∧
      ∃ outcome, treeAt root (BoundedSearch.descend rules stack tree) = .leaf outcome := by
  induction tree generalizing stack with
  | leaf outcome => exact ⟨hlinked, outcome, htree⟩
  | node info next ih =>
      exact ih (rules.pick info) ⟨htree, List.mem_cons_self, fun _ hmem => hmem, hlinked⟩ rfl

variable [DecidableEq α]

def charge (info : ι) (choice : α) : Nat :=
  if choice = rules.pick info then 0 else rules.price info

def cost : Tree ι α ε → List α → Nat
  | .leaf _, _ => 0
  | .node _ _, [] => 0
  | .node info next, choice :: path => charge rules info choice + cost (next choice) path

theorem charge_others (info : ι) (choice : α) (hmem : choice ∈ rules.others info) :
    charge rules info choice = rules.price info :=
  if_neg (pick_ne_of_mem_others rules info choice hmem)

theorem mem_explore (tree : Tree ι α ε) (budget : Nat) (path : List α) :
    path ∈ explore rules tree budget ↔ IsPath rules tree path ∧ cost rules tree path ≤ budget := by
  induction tree generalizing budget path with
  | leaf outcome => simp [explore, IsPath, cost]
  | node info next ih =>
      cases path with
      | nil => simp [explore, IsPath]
      | cons choice path =>
          simp only [explore, IsPath, cost, List.mem_append, List.mem_map, List.cons.injEq,
            List.mem_cons]
          by_cases hpick : choice = rules.pick info
          · have hcharge : charge rules info choice = 0 := if_pos hpick
            have hothers : choice ∉ rules.others info :=
              fun hmem => pick_ne_of_mem_others rules info choice hmem hpick
            subst hpick
            rw [hcharge, Nat.zero_add]
            simp [hothers, ih]
          · have hcharge : charge rules info choice = rules.price info := if_neg hpick
            rw [hcharge]
            split
            · rename_i hprice
              simp only [List.mem_flatMap, List.mem_reverse, List.mem_map, List.cons.injEq, hpick,
                false_or, ih, Ne.symm hpick, false_and, and_false, exists_false]
              constructor
              · rintro ⟨other, hmem, rest, ⟨hpath, hcost⟩, rfl, rfl⟩
                exact ⟨⟨hmem, hpath⟩, by omega⟩
              · rintro ⟨⟨hmem, hpath⟩, hcost⟩
                exact ⟨choice, hmem, path, ⟨hpath, by omega⟩, rfl, rfl⟩
            · rename_i hprice
              simp only [List.not_mem_nil, or_false, Ne.symm hpick, false_and, and_false,
                exists_false, false_iff, not_and]
              intro _
              omega

def Frame.paid (frame : Frame ι α ε) : Nat := charge rules frame.info frame.chosen

def spent (stack : List (Frame ι α ε)) : Nat := (stack.map (Frame.paid rules)).sum

-- Drop frames until one has an affordable possibility left, and decide for it.
def back (bound : Nat) : List (Frame ι α ε) → Option (List (Frame ι α ε))
  | [] => none
  | frame :: rest =>
      match frame.todo.getLast? with
      | none => back bound rest
      | some choice =>
          if spent rules rest + rules.price frame.info ≤ bound then
            some ({ frame with chosen := choice, todo := frame.todo.dropLast } :: rest)
          else back bound rest

def step (root : Tree ι α ε) (bound : Nat) (stack : List (Frame ι α ε)) :
    Option (List (Frame ι α ε)) :=
  (back rules bound stack).map fun stack => descend rules stack (treeAt root stack)

-- The stacks that the search passes after `stack`, up to `last`.
inductive Runs (root : Tree ι α ε) (bound : Nat) :
    List (Frame ι α ε) → List (List (Frame ι α ε)) → List (Frame ι α ε) → Prop
  | stop (stack : List (Frame ι α ε)) : Runs root bound stack [] stack
  | go (stack stack' : List (Frame ι α ε)) (visited : List (List (Frame ι α ε)))
      (last : List (Frame ι α ε)) : step rules root bound stack = some stack' →
      Runs root bound stack' visited last → Runs root bound stack (stack' :: visited) last

variable {rules}

theorem Runs.append {root : Tree ι α ε} {bound : Nat} {stack mid last : List (Frame ι α ε)}
    {visited visited' : List (List (Frame ι α ε))} (h : Runs rules root bound stack visited mid)
    (h' : Runs rules root bound mid visited' last) :
    Runs rules root bound stack (visited ++ visited') last := by
  induction h with
  | stop stack => exact h'
  | go stack stack' visited last hstep _ ih => exact Runs.go _ _ _ _ hstep (ih h')

variable (rules)

-- Backtracking into one node, as long as it has affordable possibilities: each of them has its
-- whole subtree searched (`ih`) before the next one is tried.
theorem runs_todo (root : Tree ι α ε) (bound : Nat) (info : ι) (next : α → Tree ι α ε)
    (rest : List (Frame ι α ε)) (todo : List α) (hothers : ∀ c ∈ todo, c ∈ rules.others info)
    (ih : ∀ c stack, spent rules stack ≤ bound → ∃ visited last,
      Runs rules root bound (descend rules stack (next c)) visited last ∧
      (descend rules stack (next c) :: visited).map path =
        (explore rules (next c) (bound - spent rules stack)).map (path stack ++ ·) ∧
      back rules bound last = back rules bound stack)
    (chosen : α) (start : List (Frame ι α ε)) (hspent : spent rules rest ≤ bound)
    (hstart : back rules bound start = back rules bound (⟨info, next, chosen, todo⟩ :: rest)) :
    ∃ visited last, Runs rules root bound start visited last ∧
      visited.map path = (if rules.price info ≤ bound - spent rules rest then
        todo.reverse.flatMap fun c =>
          (explore rules (next c) (bound - spent rules rest - rules.price info)).map
            (path rest ++ c :: ·) else []) ∧
      back rules bound last = back rules bound rest := by
  induction todo using List.reverseRecOn generalizing chosen start with
  | nil => exact ⟨[], start, Runs.stop start, by simp, hstart⟩
  | append_singleton todo c ihtodo =>
      have hc := hothers c (by simp)
      by_cases hprice : spent rules rest + rules.price info ≤ bound
      · let frame : Frame ι α ε := ⟨info, next, c, todo⟩
        have hback : back rules bound start = some (frame :: rest) := by
          rw [hstart, back]
          simp only [List.getLast?_append, List.getLast?_singleton, Option.some_or, hprice,
            if_true, List.dropLast_concat]
          rfl
        have hpaid : spent rules (frame :: rest) = spent rules rest + rules.price info := by
          simp only [spent, List.map_cons, List.sum_cons, Frame.paid, frame,
            charge_others rules info c hc]
          omega
        obtain ⟨visited, mid, hruns, hpaths, hmid⟩ := ih c (frame :: rest) (by omega)
        obtain ⟨visited', last, hruns', hpaths', hlast⟩ := ihtodo
          (fun c hmem => hothers c (by simp [hmem])) c mid hmid
        have hstep : step rules root bound start =
            some (descend rules (frame :: rest) (next c)) := by
          rw [step, hback]
          rfl
        refine ⟨_, last, (Runs.go _ _ _ _ hstep hruns).append hruns', ?_, hlast⟩
        have hbudget : bound - (spent rules rest + rules.price info) =
            bound - spent rules rest - rules.price info := by omega
        rw [List.map_append, hpaths, hpaths', hpaid, hbudget]
        have haffordable : rules.price info ≤ bound - spent rules rest := by omega
        simp only [haffordable, if_true, List.reverse_append, List.reverse_singleton,
          List.singleton_append, List.flatMap_cons, path_cons, frame, List.append_assoc]
      · refine ⟨[], start, Runs.stop start, ?_, ?_⟩
        · have hnot : ¬rules.price info ≤ bound - spent rules rest := by omega
          simp [hnot]
        · rw [hstart, back]
          simp only [List.getLast?_append, List.getLast?_singleton, Option.some_or, hprice,
            if_false]

-- The search of a subtree meets its affordable paths in order and leaves the stack below it
-- as it was.
theorem runs_explore (root : Tree ι α ε) (bound : Nat) (tree : Tree ι α ε)
    (stack : List (Frame ι α ε)) (hspent : spent rules stack ≤ bound) :
    ∃ visited last, Runs rules root bound (descend rules stack tree) visited last ∧
      (descend rules stack tree :: visited).map path =
        (explore rules tree (bound - spent rules stack)).map (path stack ++ ·) ∧
      back rules bound last = back rules bound stack := by
  induction tree generalizing stack with
  | leaf outcome =>
      exact ⟨[], stack, Runs.stop stack, by simp [descend, explore], rfl⟩
  | node info next ih =>
      let frame := Frame.fresh rules info next
      have hfree : spent rules (frame :: stack) = spent rules stack := by
        simp [spent, frame, Frame.paid, Frame.fresh, charge]
      obtain ⟨visited, mid, hruns, hpaths, hmid⟩ := ih (rules.pick info) (frame :: stack)
        (hfree ▸ hspent)
      obtain ⟨visited', last, hruns', hpaths', hlast⟩ := runs_todo rules root bound info next stack
        (rules.others info) (fun _ hmem => hmem) ih (rules.pick info) mid hspent hmid
      refine ⟨visited ++ visited', last, hruns.append hruns', ?_, hlast⟩
      rw [descend, ← List.cons_append, List.map_append, hpaths, hpaths', hfree, explore,
        List.map_append, List.map_map]
      congr 1
      · simp only [path_cons, List.append_assoc]
        rfl
      · split
        · simp only [List.map_flatMap, List.map_map]
          rfl
        · rfl

variable {rules}

theorem Linked.back {root : Tree ι α ε} {bound : Nat} {stack stack' : List (Frame ι α ε)}
    (hlinked : Linked rules root stack) (hback : back rules bound stack = some stack') :
    Linked rules root stack' := by
  induction stack with
  | nil => simp [BoundedSearch.back] at hback
  | cons frame rest ih =>
      obtain ⟨hnode, _, htodo, hrest⟩ := hlinked
      simp only [BoundedSearch.back] at hback
      split at hback
      · exact ih hrest hback
      · rename_i choice hlast
        split at hback
        · cases hback
          have hchoice := htodo choice (List.mem_of_getLast? hlast)
          exact ⟨hnode, List.mem_cons_of_mem _ hchoice,
            fun c hc => htodo c (List.dropLast_subset _ hc), hrest⟩
        · exact ih hrest hback

theorem spent_back {bound : Nat} {stack stack' : List (Frame ι α ε)}
    (hback : back rules bound stack = some stack') : spent rules stack' ≤ bound := by
  induction stack with
  | nil => simp [back] at hback
  | cons frame rest ih =>
      simp only [back] at hback
      split at hback
      · exact ih hback
      · split at hback
        · cases hback
          have hpaid (c : α) : charge rules frame.info c ≤ rules.price frame.info := by
            unfold charge
            split <;> omega
          simp only [spent, List.map_cons, List.sum_cons, Frame.paid] at *
          have := hpaid ‹α›
          omega
        · exact ih hback

theorem back_ne_nil {bound : Nat} {stack stack' : List (Frame ι α ε)}
    (hback : back rules bound stack = some stack') : stack' ≠ [] := by
  induction stack with
  | nil => simp [back] at hback
  | cons frame rest ih =>
      simp only [back] at hback
      split at hback
      · exact ih hback
      · split at hback
        · cases hback
          exact List.cons_ne_nil _ _
        · exact ih hback

theorem spent_descend (stack : List (Frame ι α ε)) (tree : Tree ι α ε) :
    spent rules (descend rules stack tree) = spent rules stack := by
  induction tree generalizing stack with
  | leaf outcome => rfl
  | node info next ih =>
      rw [descend, ih]
      simp [spent, Frame.paid, Frame.fresh, charge]

omit [DecidableEq α] in
-- Walking down adds frames on top that decide for the first possibility.
theorem suffix_descend (stack below : List (Frame ι α ε)) (frame : Frame ι α ε)
    (tree : Tree ι α ε) (hother : frame.chosen ≠ rules.pick frame.info)
    (hsuffix : frame :: below <:+ descend rules stack tree) : frame :: below <:+ stack := by
  induction tree generalizing stack with
  | leaf outcome => exact hsuffix
  | node info next ih =>
      rcases List.suffix_cons_iff.mp (ih _ _ hsuffix) with heq | hrest
      · rw [(List.cons.inj heq).1] at hother
        exact absurd rfl hother
      · exact hrest

-- Backtracking changes the frame that it stops at, and none below it.
theorem suffix_back {bound : Nat} {stack stack' : List (Frame ι α ε)}
    (hback : back rules bound stack = some stack') (frame : Frame ι α ε)
    (below : List (Frame ι α ε)) (hsuffix : frame :: below <:+ stack') :
    stack' = frame :: below ∨ frame :: below <:+ stack := by
  induction stack with
  | nil => simp [back] at hback
  | cons top rest ih =>
      have hrest (h : back rules bound rest = some stack') :
          stack' = frame :: below ∨ frame :: below <:+ top :: rest :=
        (ih h).imp_right fun hsuffix => hsuffix.trans (List.suffix_cons top rest)
      simp only [back] at hback
      split at hback
      · exact hrest hback
      · split at hback
        · cases hback
          rcases List.suffix_cons_iff.mp hsuffix with heq | hbelow
          · exact Or.inl heq.symm
          · exact Or.inr (hbelow.trans (List.suffix_cons top rest))
        · exact hrest hback

-- What backtracking decides for is not the first possibility.
theorem back_others {root : Tree ι α ε} {bound : Nat} {stack stack' : List (Frame ι α ε)}
    (hlinked : Linked rules root stack) (hback : back rules bound stack = some stack') :
    ∃ frame below, stack' = frame :: below ∧ frame.chosen ∈ rules.others frame.info := by
  induction stack with
  | nil => simp [back] at hback
  | cons top rest ih =>
      obtain ⟨_, _, htodo, hrest⟩ := hlinked
      simp only [back] at hback
      split at hback
      · exact ih hrest hback
      · rename_i choice hlast
        split at hback
        · cases hback
          exact ⟨_, rest, rfl, htodo choice (List.mem_of_getLast? hlast)⟩
        · exact ih hrest hback

variable (rules)

-- Some decision of the path is one that `bad` holds of, with what is left of the budget there.
def Meets (bad : ι → (α → Tree ι α ε) → α → Nat → Prop) : Tree ι α ε → List α → Nat → Prop
  | .node info next, choice :: path, budget =>
      bad info next choice budget ∨ Meets bad (next choice) path (budget - charge rules info choice)
  | _, _, _ => False

variable {rules}

theorem meets_iff {bad : ι → (α → Tree ι α ε) → α → Nat → Prop} {root : Tree ι α ε}
    {stack : List (Frame ι α ε)} (hlinked : Linked rules root stack) (budget : Nat)
    (path' : List α) :
    Meets rules bad root (path stack ++ path') budget ↔
      (∃ frame below, frame :: below <:+ stack ∧
        bad frame.info frame.next frame.chosen (budget - spent rules below)) ∨
      Meets rules bad (treeAt root stack) path' (budget - spent rules stack) := by
  induction stack generalizing path' with
  | nil => simp [path, spent, treeAt]
  | cons frame rest ih =>
      obtain ⟨hnode, _, _, hrest⟩ := hlinked
      have hsplit : budget - spent rules (frame :: rest) =
          budget - spent rules rest - charge rules frame.info frame.chosen := by
        simp only [spent, List.map_cons, List.sum_cons, Frame.paid]
        omega
      rw [path_cons, List.append_assoc, List.singleton_append, ih hrest, hnode, Meets, hsplit,
        ← or_assoc]
      apply or_congr_left
      constructor
      · rintro (⟨other, below, hsuffix, hbad⟩ | hbad)
        · exact ⟨other, below, hsuffix.trans (List.suffix_cons frame rest), hbad⟩
        · exact ⟨frame, rest, List.suffix_rfl, hbad⟩
      · rintro ⟨other, below, hsuffix, hbad⟩
        rcases List.suffix_cons_iff.mp hsuffix with heq | hbelow
        · obtain ⟨rfl, rfl⟩ := List.cons.inj heq
          exact Or.inr hbad
        · exact Or.inl ⟨other, below, hbelow, hbad⟩

end

end BoundedSearch
