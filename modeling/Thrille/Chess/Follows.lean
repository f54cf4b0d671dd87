import Thrille.Chess.Regeneration
import Thrille.Chess.Results

namespace Thrille

namespace SchedulePoint

-- The names of a point that is read from a file are threads.
structure Named (x : SchedulePoint) : Prop where
  chosen : x.chosen ≠ none
  enabled : none ∉ x.enabled
  signal : ∀ info, x.signal = some info → info.signalled ≠ none ∧ none ∉ info.oncond

-- What the parser asserts of a point: its choices are among its alternatives.
structure Checked (x : SchedulePoint) : Prop where
  chosen : x.chosen ∈ x.enabled
  signalled : ∀ info, x.signal = some info → info.signalled ∈ info.oncond

-- A point that is no preemption.
structure Free (x : SchedulePoint) : Prop extends Checked x where
  free : x.caller ∈ x.enabled → x.caller = x.chosen

-- What a point decides: the thread that goes on, and the thread that is signalled.
def decision (x : SchedulePoint) : Name × List Name := (x.chosen, x.signalled)

end SchedulePoint

theorem Schedule.free_of_preemptions (points : List SchedulePoint)
    (hchecked : ∀ x ∈ points, x.Checked)
    (hpreemptions : ({ schedule := points } : Schedule)._getPreemptions = 0) :
    ∀ x ∈ points, x.Free := by
  intro x hx
  rw [Schedule._getPreemptions, List.countP_eq_zero] at hpreemptions
  have hfree := hpreemptions x hx
  refine ⟨hchecked x hx, fun hcaller => ?_⟩
  by_contra hne
  exact hfree (by simp [hne, hcaller])

-- A result that makes the decisions of a target, and what is behind them. The next thread of an
-- open signal is free; `buildSchedule` asserts that the thread that sends it is the same.
inductive Follows : List SchedulePoint → List SchedulePoint → List SchedulePoint → Prop
  | done (rest : List SchedulePoint) : Follows [] rest rest
  | point (x y : SchedulePoint) (target result rest : List SchedulePoint)
      (hchosen : x.chosen ≠ none) (hsame : y.decision = x.decision)
      (hrest : Follows target result rest) : Follows (x :: target) (y :: result) rest
  | openSignal (x y : SchedulePoint) (tail : List SchedulePoint) (hchosen : x.chosen = none)
      (hsignalled : y.signalled = x.signalled) (hcaller : y.caller = x.caller) :
      Follows [x] (y :: tail) (y :: tail)

-- A point without a signal has one element, a point with a signal one for each of its choices.
inductive ElementKind
  | plain
  | half
  | whole

namespace SearchStackElement

def kind (self : SearchStackElement) : ElementKind :=
  if self.issignal then .half else if self.schedule_point.isSignal then .whole else .plain

-- A signal element has a signal to choose for, and the choices of an element are threads.
structure Sound (element : SearchStackElement) : Prop where
  signal : element.issignal = true → element.schedule_point.isSignal = true
  chosen : element.chosen ≠ none
  todo : none ∉ element.todo

end SearchStackElement

namespace ChessSearchStack

open SearchStackElement

-- Whole points, from the bottom of a stack on.
inductive Closed : List ElementKind → Prop
  | nil : Closed []
  | plain (rest : List ElementKind) (hrest : Closed rest) : Closed (.plain :: rest)
  | pair (rest : List ElementKind) (hrest : Closed rest) : Closed (.half :: .whole :: rest)

-- Whole points, and perhaps a signal element on top.
def Shape (kinds : List ElementKind) : Prop :=
  Closed kinds ∨ ∃ front, kinds = front ++ [.half] ∧ Closed front

theorem Closed.append {front back : List ElementKind} (h : Closed front) (hback : Closed back) :
    Closed (front ++ back) := by
  induction h with
  | nil => exact hback
  | plain rest _ ih => exact Closed.plain _ ih
  | pair rest _ ih => exact Closed.pair _ ih

theorem Shape.plain {kinds : List ElementKind} (h : Shape kinds) : Shape (.plain :: kinds) := by
  rcases h with h | ⟨front, rfl, h⟩
  · exact Or.inl (Closed.plain _ h)
  · exact Or.inr ⟨.plain :: front, rfl, Closed.plain _ h⟩

theorem Shape.pair {kinds : List ElementKind} (h : Shape kinds) :
    Shape (.half :: .whole :: kinds) := by
  rcases h with h | ⟨front, rfl, h⟩
  · exact Or.inl (Closed.pair _ h)
  · exact Or.inr ⟨.half :: .whole :: front, rfl, Closed.pair _ h⟩

theorem Closed.pop {front : List ElementKind} {top : ElementKind} (h : Closed (front ++ [top])) :
    Shape front := by
  obtain ⟨kinds, hkinds⟩ : ∃ kinds, front ++ [top] = kinds := ⟨_, rfl⟩
  rw [hkinds] at h
  induction h generalizing front with
  | nil => simp at hkinds
  | plain rest _ ih =>
      cases front with
      | nil => exact Or.inl Closed.nil
      | cons kind front =>
          obtain ⟨rfl, hrest⟩ := List.cons.inj hkinds
          exact (ih hrest).plain
  | pair rest _ ih =>
      cases front with
      | nil => simp at hkinds
      | cons kind front =>
          obtain ⟨rfl, hbehind⟩ := List.cons.inj hkinds
          cases front with
          | nil => exact Or.inr ⟨[], rfl, Closed.nil⟩
          | cons kind' front =>
              obtain ⟨rfl, hrest⟩ := List.cons.inj hbehind
              exact (ih hrest).pair

theorem Shape.pop {front : List ElementKind} {top : ElementKind} (h : Shape (front ++ [top])) :
    Shape front := by
  rcases h with h | ⟨front', hfront, h⟩
  · exact h.pop
  · obtain ⟨rfl, -⟩ := List.append_inj' hfront rfl
    exact Or.inl h

theorem signal_of_plain {element : SearchStackElement} (h : element.kind = .plain) :
    element.makeSchedulePoint.signal = none := by
  unfold kind at h
  split_ifs at h with hkind hsignal
  rw [makeSchedulePoint, if_neg hkind]
  simpa [SchedulePoint.isSignal] using hsignal

theorem signal_of_half {element : SearchStackElement} (h : element.kind = .half)
    (hsound : element.Sound) :
    ∃ info, element.makeSchedulePoint.signal = some info ∧ info.signalled = element.chosen := by
  unfold kind at h
  split_ifs at h with hkind hsignal
  obtain ⟨info, hinfo⟩ := Option.isSome_iff_exists.mp (hsound.signal hkind)
  refine ⟨{ info with signalled := element.chosen }, ?_, rfl⟩
  rw [makeSchedulePoint, if_pos hkind, hinfo]
  rfl

theorem chosen_of_whole {element : SearchStackElement} (h : element.kind ≠ .half) :
    element.makeSchedulePoint.chosen = element.chosen := by
  unfold kind at h
  split_ifs at h with hkind hsignal
  · exact absurd rfl h
  · rw [makeSchedulePoint, if_neg hkind]
  · rw [makeSchedulePoint, if_neg hkind]

-- Two points join to the second one, or not at all.
theorem joinSignals_half (half point : SchedulePoint) (info : SignalInfo)
    (hhalf : half.signal = some info) (rest : List SchedulePoint) :
    joinSignals (half :: point :: rest) =
      if (point.signal.any fun following => following.signalled == info.signalled) ∧
          point.caller = half.caller then
        (joinSignals rest).map (point :: ·)
      else none := by
  rw [joinSignals, hhalf]
  cases hpoint : point.signal with
  | none => simp
  | some following =>
      by_cases hsignalled : following.signalled = info.signalled
      · by_cases hcaller : point.caller = half.caller
        · simp only [guard, hsignalled, hcaller, Option.bind_eq_bind, Option.bind_some, if_true,
            Option.pure_def, Option.any_some, beq_self_eq_true, and_self]
          cases joinSignals rest with
          | none => rfl
          | some points => rfl
        · simp only [guard, hsignalled, hcaller, Option.bind_eq_bind, Option.bind_some, if_true,
            if_false, Option.pure_def, and_false]
          rfl
      · simp [guard, hsignalled]

-- The made points of whole elements join by themselves, whatever comes after them.
theorem joinSignals_append (elements : List SearchStackElement)
    (hclosed : Closed (elements.map kind)) (hsound : ∀ x ∈ elements, x.Sound)
    (tail : List SchedulePoint) :
    joinSignals (elements.map (·.makeSchedulePoint) ++ tail) =
      (joinSignals (elements.map (·.makeSchedulePoint))).bind fun points =>
        (joinSignals tail).map (points ++ ·) := by
  obtain ⟨kinds, hkinds⟩ : ∃ kinds, elements.map kind = kinds := ⟨_, rfl⟩
  rw [hkinds] at hclosed
  induction hclosed generalizing elements with
  | nil =>
      rw [List.map_eq_nil_iff] at hkinds
      subst hkinds
      simp [joinSignals]
  | plain rest _ ih =>
      obtain ⟨x, elements, rfl, hx, hrest⟩ := List.map_eq_cons_iff.mp hkinds
      have hplain := signal_of_plain hx
      have hothers := ih elements (fun y hy => hsound y (List.mem_cons_of_mem x hy)) hrest
      rw [List.map_cons, List.cons_append, DecisionTree.joinSignals_cons _ _ hplain, hothers,
        DecisionTree.joinSignals_cons _ _ hplain]
      cases joinSignals (elements.map (·.makeSchedulePoint)) with
      | none => rfl
      | some points => simp [Function.comp_def]
  | pair rest _ ih =>
      obtain ⟨x, elements, rfl, hx, hrest⟩ := List.map_eq_cons_iff.mp hkinds
      obtain ⟨y, elements, rfl, hy, hrest⟩ := List.map_eq_cons_iff.mp hrest
      obtain ⟨info, hinfo, -⟩ := signal_of_half hx (hsound x List.mem_cons_self)
      have hothers := ih elements (fun z hz => hsound z
        (List.mem_cons_of_mem x (List.mem_cons_of_mem y hz))) hrest
      rw [List.map_cons, List.map_cons, List.cons_append, List.cons_append,
        joinSignals_half _ _ info hinfo, joinSignals_half _ _ info hinfo, hothers]
      split
      · cases joinSignals (elements.map (·.makeSchedulePoint)) with
        | none => rfl
        | some points => simp [Function.comp_def]
      · rfl

theorem sound_of_fresh {element : SearchStackElement} (h : element.Fresh)
    (hnamed : element.schedule_point.Named) : element.Sound := by
  cases hkind : element.issignal with
  | true =>
      obtain ⟨info, hinfo, -, hmem, htodo⟩ := h.signal hkind
      have hlisted := (hnamed.signal info hinfo).2
      refine ⟨fun _ => by simp [SchedulePoint.isSignal, hinfo], ?_, ?_⟩
      · exact fun hnone => hlisted (hnone ▸ hmem)
      · rw [htodo]
        exact fun hnone => hlisted (List.mem_of_mem_erase hnone)
  | false =>
      obtain ⟨-, hmem, htodo⟩ := h.sched hkind
      refine ⟨fun htrue => ?_, ?_, ?_⟩
      · rw [hkind] at htrue
        cases htrue
      · exact fun hnone => hnamed.enabled (hnone ▸ hmem)
      · rw [htodo]
        exact fun hnone => hnamed.enabled (List.mem_of_mem_erase hnone)

-- The elements of one point, and the point they join to.
theorem headElements_spec (x : SchedulePoint) (elements : List SearchStackElement)
    (h : headElements x = some elements) :
    Closed (elements.map kind) ∧
      (∀ element ∈ elements, element.Fresh ∧ element.schedule_point = x) ∧
      ∀ tail, joinSignals (elements.map (·.makeSchedulePoint) ++ tail) =
        (joinSignals tail).map (x :: ·) := by
  unfold headElements at h
  by_cases hsignal : x.isSignal = true
  · rw [if_pos hsignal] at h
    simp only [Option.bind_eq_bind, Option.bind_eq_some_iff, Option.map_eq_some_iff,
      Option.pure_def, Option.some.injEq] at h
    obtain ⟨_, ⟨half, hhalf, rfl⟩, whole, hwhole, rfl⟩ := h
    obtain ⟨hpoint, hkind, hfresh⟩ := new_spec x true half hhalf
    obtain ⟨hpoint', hkind', hfresh'⟩ := new_spec x false whole hwhole
    obtain ⟨info, hinfo⟩ := Option.isSome_iff_exists.mp hsignal
    refine ⟨?_, ?_, fun tail => ?_⟩
    · have hkinds : [half, whole].map kind = [.half, .whole] := by
        simp [kind, hkind, hkind', hpoint', hsignal]
      exact hkinds ▸ Closed.pair [] Closed.nil
    · intro element helement
      rcases List.mem_pair.mp helement with rfl | rfl
      · exact ⟨hfresh, hpoint⟩
      · exact ⟨hfresh', hpoint'⟩
    · simp only [List.map_cons, List.map_nil, List.cons_append, List.nil_append,
        hfresh.makeSchedulePoint, hfresh'.makeSchedulePoint, hpoint, hpoint']
      rw [joinSignals_half x x info hinfo, if_pos ⟨by simp [hinfo], rfl⟩]
  · rw [if_neg hsignal] at h
    simp only [Option.bind_eq_bind, Option.bind_some, Option.bind_eq_some_iff, Option.pure_def,
      Option.some.injEq] at h
    obtain ⟨whole, hwhole, rfl⟩ := h
    obtain ⟨hpoint, hkind, hfresh⟩ := new_spec x false whole hwhole
    refine ⟨?_, ?_, fun tail => ?_⟩
    · have hkinds : [whole].map kind = [.plain] := by
        simp [kind, hkind, hpoint, hsignal]
      exact hkinds ▸ Closed.plain [] Closed.nil
    · intro element helement
      rw [List.mem_singleton.mp helement]
      exact ⟨hfresh, hpoint⟩
    · simp only [List.nil_append, List.map_cons, List.map_nil, List.singleton_append,
        hfresh.makeSchedulePoint, hpoint]
      exact DecisionTree.joinSignals_cons x tail (by simpa [SchedulePoint.isSignal] using hsignal)

theorem elementsOf_spec (points : List SchedulePoint) (elements : List SearchStackElement)
    (h : elementsOf points = some elements) :
    Closed (elements.map kind) ∧
      (∀ element ∈ elements, element.Fresh ∧ element.schedule_point ∈ points) ∧
      ∀ tail, joinSignals (elements.map (·.makeSchedulePoint) ++ tail) =
        (joinSignals tail).map (points ++ ·) := by
  induction points generalizing elements with
  | nil =>
      cases h
      exact ⟨Closed.nil, nofun, fun tail => by simp⟩
  | cons x points ih =>
      simp only [elementsOf, Option.bind_eq_bind, Option.bind_eq_some_iff, Option.pure_def,
        Option.some.injEq] at h
      obtain ⟨first, hfirst, others, hothers, rfl⟩ := h
      obtain ⟨hclosed, hfresh, hjoin⟩ := headElements_spec x first hfirst
      obtain ⟨hclosed', hfresh', hjoin'⟩ := ih others hothers
      refine ⟨?_, ?_, fun tail => ?_⟩
      · rw [List.map_append]
        exact hclosed.append hclosed'
      · intro element helement
        rcases List.mem_append.mp helement with hmem | hmem
        · obtain ⟨helement, hpoint⟩ := hfresh element hmem
          exact ⟨helement, hpoint ▸ List.mem_cons_self⟩
        · obtain ⟨helement, hpoint⟩ := hfresh' element hmem
          exact ⟨helement, List.mem_cons_of_mem x hpoint⟩
      · rw [List.map_append, List.append_assoc, hjoin, hjoin', Option.map_map]
        rfl

theorem exists_elementsOf (points : List SchedulePoint) (hfree : ∀ x ∈ points, x.Free) :
    ∃ elements, elementsOf points = some elements := by
  induction points with
  | nil => exact ⟨[], rfl⟩
  | cons x points ih =>
      obtain ⟨others, hothers⟩ := ih fun y hy => hfree y (List.mem_cons_of_mem x hy)
      have hx := hfree x List.mem_cons_self
      obtain ⟨whole, hwhole⟩ := exists_new_sched x hx.chosen
      cases hsignal : x.signal with
      | none => simp [elementsOf, headElements, SchedulePoint.isSignal, hsignal, hwhole, hothers]
      | some info =>
          obtain ⟨half, hhalf⟩ := exists_new_signal x info hsignal (hx.signalled info hsignal)
          simp [elementsOf, headElements, SchedulePoint.isSignal, hsignal, hhalf, hwhole, hothers]

theorem isPreempt_of_free {element : SearchStackElement} (h : element.Fresh)
    (hfree : element.schedule_point.Free) : element.isPreempt = false := by
  cases hkind : element.issignal with
  | true => simp [isPreempt, hkind]
  | false =>
      rw [isPreempt, hkind, (h.sched hkind).1]
      by_cases hcaller : element.schedule_point.caller ∈ element.schedule_point.enabled
      · simp [hfree.free hcaller]
      · simp [hcaller]

theorem total_of_free (elements : List SearchStackElement)
    (h : ∀ element ∈ elements, element.Fresh ∧ element.schedule_point.Free) :
    total elements = 0 := by
  rw [total, List.countP_eq_zero]
  intro element helement
  obtain ⟨hfresh, hfree⟩ := h element helement
  simp [isPreempt_of_free hfresh hfree]

-- Free points can be pushed, and cost nothing.
theorem exists_elementsOf_free (points : List SchedulePoint) (hfree : ∀ x ∈ points, x.Free) :
    ∃ elements, elementsOf points = some elements ∧ total elements = 0 := by
  obtain ⟨elements, helements⟩ := exists_elementsOf points hfree
  obtain ⟨-, hfresh, -⟩ := elementsOf_spec points elements helements
  refine ⟨elements, helements, total_of_free elements fun element helement => ?_⟩
  obtain ⟨hnew, hpoint⟩ := hfresh element helement
  exact ⟨hnew, hfree _ hpoint⟩

-- What holds of a search stack between its operations.
structure Inv (search : ChessSearchStack) : Prop where
  counted : Counted search
  shape : Shape (search.stack.map kind)
  sound : ∀ element ∈ search.stack, element.Sound

theorem doWork_spec {element element' : SearchStackElement} (h : element.doWork = some element')
    (hsound : element.Sound) : element'.kind = element.kind ∧ element'.Sound := by
  have hpoint : element.chosenIsDone.schedule_point = element.schedule_point ∧
      element.chosenIsDone.issignal = element.issignal := by
    unfold chosenIsDone
    split
    · exact ⟨rfl, rfl⟩
    · exact ⟨rfl, rfl⟩
  unfold SearchStackElement.doWork at h
  cases hlast : element.todo.getLast? with
  | none =>
      rw [hlast] at h
      cases h
  | some choice =>
      have hmem : choice ∈ element.todo := List.mem_of_getLast? hlast
      obtain rfl : { element.chosenIsDone with
          chosen := choice, todo := element.todo.dropLast } = element' := by
        simp only [hlast, Option.bind_eq_bind, Option.bind_some] at h
        split at h
        · obtain ⟨info, -, h⟩ := Option.bind_eq_some_iff.mp h
          obtain ⟨-, -, h⟩ := Option.bind_eq_some_iff.mp h
          exact Option.some.inj h
        · obtain ⟨-, -, h⟩ := Option.bind_eq_some_iff.mp h
          exact Option.some.inj h
      refine ⟨?_, ?_, ?_, ?_⟩
      · simp only [kind, hpoint.1, hpoint.2]
      · intro hkind
        rw [hpoint.2] at hkind
        rw [hpoint.1]
        exact hsound.signal hkind
      · exact fun hnone => hsound.todo (hnone ▸ hmem)
      · exact fun hnone => hsound.todo (List.dropLast_subset _ hnone)

theorem Inv.pop {search : ChessSearchStack} (h : Inv search) (front : List SearchStackElement)
    (top : SearchStackElement) (hstack : search.stack = front ++ [top]) :
    search.pop = some (top, search.withStack front) ∧ Inv (search.withStack front) := by
  have hfits := h.counted.fits
  refine ⟨pop_eq h.counted.plain front top hstack hfits, h.counted.withStack front ?_, ?_, ?_⟩
  · rw [hstack, total_append] at hfits
    omega
  · have hshape := h.shape
    rw [hstack, List.map_append, List.map_singleton] at hshape
    exact hshape.pop
  · intro element helement
    refine h.sound element ?_
    rw [hstack]
    exact List.mem_append_left _ helement

-- A stack that comes out of `push`.
theorem push_some {search search' : ChessSearchStack} (hplain : search.checkpointed = false)
    (element : SearchStackElement) (h : search.push element = some search') :
    total (search.stack ++ [element]) ≤ search.preempt_bound ∧
      search' = search.withStack (search.stack ++ [element]) := by
  rw [push_eq hplain] at h
  split at h
  · rename_i hfits
    exact ⟨hfits, (Option.some.inj h).symm⟩
  · cases h

theorem Inv.nextSchedule {search search' : ChessSearchStack} {target : Schedule} (h : Inv search)
    (n : Nat) (hnext : search.nextSchedule n = some (some target, search')) :
    Inv search' ∧ search'.buildSchedule = some target ∧ search'.stack ≠ [] ∧
      search'.preempt_bound = search.preempt_bound ∧ search'.addrlist = search.addrlist := by
  induction n generalizing search with
  | zero => cases hnext
  | succ n ih =>
      rw [ChessSearchStack.nextSchedule] at hnext
      split at hnext
      · cases hnext
      · obtain ⟨⟨top, popped⟩, hpop, hnext⟩ := Option.bind_eq_some_iff.mp hnext
        have hne : search.stack ≠ [] := by
          intro hnil
          rw [ChessSearchStack.pop, hnil] at hpop
          cases hpop
        obtain ⟨front, last, hstack⟩ : ∃ front last, search.stack = front ++ [last] :=
          ⟨_, _, (List.dropLast_append_getLast hne).symm⟩
        obtain ⟨hpop', hinv⟩ := h.pop front last hstack
        rw [hpop', Option.some.injEq, Prod.mk.injEq] at hpop
        obtain ⟨rfl, rfl⟩ := hpop
        obtain ⟨work, -, hnext⟩ := Option.bind_eq_some_iff.mp hnext
        cases work with
        | false =>
            have hrest := ih hinv (by simpa using hnext)
            exact hrest
        | true =>
            obtain ⟨worked, hwork, hnext⟩ := Option.bind_eq_some_iff.mp hnext
            obtain ⟨pushed, hpush, hnext⟩ := Option.bind_eq_some_iff.mp hnext
            obtain ⟨sched, hbuild, hnext⟩ := Option.bind_eq_some_iff.mp hnext
            cases hnext
            obtain ⟨hkind, hsound⟩ := doWork_spec hwork (h.sound _ (by rw [hstack]; simp))
            obtain ⟨hfits, rfl⟩ := push_some hinv.counted.plain worked hpush
            refine ⟨⟨hinv.counted.withStack _ hfits, ?_, ?_⟩, hbuild, by simp, rfl, rfl⟩
            · have hshape := h.shape
              rw [hstack, List.map_append, List.map_singleton, ← hkind] at hshape
              simpa using hshape
            · intro element helement
              rcases List.mem_append.mp helement with hmem | hmem
              · exact hinv.sound element hmem
              · rw [List.mem_singleton.mp hmem]
                exact hsound

-- What is on the stack before, and what goes on top of it: whole points on whole points, or the
-- other half of a signal first.
theorem Inv.append {search : ChessSearchStack} (h : Inv search)
    (elements : List SearchStackElement)
    (hshape : Shape ((search.stack ++ elements).map kind)) (hsound : ∀ x ∈ elements, x.Sound)
    (hfits : total (search.stack ++ elements) ≤ search.preempt_bound) :
    Inv (search.withStack (search.stack ++ elements)) := by
  refine ⟨h.counted.withStack _ hfits, hshape, fun element helement => ?_⟩
  rcases List.mem_append.mp helement with hmem | hmem
  · exact h.sound element hmem
  · exact hsound element hmem

theorem stackTopIsDone_eq (search : ChessSearchStack) (front : List SearchStackElement)
    (top : SearchStackElement) (hstack : search.stack = front ++ [top]) :
    search.stackTopIsDone = some { search with stack := front ++ [top.chosenIsDone] } := by
  rw [stackTopIsDone, hstack, List.getLast?_concat, List.dropLast_concat]
  rfl

theorem chosenIsDone_spec (element : SearchStackElement) :
    element.chosenIsDone.kind = element.kind ∧
      element.chosenIsDone.makeSchedulePoint = element.makeSchedulePoint ∧
      element.chosenIsDone.isPreempt = element.isPreempt ∧
      element.chosenIsDone.chosen = element.chosen ∧
      element.chosenIsDone.todo = element.todo ∧
      (element.Sound → element.chosenIsDone.Sound) := by
  unfold chosenIsDone
  split
  · exact ⟨rfl, rfl, rfl, rfl, rfl, id⟩
  · exact ⟨rfl, rfl, rfl, rfl, rfl, fun h => ⟨h.signal, h.chosen, h.todo⟩⟩

-- The stack that `regenerate` goes on with once the top is done.
theorem Inv.stackTopIsDone {search : ChessSearchStack} (h : Inv search)
    (front : List SearchStackElement) (top : SearchStackElement)
    (hstack : search.stack = front ++ [top]) :
    search.stackTopIsDone = some (search.withStack (front ++ [top.chosenIsDone])) ∧
      Inv (search.withStack (front ++ [top.chosenIsDone])) := by
  obtain ⟨hkind, -, hpreempt, -, -, hsound⟩ := chosenIsDone_spec top
  have htotal : total (front ++ [top.chosenIsDone]) = total search.stack := by
    rw [hstack, total_append, total_append]
    simp [total, hpreempt]
  have hcurrent : search.withStack (front ++ [top.chosenIsDone]) =
      { search with stack := front ++ [top.chosenIsDone] } := by
    have hsearch := h.counted.current
    rw [withStack, htotal]
    rw [withStack] at hsearch
    rw [show total search.stack = search.current_preempts from
      congrArg ChessSearchStack.current_preempts hsearch]
  refine ⟨?_, h.counted.withStack _ (htotal ▸ h.counted.fits), ?_, ?_⟩
  · rw [hcurrent]
    exact stackTopIsDone_eq search front top hstack
  · have hshape := h.shape
    rw [hstack] at hshape
    simpa [hkind] using hshape
  · intro element helement
    rcases List.mem_append.mp helement with hmem | hmem
    · exact h.sound element (by rw [hstack]; exact List.mem_append_left _ hmem)
    · rw [List.mem_singleton.mp hmem]
      exact hsound (h.sound top (by simp [hstack]))

-- The last part of `regenerate`, on points that are all new.
theorem generate_merge {search : ChessSearchStack} (h : Counted search) (sched : Schedule)
    (haddr : sched.addrlist = search.addrlist) :
    ((search.generateSearchStack 0 sched).bind fun tmp_stack => search.mergeWith tmp_stack) =
      (elementsOf sched.schedule).bind fun elements =>
        if total elements = 0 then elements.foldlM push search else none := by
  have hempty : Counted (search.getEmptySearchStack 0 search.addrlist) :=
    ⟨h.plain, rfl, Nat.le_refl 0⟩
  rw [generateSearchStack, foldlM_pushPoint hempty]
  simp only [guard, if_pos haddr, Option.pure_def, Option.bind_eq_bind, Option.bind_some]
  cases elementsOf sched.schedule with
  | none => rfl
  | some elements =>
      simp only [Option.bind_some]
      rw [foldlM_push hempty]
      have hstack : (search.getEmptySearchStack 0 search.addrlist).stack ++ elements = elements :=
        rfl
      have hbound : (search.getEmptySearchStack 0 search.addrlist).preempt_bound = 0 := rfl
      rw [hstack, hbound]
      by_cases hzero : total elements = 0
      · have hle : total elements ≤ 0 := Nat.le_of_eq hzero
        rw [if_pos hle, if_pos hzero, Option.bind_some, mergeWith,
          mergeElements_eq h _ (hempty.withStack elements hle)]
        rfl
      · rw [if_neg (by omega), if_neg hzero]
        rfl

-- `regenerate` where the target leaves nothing open.
theorem regenerate_closed {search : ChessSearchStack} (h : Inv search)
    (front : List SearchStackElement) (top : SearchStackElement)
    (hstack : search.stack = front ++ [top]) (target result : Schedule) (out : List SchedulePoint)
    (hremains : result.getPostfixAfter target = some { result with schedule := out })
    (hdecided : ∀ x ∈ out.head?, ∀ info ∈ x.signal, info.signalled ≠ none)
    (haddr : result.addrlist = search.addrlist) :
    search.regenerate target result = (elementsOf out).bind fun elements =>
      if total elements = 0 then
        elements.foldlM push (search.withStack (front ++ [top.chosenIsDone]))
      else none := by
  obtain ⟨htop, hinv⟩ := h.stackTopIsDone front top hstack
  have hcheck := DecisionTree.checkForSplitSignal_decided
    (search.withStack (front ++ [top.chosenIsDone])) { result with schedule := out } hdecided
  rw [regenerate, hremains]
  simp only [Option.bind_eq_bind, Option.bind_some, htop, hcheck]
  exact generate_merge hinv.counted { result with schedule := out } haddr

-- `regenerate` where the target ends in an open signal.
theorem regenerate_open {search : ChessSearchStack} (h : Inv search)
    (front : List SearchStackElement) (top : SearchStackElement)
    (hstack : search.stack = front ++ [top]) (hkind : top.issignal = true)
    (target result : Schedule) (y : SchedulePoint) (info : SignalInfo) (tail : List SchedulePoint)
    (hremains : result.getPostfixAfter target = some { result with
      schedule := { y with signal := some { info with signalled := none } } :: tail })
    (haddr : result.addrlist = search.addrlist) :
    search.regenerate target result =
      (new { y with signal := some { info with signalled := top.chosen } } false).bind fun element =>
        ((search.withStack (front ++ [top.chosenIsDone])).push element).bind fun search' =>
          (elementsOf tail).bind fun elements =>
            if total elements = 0 then elements.foldlM push search' else none := by
  obtain ⟨htop, hinv⟩ := h.stackTopIsDone front top hstack
  obtain ⟨hpop, hfront⟩ := hinv.pop front top.chosenIsDone rfl
  obtain ⟨-, -, -, hchosen, -, -⟩ := chosenIsDone_spec top
  have hkind' : top.chosenIsDone.issignal = true := by
    unfold chosenIsDone
    split
    · exact hkind
    · exact hkind
  have hpush : ((search.withStack (front ++ [top.chosenIsDone])).withStack front).push
      top.chosenIsDone = some (search.withStack (front ++ [top.chosenIsDone])) := by
    rw [push_eq hfront.counted.plain]
    exact if_pos hinv.counted.fits
  rw [regenerate, hremains]
  simp only [Option.bind_eq_bind, Option.bind_some, htop, checkForSplitSignal, hpop, guard,
    if_pos hkind', Option.pure_def, hchosen, hpush]
  cases new { y with signal := some { info with signalled := top.chosen } } false with
  | none => rfl
  | some element =>
      simp only [Option.bind_some]
      cases hpush' : (search.withStack (front ++ [top.chosenIsDone])).push element with
      | none => rfl
      | some search' =>
          obtain ⟨hfits, rfl⟩ := push_some hinv.counted.plain element hpush'
          simp only [Option.bind_some]
          exact generate_merge (hinv.counted.withStack _ hfits) { result with schedule := tail } haddr

end ChessSearchStack

end Thrille
