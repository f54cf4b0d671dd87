import Thrille.Chess.SearchStack
import Mathlib.Data.List.Forall2

namespace Thrille

namespace ChessSearchStack

-- What `calculatePreemptions` counts in a plain search stack.
def total (elements : List SearchStackElement) : Nat := elements.countP (·.isPreempt)

theorem total_append (front back : List SearchStackElement) :
    total (front ++ back) = total front + total back :=
  List.countP_append

-- The stack with other elements, recounted.
def withStack (self : ChessSearchStack) (elements : List SearchStackElement) : ChessSearchStack :=
  { self with stack := elements, current_preempts := total elements }

@[simp] theorem withStack_stack (self : ChessSearchStack) (elements : List SearchStackElement) :
    (self.withStack elements).stack = elements := rfl

@[simp] theorem withStack_preempt_bound (self : ChessSearchStack)
    (elements : List SearchStackElement) :
    (self.withStack elements).preempt_bound = self.preempt_bound := rfl

@[simp] theorem withStack_checkpointed (self : ChessSearchStack)
    (elements : List SearchStackElement) :
    (self.withStack elements).checkpointed = self.checkpointed := rfl

@[simp] theorem withStack_addrlist (self : ChessSearchStack) (elements : List SearchStackElement) :
    (self.withStack elements).addrlist = self.addrlist := rfl

@[simp] theorem withStack_withStack (self : ChessSearchStack)
    (elements elements' : List SearchStackElement) :
    (self.withStack elements).withStack elements' = self.withStack elements' := rfl

-- A plain search stack whose count is up to date and within its bound.
structure Counted (search : ChessSearchStack) : Prop where
  plain : search.checkpointed = false
  current : search.withStack search.stack = search
  fits : total search.stack ≤ search.preempt_bound

section Operations

variable {search : ChessSearchStack}

theorem calculatePreemptions_eq (hplain : search.checkpointed = false) :
    search.calculatePreemptions =
      if total search.stack ≤ search.preempt_bound then some (search.withStack search.stack)
      else none := by
  rw [calculatePreemptions, hplain, calculatePreemptionsInRange, List.drop_zero, ← total]
  by_cases hfits : total search.stack ≤ search.preempt_bound
  · simp [guard, hfits, withStack, hplain]
  · simp only [guard, if_neg hfits, Bool.false_eq_true, if_false]
    rfl

theorem push_eq (hplain : search.checkpointed = false) (element : SearchStackElement) :
    search.push element =
      if total (search.stack ++ [element]) ≤ search.preempt_bound then
        some (search.withStack (search.stack ++ [element]))
      else none := by
  rw [push, calculatePreemptions_eq (by exact hplain)]
  by_cases hfits : total (search.stack ++ [element]) ≤ search.preempt_bound
  · simp [guard, hfits, withStack]
  · simp [hfits]

theorem pop_eq (hplain : search.checkpointed = false) (front : List SearchStackElement)
    (element : SearchStackElement) (hstack : search.stack = front ++ [element])
    (hfits : total search.stack ≤ search.preempt_bound) :
    search.pop = some (element, search.withStack front) := by
  have hfront : total front ≤ search.preempt_bound := by
    rw [hstack, total_append] at hfits
    omega
  rw [pop, calculatePreemptions_eq (by exact hplain), hstack, List.dropLast_concat,
    List.getLast?_concat]
  simp [hfront, withStack]

theorem popBottom_eq (hplain : search.checkpointed = false) (back : List SearchStackElement)
    (element : SearchStackElement) (hstack : search.stack = element :: back)
    (hfits : total search.stack ≤ search.preempt_bound) :
    search.popBottom = some (element, search.withStack back) := by
  have hback : total back ≤ search.preempt_bound := by
    rw [hstack, ← List.singleton_append, total_append] at hfits
    omega
  rw [popBottom, calculatePreemptions_eq (by exact hplain), hstack, List.tail_cons, List.head?_cons]
  simp [hback, withStack]

theorem Counted.withStack (h : Counted search) (elements : List SearchStackElement)
    (hfits : total elements ≤ search.preempt_bound) : Counted (search.withStack elements) :=
  ⟨h.plain, rfl, hfits⟩

-- Elements go on top one by one, and the count only grows.
theorem foldlM_push (h : Counted search) (elements : List SearchStackElement) :
    elements.foldlM push search =
      if total (search.stack ++ elements) ≤ search.preempt_bound then
        some (search.withStack (search.stack ++ elements))
      else none := by
  induction elements generalizing search with
  | nil =>
      rw [List.append_nil, if_pos h.fits, h.current]
      rfl
  | cons element elements ih =>
      rw [List.foldlM_cons, push_eq h.plain]
      have hsplit : search.stack ++ element :: elements = search.stack ++ [element] ++ elements := by
        rw [List.append_assoc, List.singleton_append]
      have hgrows := total_append (search.stack ++ [element]) elements
      rw [hsplit]
      by_cases hfits : total (search.stack ++ [element]) ≤ search.preempt_bound
      · rw [if_pos hfits]
        exact ih (h.withStack _ hfits)
      · rw [if_neg hfits, if_neg (by omega)]
        rfl

theorem mergeElements_eq (h : Counted search) (other : ChessSearchStack) (hother : Counted other) :
    search.mergeElements other other.stack.length = other.stack.foldlM push search := by
  obtain ⟨elements, helements⟩ : ∃ elements, other.stack = elements := ⟨_, rfl⟩
  induction elements generalizing search other with
  | nil =>
      rw [helements]
      rfl
  | cons element elements ih =>
      have hpop := popBottom_eq hother.plain elements element helements hother.fits
      have hfits : total elements ≤ other.preempt_bound := by
        have hother' := hother.fits
        rw [helements, ← List.singleton_append, total_append] at hother'
        omega
      rw [helements, List.length_cons, mergeElements, hpop, List.foldlM_cons]
      simp only [Option.bind_eq_bind, Option.bind_some]
      rw [push_eq h.plain]
      split
      · rename_i hpush
        exact ih (h.withStack _ hpush) _ (hother.withStack elements hfits) rfl
      · rfl

end Operations

-- The elements that the points of a schedule are split into.
def headElements (x : SchedulePoint) : Option (List SearchStackElement) := do
  let half ← if x.isSignal then (SearchStackElement.new x true).map ([·]) else some []
  let whole ← SearchStackElement.new x false
  return half ++ [whole]

def elementsOf : List SchedulePoint → Option (List SearchStackElement)
  | [] => some []
  | x :: rest => do
      let elements ← headElements x
      let others ← elementsOf rest
      return elements ++ others

theorem pushPoint_eq {search : ChessSearchStack} (x : SchedulePoint) :
    search.pushPoint x = (headElements x).bind fun elements => elements.foldlM push search := by
  rw [pushPoint, pushSignal, headElements]
  by_cases hsignal : x.isSignal = true
  · rw [if_pos hsignal, if_pos hsignal]
    cases SearchStackElement.new x true with
    | none => rfl
    | some half =>
        cases hpush : search.push half with
        | none =>
            cases SearchStackElement.new x false with
            | none => simp [hpush]
            | some whole => simp [hpush]
        | some search' =>
            cases SearchStackElement.new x false with
            | none => simp [hpush]
            | some whole => simp [hpush]
  · rw [if_neg hsignal, if_neg hsignal]
    cases SearchStackElement.new x false with
    | none => rfl
    | some whole => simp

theorem foldlM_pushPoint {search : ChessSearchStack} (h : Counted search)
    (points : List SchedulePoint) :
    points.foldlM pushPoint search =
      (elementsOf points).bind fun elements => elements.foldlM push search := by
  induction points generalizing search with
  | nil => rfl
  | cons x points ih =>
      rw [List.foldlM_cons, pushPoint_eq, elementsOf]
      cases headElements x with
      | none => rfl
      | some elements =>
          simp only [Option.bind_eq_bind, Option.bind_some]
          cases hpush : elements.foldlM push search with
          | none =>
              cases elementsOf points with
              | none => rfl
              | some others => simp [hpush]
          | some search' =>
              have hcounted : Counted search' := by
                rw [foldlM_push h] at hpush
                split at hpush
                · rename_i hfits
                  cases hpush
                  exact h.withStack _ hfits
                · cases hpush
              rw [Option.bind_some, ih hcounted]
              cases elementsOf points with
              | none => rfl
              | some others => simp [hpush]

end ChessSearchStack

namespace SearchStackElement

-- The element as the constructor leaves it, up to the threads that are done.
structure Fresh (element : SearchStackElement) : Prop where
  signal : element.issignal = true → ∃ info, element.schedule_point.signal = some info ∧
    element.chosen = info.signalled ∧ element.chosen ∈ info.oncond ∧
    element.todo = info.oncond.erase element.chosen
  sched : element.issignal = false → element.chosen = element.schedule_point.chosen ∧
    element.chosen ∈ element.schedule_point.enabled ∧
    element.todo = element.schedule_point.enabled.erase element.chosen

theorem new_spec (x : SchedulePoint) (issignal : Bool) (element : SearchStackElement)
    (h : new x issignal = some element) :
    element.schedule_point = x ∧ element.issignal = issignal ∧ element.Fresh := by
  unfold new at h
  cases issignal with
  | true =>
      cases hsignal : x.signal with
      | none => simp [hsignal] at h
      | some info =>
          by_cases hmem : info.signalled ∈ info.oncond
          · simp only [if_true, hsignal, Option.map_some, Option.bind_eq_bind, Option.bind_some,
              guard, if_pos hmem, Option.pure_def, Option.some.injEq] at h
            subst h
            exact ⟨rfl, rfl, fun _ => ⟨info, hsignal, rfl, hmem, rfl⟩, nofun⟩
          · simp only [if_true, hsignal, Option.map_some, Option.bind_eq_bind, Option.bind_some,
              guard, if_neg hmem] at h
            cases h
  | false =>
      by_cases hmem : x.chosen ∈ x.enabled
      · simp only [Bool.false_eq_true, if_false, Option.bind_eq_bind, Option.bind_some, guard,
          if_pos hmem, Option.pure_def, Option.some.injEq] at h
        subst h
        exact ⟨rfl, rfl, nofun, fun _ => ⟨rfl, hmem, rfl⟩⟩
      · simp only [Bool.false_eq_true, if_false, Option.bind_eq_bind, Option.bind_some, guard,
          if_neg hmem] at h
        cases h

theorem exists_new_sched (x : SchedulePoint) (hmem : x.chosen ∈ x.enabled) :
    ∃ element, new x false = some element :=
  ⟨_, by simp [new, guard, hmem]; rfl⟩

theorem exists_new_signal (x : SchedulePoint) (info : SignalInfo) (hsignal : x.signal = some info)
    (hmem : info.signalled ∈ info.oncond) : ∃ element, new x true = some element :=
  ⟨_, by simp [new, hsignal, guard, hmem]; rfl⟩

-- A fresh element makes the point that it was made from.
theorem Fresh.makeSchedulePoint {element : SearchStackElement} (h : element.Fresh) :
    element.makeSchedulePoint = element.schedule_point := by
  unfold SearchStackElement.makeSchedulePoint
  cases hkind : element.issignal with
  | true =>
      obtain ⟨info, hsignal, hchosen, -⟩ := h.signal hkind
      rw [if_pos rfl, hsignal, hchosen]
      show ({ element.schedule_point with signal := some info } : SchedulePoint) = _
      rw [← hsignal]
  | false =>
      rw [if_neg Bool.false_ne_true, (h.sched hkind).1]

end SearchStackElement

end Thrille
