import Thrille.Chess.Christos
import Thrille.Chess.Theorems

namespace Thrille

namespace ChessSearchStack

-- The bottom of a stack that the search does not leave: some elements and the checkpoint on them.
structure Bottom where
  below : List SearchStackElement
  checkpoint : SearchStackElement

namespace Bottom

def elements (bottom : Bottom) : List SearchStackElement := bottom.below ++ [bottom.checkpoint]

def cost (bottom : Bottom) : Nat := if bottom.checkpoint.isPreempt then 1 else 0

-- The elements make `points`, whatever is above them.
structure Sound (bottom : Bottom) (points : List SchedulePoint) : Prop where
  ne : bottom.below ≠ []
  unmarked : ∀ e ∈ bottom.below, e.ischeckpoint = false
  marked : bottom.checkpoint.ischeckpoint = true
  joins : ∀ rest, joinSignals (bottom.elements.map (·.makeSchedulePoint) ++ rest) =
    (joinSignals rest).map (points ++ ·)
  chosen : ∀ x ∈ points, x.chosen ≠ none

end Bottom

theorem deepestCheckpoint_unmarked (stack : List SearchStackElement)
    (hunmarked : ∀ e ∈ stack, e.ischeckpoint = false) (i : Nat) : deepestCheckpoint stack i = 0 := by
  induction i with
  | zero => rfl
  | succ i ih =>
      have hnone : ¬ (stack[i + 1]?).any (·.ischeckpoint) = true := by
        rw [Option.any_eq_true]
        rintro ⟨e, he, hmarked⟩
        rw [hunmarked e (List.mem_of_getElem? he)] at hmarked
        cases hmarked
      rw [deepestCheckpoint, if_neg hnone, ih]

theorem deepestCheckpoint_append (below upper : List SearchStackElement)
    (checkpoint : SearchStackElement) (hne : below ≠ [])
    (hmarked : checkpoint.ischeckpoint = true) (hunmarked : ∀ e ∈ upper, e.ischeckpoint = false)
    (i : Nat) (hlow : below.length ≤ i) :
    deepestCheckpoint (below ++ checkpoint :: upper) i = below.length := by
  induction i with
  | zero =>
      have hpos := List.length_pos_of_ne_nil hne
      omega
  | succ i ih =>
      rw [deepestCheckpoint]
      by_cases hhere : below.length = i + 1
      · have hmark : ((below ++ checkpoint :: upper)[i + 1]?).any (·.ischeckpoint) = true := by
          rw [← hhere, List.getElem?_append_right (Nat.le_refl _), Nat.sub_self]
          exact hmarked
        rw [if_pos hmark, hhere]
      · have hnone : ¬ ((below ++ checkpoint :: upper)[i + 1]?).any (·.ischeckpoint) = true := by
          rw [List.getElem?_append_right hlow]
          obtain ⟨k, hk⟩ : ∃ k, i + 1 - below.length = k + 1 := ⟨i - below.length, by omega⟩
          rw [hk, List.getElem?_cons_succ, Option.any_eq_true]
          rintro ⟨e, he, hmark⟩
          rw [hunmarked e (List.mem_of_getElem? he)] at hmark
          cases hmark
        rw [if_neg hnone, ih (by omega)]

-- The stack `search` of a checkpointed search has the stack `inner` of a plain one on its bottom.
structure Aligned (bottom : Bottom) (search inner : ChessSearchStack) : Prop where
  checkpointed : search.checkpointed = true
  plain : inner.checkpointed = false
  stack : search.stack = bottom.elements ++ inner.stack
  bound : search.preempt_bound = bottom.cost + inner.preempt_bound
  addrlist : search.addrlist = inner.addrlist
  unmarked : ∀ e ∈ inner.stack, e.ischeckpoint = false

structure Above (bottom : Bottom) (search inner : ChessSearchStack) : Prop
    extends Aligned bottom search inner where
  current : search.current_preempts = bottom.cost + inner.current_preempts

section

variable {bottom : Bottom} {points : List SchedulePoint} {search inner inner' : ChessSearchStack}

theorem calculatePreemptions_plain (inner : ChessSearchStack)
    (hplain : inner.checkpointed = false) (hcalc : inner.calculatePreemptions = some inner') :
    inner' = { inner with current_preempts := inner.stack.countP (·.isPreempt) } ∧
      inner.stack.countP (·.isPreempt) ≤ inner.preempt_bound := by
  rw [calculatePreemptions, hplain, if_neg Bool.false_ne_true, calculatePreemptionsInRange,
    List.drop_zero] at hcalc
  by_cases hle : inner.stack.countP (·.isPreempt) ≤ inner.preempt_bound
  · simp only [guard, hle, if_true] at hcalc
    cases hcalc
    exact ⟨by rw [hplain], hle⟩
  · simp [guard, hle] at hcalc

theorem Aligned.calculatePreemptions (hsound : bottom.Sound points)
    (h : Aligned bottom search inner) (hcalc : inner.calculatePreemptions = some inner') :
    ∃ search', search.calculatePreemptions = some search' ∧ Above bottom search' inner' := by
  obtain ⟨rfl, hle⟩ := calculatePreemptions_plain inner h.plain hcalc
  have hstack : search.stack = bottom.below ++ bottom.checkpoint :: inner.stack := by
    rw [h.stack, Bottom.elements, List.append_assoc, List.singleton_append]
  have hdeepest : deepestCheckpoint search.stack (search.stack.length - 1) =
      bottom.below.length := by
    rw [hstack]
    apply deepestCheckpoint_append _ _ _ hsound.ne hsound.marked h.unmarked
    rw [List.length_append, List.length_cons]
    omega
  have hpos := List.length_pos_of_ne_nil hsound.ne
  have hcount : search.calculatePreemptionsInRange bottom.below.length =
      bottom.cost + inner.stack.countP (·.isPreempt) := by
    rw [calculatePreemptionsInRange, hstack, List.drop_left, List.countP_cons, Bottom.cost]
    exact Nat.add_comm _ _
  have hbound : bottom.cost + inner.stack.countP (·.isPreempt) ≤ search.preempt_bound := by
    rw [h.bound]
    omega
  refine ⟨{ search with current_preempts := bottom.cost + inner.stack.countP (·.isPreempt) }, ?_,
    { h with current := rfl }⟩
  rw [ChessSearchStack.calculatePreemptions, if_pos h.checkpointed,
    calculatePreemptionsFromDeepestCheckpoint, hdeepest]
  simp only [if_neg (Nat.ne_of_gt hpos), hcount, guard, hbound, if_true]
  rfl

theorem push_eq_some (search search' : ChessSearchStack) (element : SearchStackElement) :
    search.push element = some search' ↔
      { search with stack := search.stack ++ [element] }.calculatePreemptions = some search' ∧
        search'.current_preempts ≤ search'.preempt_bound := by
  rw [push]
  cases { search with stack := search.stack ++ [element] }.calculatePreemptions with
  | none => simp
  | some counted =>
      by_cases hle : counted.current_preempts ≤ counted.preempt_bound
      · simp only [Option.bind_eq_bind, Option.bind_some, guard, hle, if_true, Option.pure_def,
          Option.some.injEq]
        exact ⟨fun h => ⟨h, h ▸ hle⟩, fun h => h.1⟩
      · constructor
        · intro h
          simp only [Option.bind_eq_bind, Option.bind_some, guard, if_neg hle] at h
          cases h
        · rintro ⟨heq, hle'⟩
          cases heq
          exact absurd hle' hle

theorem Above.push (hsound : bottom.Sound points) (h : Above bottom search inner)
    (element : SearchStackElement) (hunmarked : element.ischeckpoint = false)
    (hpush : inner.push element = some inner') :
    ∃ search', search.push element = some search' ∧ Above bottom search' inner' := by
  obtain ⟨hcalc, hle⟩ := (push_eq_some inner inner' element).mp hpush
  have haligned : Aligned bottom { search with stack := search.stack ++ [element] }
      { inner with stack := inner.stack ++ [element] } := by
    refine { h.toAligned with stack := ?_, unmarked := ?_ }
    · rw [h.stack, List.append_assoc]
    · intro e he
      rcases List.mem_append.mp he with he | he
      · exact h.unmarked e he
      · rw [List.mem_singleton.mp he]
        exact hunmarked
  obtain ⟨search', hcalc', habove⟩ := haligned.calculatePreemptions hsound hcalc
  refine ⟨search', (push_eq_some search search' element).mpr ⟨hcalc', ?_⟩, habove⟩
  rw [habove.current, habove.bound]
  omega

theorem pop_stack (hplain : inner.checkpointed = false) {element : SearchStackElement}
    (hpop : inner.pop = some (element, inner')) : inner'.stack = inner.stack.dropLast := by
  rw [ChessSearchStack.pop] at hpop
  simp only [Option.bind_eq_bind, Option.bind_eq_some_iff, Option.pure_def, Option.some.injEq,
    Prod.mk.injEq] at hpop
  obtain ⟨-, -, counted, hcalc, -, rfl⟩ := hpop
  rw [(calculatePreemptions_plain { inner with stack := inner.stack.dropLast } hplain hcalc).1]

theorem Above.pop (hsound : bottom.Sound points) (h : Above bottom search inner)
    (element : SearchStackElement) (hpop : inner.pop = some (element, inner')) :
    ∃ search', search.pop = some (element, search') ∧ Above bottom search' inner' ∧
      element.ischeckpoint = false := by
  rw [ChessSearchStack.pop] at hpop
  simp only [Option.bind_eq_bind, Option.bind_eq_some_iff, Option.pure_def, Option.some.injEq,
    Prod.mk.injEq] at hpop
  obtain ⟨top, htop, counted, hcalc, rfl, rfl⟩ := hpop
  obtain ⟨rest, hrest⟩ := List.getLast?_eq_some_iff.mp htop
  have haligned : Aligned bottom { search with stack := search.stack.dropLast }
      { inner with stack := inner.stack.dropLast } := by
    refine { h.toAligned with stack := ?_, unmarked := ?_ }
    · rw [h.stack, hrest, ← List.append_assoc, List.dropLast_concat, List.dropLast_concat]
    · exact fun e he => h.unmarked e (List.dropLast_subset _ he)
  obtain ⟨search', hcalc', habove⟩ := haligned.calculatePreemptions hsound hcalc
  refine ⟨search', ?_, habove, h.unmarked top (List.mem_of_getLast? htop)⟩
  have htop' : search.stack.getLast? = some top := by
    rw [h.stack, hrest, ← List.append_assoc, List.getLast?_concat]
  rw [ChessSearchStack.pop, htop']
  simp [hcalc']

theorem Above.isWorkToDo (h : Above bottom search inner) (element : SearchStackElement) :
    search.isWorkToDo element = inner.isWorkToDo element := by
  rw [ChessSearchStack.isWorkToDo, ChessSearchStack.isWorkToDo, h.current, h.bound]
  simp only [Nat.add_lt_add_iff_left, Nat.add_left_cancel_iff]

theorem doWork_ischeckpoint (element element' : SearchStackElement)
    (hwork : element.doWork = some element') :
    element'.ischeckpoint = element.ischeckpoint := by
  have hdone (e : SearchStackElement) : e.chosenIsDone.ischeckpoint = e.ischeckpoint := by
    rw [SearchStackElement.chosenIsDone]
    split
    · rfl
    · rfl
  rw [SearchStackElement.doWork] at hwork
  simp only [Option.bind_eq_bind, Option.bind_eq_some_iff] at hwork
  obtain ⟨chosen, -, hwork⟩ := hwork
  split at hwork
  · simp only [Option.bind_eq_some_iff] at hwork
    obtain ⟨info, -, _, -, hwork⟩ := hwork
    cases hwork
    exact hdone element
  · simp only [Option.bind_eq_some_iff] at hwork
    obtain ⟨_, -, hwork⟩ := hwork
    cases hwork
    exact hdone element

theorem Above.buildSchedule (hsound : bottom.Sound points) (h : Above bottom search inner)
    (target : Schedule) (hbuild : inner.buildSchedule = some target) :
    search.buildSchedule = some { target with schedule := points ++ target.schedule } := by
  rw [ChessSearchStack.buildSchedule] at hbuild ⊢
  simp only [Option.bind_eq_bind, Option.bind_eq_some_iff, Option.pure_def,
    Option.some.injEq] at hbuild
  obtain ⟨joined, hjoined, rfl⟩ := hbuild
  rw [h.stack, List.map_append, hsound.joins, hjoined, h.addrlist]
  rfl

theorem Above.isSearchComplete (hsound : bottom.Sound points) (h : Above bottom search inner) :
    search.isSearchComplete = false := by
  rw [ChessSearchStack.isSearchComplete, if_pos h.checkpointed, h.stack, List.all_eq_false]
  refine ⟨bottom.checkpoint, ?_, by simp [hsound.marked]⟩
  rw [Bottom.elements]
  simp

-- The part of the loop above the checkpoint goes as in the plain search.
theorem Above.nextSchedule (hsound : bottom.Sound points) (k n : Nat) (found : Option Schedule)
    (h : Above bottom search inner) (hlength : inner.stack.length = n)
    (hnext : inner.nextSchedule n = some (found, inner')) :
    ∃ search', Above bottom search' inner' ∧
      (found = none → inner'.stack = [] ∧ search.nextSchedule (n + k) = search'.nextSchedule k) ∧
      ∀ target, found = some target → search.nextSchedule (n + k) =
        some (some { target with schedule := points ++ target.schedule }, search') := by
  induction n generalizing search inner with
  | zero =>
      cases hnext
      refine ⟨search, h, fun _ => ⟨List.length_eq_zero_iff.mp hlength, by rw [Nat.zero_add]⟩, ?_⟩
      intro target htarget
      cases htarget
  | succ n ih =>
      have hincomplete : inner.isSearchComplete = false := by
        rw [ChessSearchStack.isSearchComplete, if_neg (by rw [h.plain]; decide),
          List.isEmpty_eq_false_iff]
        exact List.ne_nil_of_length_eq_add_one hlength
      have hincomplete' := h.isSearchComplete hsound
      rw [ChessSearchStack.nextSchedule, hincomplete] at hnext
      simp only [Bool.false_eq_true, if_false, Option.bind_eq_bind, Option.bind_eq_some_iff]
        at hnext
      obtain ⟨⟨element, popped⟩, hpop, work, hwork, hnext⟩ := hnext
      obtain ⟨search', hpop', habove, hunmarked⟩ := h.pop hsound element hpop
      simp only [show n + 1 + k = n + k + 1 by omega, ChessSearchStack.nextSchedule,
        hincomplete', hpop', Bool.false_eq_true, if_false, Option.bind_eq_bind, Option.bind_some,
        habove.isWorkToDo, hwork]
      cases work with
      | false =>
          have hlength' : popped.stack.length = n := by
            rw [pop_stack h.plain hpop, List.length_dropLast, hlength, Nat.add_sub_cancel]
          simpa using ih habove hlength' (by simpa using hnext)
      | true =>
          simp only [if_true, Option.bind_eq_some_iff] at hnext
          obtain ⟨worked, hdo, pushed, hpush, target, hbuild, heq⟩ := hnext
          cases heq
          obtain ⟨search'', hpush', habove'⟩ := habove.push hsound worked
            ((doWork_ischeckpoint element worked hdo).trans hunmarked) hpush
          refine ⟨search'', habove', ?_, ?_⟩
          · intro hnone
            cases hnone
          · intro found hfound
            cases hfound
            simp [hdo, hpush', habove'.buildSchedule hsound target hbuild]

theorem new_ischeckpoint (point : SchedulePoint) (issignal : Bool) (element : SearchStackElement)
    (hnew : SearchStackElement.new point issignal = some element) :
    element.ischeckpoint = point.isCheckpoint := by
  rw [SearchStackElement.new] at hnew
  cases issignal with
  | false =>
      simp only [Bool.false_eq_true, if_false, Option.bind_eq_bind, Option.bind_eq_some_iff,
        Option.pure_def, Option.some.injEq] at hnew
      obtain ⟨-, -, -, -, rfl⟩ := hnew
      rfl
  | true =>
      simp only [if_true, Option.bind_eq_bind, Option.bind_eq_some_iff, Option.pure_def,
        Option.some.injEq] at hnew
      obtain ⟨-, -, -, -, rfl⟩ := hnew
      rfl

-- What a push does alike to two stacks, the pushes of whole points do too.
section

variable {R : ChessSearchStack → ChessSearchStack → Prop}
  (hpush : ∀ search inner inner' element, R search inner → element.ischeckpoint = false →
    inner.push element = some inner' → ∃ search', search.push element = some search' ∧
      R search' inner')

include hpush

theorem pushPoint_alike (h : R search inner) (point : SchedulePoint)
    (hunmarked : point.isCheckpoint = false) (hpoint : inner.pushPoint point = some inner') :
    ∃ search', search.pushPoint point = some search' ∧ R search' inner' := by
  rw [pushPoint, Option.bind_eq_bind, Option.bind_eq_some_iff] at hpoint
  obtain ⟨signalled, hsignal, hpoint⟩ := hpoint
  obtain ⟨search', hsignal', hR⟩ : ∃ search', search.pushSignal point = some search' ∧
      R search' signalled := by
    rw [pushSignal] at hsignal ⊢
    split at hsignal
    · rename_i hkind
      rw [Option.bind_eq_bind, Option.bind_eq_some_iff] at hsignal
      obtain ⟨tmp, hnew, htmp⟩ := hsignal
      rw [if_pos hkind, hnew]
      exact hpush search inner signalled tmp h
        ((new_ischeckpoint point true tmp hnew).trans hunmarked) htmp
    · rename_i hkind
      cases hsignal
      rw [if_neg hkind]
      exact ⟨search, rfl, h⟩
  rw [Option.bind_eq_bind, Option.bind_eq_some_iff] at hpoint
  obtain ⟨tmp, hnew, htmp⟩ := hpoint
  rw [pushPoint, hsignal', Option.bind_eq_bind, Option.bind_some, hnew]
  exact hpush search' signalled inner' tmp hR
    ((new_ischeckpoint point false tmp hnew).trans hunmarked) htmp

theorem foldlM_pushPoint_alike (h : R search inner) (sched : List SchedulePoint)
    (hunmarked : ∀ x ∈ sched, x.isCheckpoint = false)
    (hsched : sched.foldlM pushPoint inner = some inner') :
    ∃ search', sched.foldlM pushPoint search = some search' ∧ R search' inner' := by
  induction sched generalizing search inner with
  | nil =>
      cases hsched
      exact ⟨search, rfl, h⟩
  | cons point rest ih =>
      rw [List.foldlM_cons, Option.bind_eq_bind, Option.bind_eq_some_iff] at hsched
      obtain ⟨pushed, hpoint, hrest⟩ := hsched
      obtain ⟨search', hpoint', hR⟩ :=
        pushPoint_alike hpush h point (hunmarked point List.mem_cons_self) hpoint
      obtain ⟨search'', hrest', hR'⟩ :=
        ih hR (fun x hx => hunmarked x (List.mem_cons_of_mem point hx)) hrest
      refine ⟨search'', ?_, hR'⟩
      rw [List.foldlM_cons, hpoint']
      exact hrest'

end

-- As long as no checkpoint is on the stack nothing is counted.
theorem calculatePreemptions_unmarked (search : ChessSearchStack)
    (hcheckpointed : search.checkpointed = true)
    (hunmarked : ∀ e ∈ search.stack, e.ischeckpoint = false) :
    search.calculatePreemptions = some search := by
  have hcomplete : search.isSearchComplete = true := by
    rw [isSearchComplete, if_pos hcheckpointed, List.all_eq_true]
    intro e he
    rw [hunmarked e he]
    rfl
  rw [calculatePreemptions, if_pos hcheckpointed, calculatePreemptionsFromDeepestCheckpoint,
    deepestCheckpoint_unmarked _ hunmarked]
  simp [hcomplete]

-- A checkpointed stack without a checkpoint, and a plain one with the same elements.
structure Idle (search inner : ChessSearchStack) : Prop where
  checkpointed : search.checkpointed = true
  plain : inner.checkpointed = false
  stack : search.stack = inner.stack
  current : search.current_preempts = 0
  unmarked : ∀ e ∈ inner.stack, e.ischeckpoint = false

theorem Idle.push (element : SearchStackElement) (h : Idle search inner)
    (hunmarked : element.ischeckpoint = false) (hpush : inner.push element = some inner') :
    ∃ search', search.push element = some search' ∧ Idle search' inner' := by
  obtain ⟨hcalc, -⟩ := (push_eq_some inner inner' element).mp hpush
  obtain ⟨rfl, -⟩ := calculatePreemptions_plain { inner with stack := inner.stack ++ [element] }
    h.plain hcalc
  have hall : ∀ e ∈ inner.stack ++ [element], e.ischeckpoint = false := by
    intro e he
    rcases List.mem_append.mp he with he | he
    · exact h.unmarked e he
    · rw [List.mem_singleton.mp he]
      exact hunmarked
  refine ⟨{ search with stack := search.stack ++ [element] }, (push_eq_some _ _ _).mpr ⟨?_, ?_⟩,
    h.checkpointed, h.plain, by rw [h.stack], h.current, hall⟩
  · refine calculatePreemptions_unmarked { search with stack := search.stack ++ [element] }
      h.checkpointed ?_
    rw [h.stack]
    exact hall
  · rw [h.current]
    exact Nat.zero_le _

theorem Idle.popBottom (element : SearchStackElement) (h : Idle search inner)
    (hpop : inner.popBottom = some (element, inner')) :
    ∃ search', search.popBottom = some (element, search') ∧ Idle search' inner' ∧
      element.ischeckpoint = false := by
  rw [ChessSearchStack.popBottom] at hpop
  simp only [Option.bind_eq_bind, Option.bind_eq_some_iff, Option.pure_def, Option.some.injEq,
    Prod.mk.injEq] at hpop
  obtain ⟨bottom, hbottom, counted, hcalc, rfl, rfl⟩ := hpop
  obtain ⟨rfl, -⟩ := calculatePreemptions_plain { inner with stack := inner.stack.tail }
    h.plain hcalc
  have hall : ∀ e ∈ inner.stack.tail, e.ischeckpoint = false :=
    fun e he => h.unmarked e (List.mem_of_mem_tail he)
  have hcalc' : { search with stack := search.stack.tail }.calculatePreemptions =
      some { search with stack := search.stack.tail } := by
    refine calculatePreemptions_unmarked { search with stack := search.stack.tail }
      h.checkpointed ?_
    rw [h.stack]
    exact hall
  refine ⟨{ search with stack := search.stack.tail }, ?_,
    ⟨h.checkpointed, h.plain, by rw [h.stack], h.current, hall⟩,
    h.unmarked bottom (List.mem_of_mem_head? hbottom)⟩
  rw [ChessSearchStack.popBottom, h.stack, hbottom, ← h.stack]
  simp [hcalc']

theorem Above.mergeElements (hsound : bottom.Sound points) (n : Nat)
    {other other' : ChessSearchStack} (h : Above bottom search inner) (hother : Idle other other')
    (hmerge : inner.mergeElements other' n = some inner') :
    ∃ search', search.mergeElements other n = some search' ∧ Above bottom search' inner' := by
  induction n generalizing search inner other other' with
  | zero =>
      cases hmerge
      exact ⟨search, rfl, h⟩
  | succ n ih =>
      rw [ChessSearchStack.mergeElements] at hmerge
      simp only [Option.bind_eq_bind, Option.bind_eq_some_iff] at hmerge
      obtain ⟨⟨tmp, popped⟩, hpop, pushed, hpush, hmerge⟩ := hmerge
      obtain ⟨other'', hpop', hidle, hunmarked⟩ := hother.popBottom tmp hpop
      obtain ⟨search', hpush', habove⟩ := h.push hsound tmp hunmarked hpush
      obtain ⟨search'', hmerge', habove'⟩ := ih habove hidle hmerge
      refine ⟨search'', ?_, habove'⟩
      rw [ChessSearchStack.mergeElements, hpop']
      simp only [Option.bind_eq_bind, Option.bind_some, hpush', hmerge']

-- The part of `regenerate` behind the split, where the postfix has no checkpoint.
theorem Above.merge (hsound : bottom.Sound points) (h : Above bottom search inner)
    (sched : Schedule) (hunmarked : ∀ x ∈ sched.schedule, x.isCheckpoint = false)
    (tmp : ChessSearchStack) (hgenerate : inner.generateSearchStack 0 sched = some tmp)
    (hmerge : inner.mergeWith tmp = some inner') :
    ∃ tmp' search', search.generateSearchStack 0 sched = some tmp' ∧
      search.mergeWith tmp' = some search' ∧ Above bottom search' inner' := by
  rw [generateSearchStack, Option.bind_eq_bind, Option.bind_eq_some_iff] at hgenerate
  obtain ⟨hguard, haddr, hgenerate⟩ := hgenerate
  have hempty : Idle (search.getEmptySearchStack 0 search.addrlist)
      (inner.getEmptySearchStack 0 inner.addrlist) :=
    ⟨h.checkpointed, h.plain, rfl, rfl, fun e he => absurd he List.not_mem_nil⟩
  obtain ⟨tmp', htmp, hidle⟩ := foldlM_pushPoint_alike
    (fun _ _ _ element h => Idle.push element h) hempty sched.schedule hunmarked hgenerate
  obtain ⟨search', hmerge', habove⟩ := h.mergeElements hsound tmp.stack.length hidle hmerge
  refine ⟨tmp', search', ?_, ?_, habove⟩
  · rw [generateSearchStack, h.addrlist, haddr, ← h.addrlist]
    exact htmp
  · rw [mergeWith, hidle.stack]
    exact hmerge'

theorem postfixAfter_unmarked (mutable_me mutable_target result : List SchedulePoint)
    (hunmarked : ∀ x ∈ mutable_me, x.isCheckpoint = false)
    (hresult : Schedule.postfixAfter mutable_me mutable_target = some result) :
    ∀ x ∈ result, x.isCheckpoint = false := by
  induction mutable_me, mutable_target using Schedule.postfixAfter.induct with
  | case1 mutable_me =>
      rw [Schedule.postfixAfter] at hresult
      cases hresult
      exact hunmarked
  | case2 head tail => cases hresult
  | case3 my_el mutable_me other_el mutable_target info hsignal ih =>
      have hrest : ∀ x ∈ mutable_me, x.isCheckpoint = false :=
        fun x hx => hunmarked x (List.mem_cons_of_mem my_el hx)
      rw [Schedule.postfixAfter, hsignal] at hresult
      simp only [Option.bind_eq_bind, Option.bind_eq_some_iff] at hresult
      obtain ⟨other, -, _, -, hresult⟩ := hresult
      split at hresult
      · simp only [Option.bind_eq_some_iff, Option.pure_def, Option.some.injEq] at hresult
        obtain ⟨_, -, rfl⟩ := hresult
        intro x hx
        rcases List.mem_cons.mp hx with rfl | hx
        · exact hunmarked my_el List.mem_cons_self
        · exact hrest x hx
      · simp only [Option.bind_eq_some_iff] at hresult
        obtain ⟨_, -, hresult⟩ := hresult
        exact ih hrest hresult
  | case4 my_el mutable_me other_el mutable_target hsignal ih =>
      rw [Schedule.postfixAfter, hsignal] at hresult
      simp only [Option.bind_eq_bind, Option.bind_eq_some_iff] at hresult
      obtain ⟨_, -, hresult⟩ := hresult
      exact ih (fun x hx => hunmarked x (List.mem_cons_of_mem my_el hx)) hresult

-- The points of the bottom are at the front of both schedules.
theorem getPostfixAfter_append (hchosen : ∀ x ∈ points, x.chosen ≠ none) (target result : Schedule)
    (found : Schedule) (hfound : result.getPostfixAfter target = some found) :
    Schedule.getPostfixAfter { result with schedule := points ++ result.schedule }
      { target with schedule := points ++ target.schedule } = some found := by
  rw [Schedule.getPostfixAfter] at hfound ⊢
  simp only [Option.bind_eq_bind, Option.bind_eq_some_iff] at hfound
  obtain ⟨_, hlength, _, haddr, mutable_me, hafter, hfound⟩ := hfound
  have hlength' : (guard ((points ++ target.schedule).length ≤
      (points ++ result.schedule).length) : Option Unit) = some () := by
    rw [List.length_append, List.length_append]
    simpa using hlength
  rw [DecisionTree.postfixAfter_append points _ _ hchosen, hafter, hlength', haddr]
  exact hfound

theorem Above.stackTopIsDone (h : Above bottom search inner)
    (hdone : inner.stackTopIsDone = some inner') :
    ∃ search', search.stackTopIsDone = some search' ∧ Above bottom search' inner' := by
  rw [ChessSearchStack.stackTopIsDone] at hdone
  simp only [Option.bind_eq_bind, Option.bind_eq_some_iff, Option.pure_def,
    Option.some.injEq] at hdone
  obtain ⟨top, htop, rfl⟩ := hdone
  obtain ⟨rest, hrest⟩ := List.getLast?_eq_some_iff.mp htop
  have htop' : search.stack.getLast? = some top := by
    rw [h.stack, hrest, ← List.append_assoc, List.getLast?_concat]
  refine ⟨{ search with stack := search.stack.dropLast ++ [top.chosenIsDone] }, ?_,
    { h with stack := ?_, unmarked := ?_ }⟩
  · rw [ChessSearchStack.stackTopIsDone, htop']
    rfl
  · rw [h.stack, hrest, ← List.append_assoc, List.dropLast_concat, List.dropLast_concat,
      List.append_assoc]
  · intro e he
    rcases List.mem_append.mp he with he | he
    · exact h.unmarked e (List.dropLast_subset _ he)
    · rw [List.mem_singleton.mp he, SearchStackElement.chosenIsDone]
      have hmark := h.unmarked top (List.mem_of_getLast? htop)
      split
      · exact hmark
      · exact hmark

theorem Above.checkForSplitSignal (hsound : bottom.Sound points) (h : Above bottom search inner)
    (sched rest : Schedule) (hunmarked : ∀ x ∈ sched.schedule, x.isCheckpoint = false)
    (hcheck : inner.checkForSplitSignal sched = some (inner', rest)) :
    ∃ search', search.checkForSplitSignal sched = some (search', rest) ∧
      Above bottom search' inner' ∧ ∀ x ∈ rest.schedule, x.isCheckpoint = false := by
  rw [ChessSearchStack.checkForSplitSignal] at hcheck ⊢
  split at hcheck
  · rename_i hnil
    cases hcheck
    exact ⟨search, rfl, h, hunmarked⟩
  · rename_i tmp later hsched
    have htmp : tmp.isCheckpoint = false :=
      hunmarked tmp (by rw [hsched]; exact List.mem_cons_self)
    have hlater : ∀ x ∈ later, x.isCheckpoint = false :=
      fun x hx => hunmarked x (by rw [hsched]; exact List.mem_cons_of_mem tmp hx)
    split at hcheck
    · rename_i cond oncond hsignal
      simp only [Option.bind_eq_bind, Option.bind_eq_some_iff, Option.pure_def,
        Option.some.injEq, Prod.mk.injEq] at hcheck
      obtain ⟨⟨last_el, popped⟩, hpop, hkind, hguard, stack_el, hnew, pushed, hpush, pushed', hpush',
        rfl, rfl⟩ := hcheck
      obtain ⟨search1, hpop', habove1, hlast⟩ := h.pop hsound last_el hpop
      obtain ⟨search2, hpush2, habove2⟩ := habove1.push hsound last_el hlast hpush
      obtain ⟨search3, hpush3, habove3⟩ := habove2.push hsound stack_el
        ((new_ischeckpoint _ false stack_el hnew).trans htmp) hpush'
      refine ⟨search3, ?_, habove3, hlater⟩
      simp only [hpop', Option.bind_eq_bind, Option.bind_some, hguard, hnew,
        hpush2, hpush3, Option.pure_def]
    · cases hcheck
      exact ⟨search, rfl, h, hunmarked⟩

theorem Above.regenerate (hsound : bottom.Sound points) (h : Above bottom search inner)
    (target result : Schedule) (hunmarked : ∀ x ∈ result.schedule, x.isCheckpoint = false)
    (hregenerate : inner.regenerate target result = some inner') :
    ∃ search', search.regenerate { target with schedule := points ++ target.schedule }
        { result with schedule := points ++ result.schedule } = some search' ∧
      Above bottom search' inner' := by
  rw [ChessSearchStack.regenerate] at hregenerate ⊢
  simp only [Option.bind_eq_bind, Option.bind_eq_some_iff] at hregenerate
  obtain ⟨postfix_sched, hpostfix, done, hdone, ⟨split, later⟩, hsplit, tmp, hgenerate, hmerge⟩ :=
    hregenerate
  have hpostfixed : ∀ x ∈ postfix_sched.schedule, x.isCheckpoint = false := by
    rw [Schedule.getPostfixAfter] at hpostfix
    simp only [Option.bind_eq_bind, Option.bind_eq_some_iff, Option.pure_def,
      Option.some.injEq] at hpostfix
    obtain ⟨_, -, _, -, mutable_me, hafter, rfl⟩ := hpostfix
    exact postfixAfter_unmarked _ _ mutable_me hunmarked hafter
  obtain ⟨search1, hdone', habove1⟩ := h.stackTopIsDone hdone
  obtain ⟨search2, hsplit', habove2, hlater⟩ :=
    habove1.checkForSplitSignal hsound postfix_sched later hpostfixed hsplit
  obtain ⟨tmp', search3, hgenerate', hmerge', habove3⟩ :=
    habove2.merge hsound later hlater tmp hgenerate hmerge
  refine ⟨search3, ?_, habove3⟩
  rw [getPostfixAfter_append hsound.chosen target result postfix_sched hpostfix]
  simp only [Option.bind_eq_bind, Option.bind_some, hdone', hsplit', hgenerate', hmerge']

theorem Above.getNumberOfCheckpoints (hsound : bottom.Sound points)
    (h : Above bottom search inner) : search.getNumberOfCheckpoints = 1 := by
  have hnone (elements : List SearchStackElement)
      (hunmarked : ∀ e ∈ elements, e.ischeckpoint = false) :
      elements.countP (·.ischeckpoint) = 0 := by
    rw [List.countP_eq_zero]
    intro e he
    rw [hunmarked e he]
    exact Bool.false_ne_true
  rw [ChessSearchStack.getNumberOfCheckpoints, h.stack, Bottom.elements, List.countP_append,
    List.countP_append, hnone _ hsound.unmarked, hnone _ h.unmarked, List.countP_singleton,
    if_pos hsound.marked]

end

end ChessSearchStack

end Thrille
