import Thrille.Schedule.History

namespace Thrille.Schedule

def signalHistory (thread : Name) (sched : List SchedulePoint) : List Name :=
  (sched.filter fun x => x.caller == thread).flatMap (·.signalled)

theorem signalHistory_eq (thread : Name) (sched : List SchedulePoint) :
    signalHistory thread sched = history (·.signalled) thread sched := rfl

-- The signals that the relaxed format lists in the steps of a thread.
def stepSignals (thread : Name) (steps : List RelaxedStep) : List Name :=
  (steps.filter fun step => step.sched == thread).flatMap (·.sig)

def relaxedSignals (thread : Name) (self : Schedule) : List Name :=
  stepSignals thread (self.outputRelaxedSchedule.getD [])

@[simp] theorem stepSignals_cons (thread : Name) (step : RelaxedStep) (steps : List RelaxedStep) :
    stepSignals thread (step :: steps) =
      (if step.sched = thread then step.sig else []) ++ stepSignals thread steps := by
  simp only [stepSignals, List.filter_cons, beq_iff_eq]
  split
  · rw [List.flatMap_cons]
  · rw [List.nil_append]

-- The list of pending signals belongs to the thread that is running.
theorem stepSignals_relaxedSteps (thread running : Name) (state : RelaxedState)
    (sched : List SchedulePoint) (hchain : ChainFrom running sched) :
    stepSignals thread (relaxedSteps (lastChosen running sched) state sched) =
      (if running = thread then state.signal_list else []) ++ signalHistory thread sched := by
  induction sched generalizing running state with
  | nil =>
      rw [lastChosen_nil, relaxedSteps, stepSignals_cons]
      rfl
  | cons tmp rest ih =>
      obtain ⟨hcaller, hrest⟩ := hchain
      have hhead : signalHistory thread (tmp :: rest) =
          (if running = thread then tmp.signalled else []) ++ signalHistory thread rest := by
        simp only [signalHistory, List.filter_cons, hcaller, beq_iff_eq]
        split
        · rw [List.flatMap_cons]
        · rw [List.nil_append]
      rw [lastChosen_cons, relaxedSteps, hhead, hcaller]
      by_cases hswitch : tmp.chosen = running
      · rw [if_neg (not_not_intro hswitch), ih tmp.chosen _ hrest, hswitch]
        simp only [RelaxedState.count]
        split <;> simp
      · rw [if_pos hswitch, stepSignals_cons, ih tmp.chosen _ hrest]
        simp only [RelaxedState.count]
        split <;> simp

theorem relaxedSignals_eq (thread : Name) (self : Schedule) (hchain : self.ChainConsistent)
    (hne : self.schedule ≠ []) :
    relaxedSignals thread self = signalHistory thread self.schedule := by
  have hsteps := stepSignals_relaxedSteps thread mainThread {} self.schedule hchain
  obtain ⟨final, hfinal⟩ : ∃ final, self.schedule.getLast? = some final :=
    ⟨_, List.getLast?_eq_some_getLast hne⟩
  have hlast : lastChosen mainThread self.schedule = final.chosen := by
    rw [lastChosen, hfinal, Option.map_some, Option.getD_some]
  rw [hlast] at hsteps
  rw [relaxedSignals, outputRelaxedSchedule, hfinal]
  simpa using hsteps

section

variable {α : Type}

theorem append_singleton_comm_iff (a : α) (middle : List α) :
    middle ++ [a] = [a] ++ middle ↔ ∀ b ∈ middle, a = b := by
  induction middle with
  | nil => simp
  | cons b middle ih =>
      simp only [List.cons_append, List.nil_append, List.cons.injEq, List.mem_cons,
        forall_eq_or_imp] at ih ⊢
      constructor
      · rintro ⟨rfl, h⟩
        exact ⟨rfl, ih.mp h⟩
      · rintro ⟨rfl, h⟩
        exact ⟨rfl, ih.mpr h⟩

theorem append_around {x y z x' y' z' : List α} (front back : List α)
    (h : x ++ y ++ z = x' ++ y' ++ z') :
    front ++ x ++ y ++ z ++ back = front ++ x' ++ y' ++ z' ++ back := by
  calc front ++ x ++ y ++ z ++ back
      = front ++ (x ++ y ++ z) ++ back := by simp only [List.append_assoc]
    _ = front ++ (x' ++ y' ++ z') ++ back := by rw [h]
    _ = front ++ x' ++ y' ++ z' ++ back := by simp only [List.append_assoc]

-- Two decisions, each of them possibly missing, that may trade places around `middle`.
def SwapsAround (x y middle : List α) : Prop :=
  x = y ∨ (x = [] ∧ ∀ b ∈ middle, y = [b]) ∨ (y = [] ∧ ∀ b ∈ middle, x = [b])

theorem swapsAround_iff (x y middle : List α) (hx : x.length ≤ 1) (hy : y.length ≤ 1) :
    x ++ middle ++ y = y ++ middle ++ x ↔ SwapsAround x y middle := by
  match x, y, hx, hy with
  | [], [], _, _ => simp [SwapsAround]
  | [], [a], _, _ => simpa [SwapsAround] using append_singleton_comm_iff a middle
  | [a], [], _, _ =>
      rw [eq_comm]
      simpa [SwapsAround] using append_singleton_comm_iff a middle
  | [a], [b], _, _ =>
      simp only [SwapsAround, List.cons_append, List.nil_append, List.cons.injEq, and_true,
        List.cons_ne_nil, false_and, or_false]
      constructor
      · exact fun h => h.1
      · rintro rfl
        exact ⟨rfl, rfl⟩

end

-- A thread's decisions survive a move, but for those that may be `dropped` at the end, and the
-- relaxed format lists exactly the surviving ones in the steps of the thread.
def SignalsKept (thread : Name) (dropped : List Name) (self sched : Schedule) : Prop :=
  ∃ kept, (signalHistory thread self.schedule = kept ∨
      signalHistory thread self.schedule = kept ++ dropped) ∧
    signalHistory thread sched.schedule = kept ∧ relaxedSignals thread sched = kept

theorem signalsKept_iff (thread : Name) (dropped : List Name) (self : Schedule)
    (after : List SchedulePoint) (hne : after ≠ []) :
    SignalsKept thread dropped self
        { schedule := patchUpSchedule after, addrlist := self.addrlist } ↔
      signalHistory thread self.schedule = signalHistory thread (patchUpSchedule after) ∨
      signalHistory thread self.schedule =
        signalHistory thread (patchUpSchedule after) ++ dropped := by
  have hrelaxed := relaxedSignals_eq thread
    { schedule := patchUpSchedule after, addrlist := self.addrlist }
    (chainFrom_patchFrom mainThread after) (by simpa using hne)
  constructor
  · rintro ⟨kept, hkept, rfl, _⟩
    exact hkept
  · exact fun hkept => ⟨_, hkept, rfl, hrelaxed⟩

@[simp] theorem signalled_setAddr (addr : String) (point : SchedulePoint) :
    (setAddr addr point).signalled = point.signalled := rfl

theorem length_signalled (point : SchedulePoint) : point.signalled.length ≤ 1 := by
  cases h : point.signal <;> simp [SchedulePoint.signalled, h]

-- The decision on the first point behind the moved block, if there is such a point.
def ForwardMove.endSignal (m : ForwardMove) : List Name :=
  (m.endblock.take 1).flatMap (·.signalled)

theorem ForwardMove.length_endSignal (m : ForwardMove) : m.endSignal.length ≤ 1 := by
  cases h : m.endblock with
  | nil => simp [endSignal, h]
  | cons x rest => simpa [endSignal, h] using length_signalled x

-- The two points behind which the block starts and ends carry the same decision, and so do the
-- frontier and the end of the block (or one of them carries none and the block only repeats the
-- decision of the other).
def ForwardMove.SignalsStay (m : ForwardMove) : Prop :=
  m.first.signalled = m.endSignal ∧
    SwapsAround m.point.signalled m.endSignal (m.mobileblock.flatMap (·.signalled))

def ForwardMove.dropped (m : ForwardMove) (thread : Name) : List Name :=
  if m.endblock = [] ∧ thread = m.first.caller then m.first.signalled else []

theorem ForwardMove.At.signalsKept_iff {m : ForwardMove} {self : Schedule} {frontier : Nat}
    (hat : m.At self frontier) (hchain : self.ChainConsistent) :
    (∀ thread, SignalsKept thread (m.dropped thread) self
      { schedule := patchUpSchedule m.after, addrlist := self.addrlist }) ↔ m.SignalsStay := by
  have hafter : m.after ≠ [] := by simp [ForwardMove.after]
  have hend : ((m.endblock.modifyHead (setAddr m.first.addr)).take 1).flatMap (·.signalled) =
      m.endSignal := by
    rw [ForwardMove.endSignal]
    cases m.endblock <;> rfl
  have hsee (thread : Name) := hat.histories (·.signalled) thread hchain fun _ _ => rfl
  simp only [Schedule.signalsKept_iff _ _ _ _ hafter, signalHistory_eq]
  constructor
  · intro h
    obtain ⟨hne, front, back, hnil, hold, hnew⟩ := hsee m.point.caller
    obtain ⟨-, front', back', hnil', hold', hnew'⟩ := hsee m.first.caller
    have htarget := h m.point.caller
    have hswitcher := h m.first.caller
    simp only [hold, hnew, ForwardMove.dropped, if_true, hne, and_false, if_false,
      List.append_nil, or_self, signalled_setAddr, List.append_assoc, List.append_cancel_left_eq]
      at htarget
    rw [hold', hnew', hend, if_neg hne, if_neg hne, if_pos rfl, if_pos rfl] at hswitcher
    simp only [← List.append_assoc, List.append_cancel_right_eq] at htarget
    have hboundary : m.first.signalled = m.endSignal := by
      by_cases hempty : m.endblock = []
      · have hzero : m.endSignal = [] := by rw [ForwardMove.endSignal, hempty]; rfl
        have hlength := congrArg List.length htarget
        simp only [hempty, List.take_nil, List.flatMap_nil, List.append_nil,
          List.length_append] at hlength
        rw [hzero, ← List.length_eq_zero_iff]
        omega
      · simpa [ForwardMove.dropped, hempty] using hswitcher
    refine ⟨hboundary, (swapsAround_iff _ _ _ (length_signalled _) m.length_endSignal).mp ?_⟩
    rw [ForwardMove.endSignal] at hboundary ⊢
    rw [htarget, hboundary]
  · rintro ⟨hboundary, hswaps⟩ thread
    obtain ⟨hne, front, back, hnil, hold, hnew⟩ := hsee thread
    have heq := (swapsAround_iff _ _ _ (length_signalled _) m.length_endSignal).mpr hswaps
    left
    rw [hold, hnew, hend]
    by_cases ht : m.point.caller = thread
    · rw [if_pos ht, if_pos ht, signalled_setAddr, signalled_setAddr, hboundary]
      exact append_around front back heq
    · rw [if_neg ht, if_neg ht, hboundary]

-- The decisions on the first points of the moved block, of the block it moves behind, and on the
-- frontier agree. At two places the histories cannot tell: where the same thread runs before and
-- after the two blocks, and where the moved thread already runs before them.
def BackwardMove.SignalsStay (m : BackwardMove) : Prop :=
  (m.first.signalled = m.away.signalled ∧ m.away.signalled = m.point.signalled) ∨
  (m.first.caller = m.point.caller ∧ m.away.signalled = m.point.signalled ∧
    SwapsAround m.first.signalled m.away.signalled
      (signalHistory m.first.caller m.prefrontier)) ∨
  (m.first.caller = m.point.chosen ∧ m.first.signalled = m.point.signalled ∧
    SwapsAround m.first.signalled m.away.signalled (m.mobileblock.flatMap (·.signalled)))

theorem BackwardMove.At.signalsKept_iff {m : BackwardMove} {self : Schedule} {frontier : Nat}
    (hat : m.At self frontier) (hchain : self.ChainConsistent) :
    (∀ thread, SignalsKept thread [] self
      { schedule := patchUpSchedule m.after, addrlist := self.addrlist }) ↔ m.SignalsStay := by
  have hafter : m.after ≠ [] := by simp [BackwardMove.after]
  have hsee (thread : Name) := hat.histories (·.signalled) thread hchain fun _ _ => rfl
  simp only [Schedule.signalsKept_iff _ _ _ _ hafter, signalHistory_eq, List.append_nil, or_self]
  have hswap := swapsAround_iff m.first.signalled m.away.signalled
  constructor
  · intro h
    obtain ⟨hne, front, back, hold, hnew⟩ := hsee m.point.chosen
    obtain ⟨-, front', back', hold', hnew'⟩ := hsee m.point.caller
    have htarget := h m.point.chosen
    have hcaller := h m.point.caller
    rw [hold, hnew, if_pos rfl, if_pos rfl, List.append_cancel_right_eq] at htarget
    rw [hold', hnew', if_neg hne.symm, if_neg hne.symm, List.append_cancel_right_eq,
      if_pos rfl, if_pos rfl] at hcaller
    simp only [signalled_setAddr, List.append_assoc, List.append_cancel_left_eq]
      at htarget hcaller
    by_cases hfront : m.first.caller = m.point.chosen
    · have hother : m.first.caller ≠ m.point.caller := fun heq => hne (heq.symm.trans hfront)
      rw [if_pos hfront, if_pos hfront] at htarget
      rw [if_neg hother, if_neg hother, List.append_cancel_left_eq,
        List.append_cancel_left_eq] at hcaller
      refine Or.inr (Or.inr ⟨hfront, hcaller.symm, ?_⟩)
      refine (hswap _ (length_signalled _) (length_signalled _)).mp ?_
      rwa [hcaller, ← List.append_assoc, ← List.append_assoc] at htarget
    · rw [if_neg hfront, if_neg hfront, List.nil_append, List.nil_append,
        List.append_cancel_left_eq] at htarget
      by_cases hsame : m.first.caller = m.point.caller
      · rw [if_pos hsame, if_pos hsame] at hcaller
        refine Or.inr (Or.inl ⟨hsame, htarget, ?_⟩)
        refine (hswap _ (length_signalled _) (length_signalled _)).mp ?_
        rw [hsame, signalHistory_eq, List.append_assoc, List.append_assoc, ← hcaller, htarget]
      · rw [if_neg hsame, if_neg hsame, List.append_cancel_left_eq,
          List.append_cancel_left_eq] at hcaller
        exact Or.inl ⟨hcaller.symm.trans htarget.symm, htarget⟩
  · intro hstay thread
    obtain ⟨hne, front, back, hold, hnew⟩ := hsee thread
    rw [hold, hnew, signalled_setAddr, signalled_setAddr, signalled_setAddr]
    rcases hstay with ⟨hfirst, haway⟩ | ⟨hsame, haway, hstay⟩ | ⟨hfront, hpoint, hstay⟩
    · rw [hfirst, haway]
    · have heq := (hswap _ (length_signalled _) (length_signalled _)).mpr hstay
      by_cases ht : m.point.chosen = thread
      · have hp : m.first.caller ≠ thread := fun h => hne (hsame.symm.trans (h.trans ht.symm))
        rw [if_pos ht, if_pos ht, if_neg hp, if_neg hp, haway]
      · rw [if_neg ht, if_neg ht, hsame]
        by_cases hp : m.point.caller = thread
        · rw [hsame, hp, signalHistory_eq] at heq
          simp only [if_pos hp, ← haway]
          exact append_around front back heq
        · simp only [if_neg hp]
    · have heq := (hswap _ (length_signalled _) (length_signalled _)).mpr hstay
      by_cases ht : m.point.chosen = thread
      · have hp : m.first.caller = thread := hfront.trans ht
        rw [if_pos ht, if_pos ht, if_pos hp, if_pos hp, ← hpoint]
        exact append_around front back heq
      · have hp : m.first.caller ≠ thread := fun h => ht (hfront.symm.trans h)
        rw [if_neg ht, if_neg ht, if_neg hp, if_neg hp, hpoint]

-- A move keeps the decisions of every thread exactly when those on its boundary points agree:
-- the addresses of these points trade places, the decisions stay on the points.
theorem moves_keep_signals_iff (self : Schedule) (hchain : self.ChainConsistent) :
    (∀ frontier sched, self.consolidateFrontierForward frontier = some sched →
      sched.schedule ≠ [] → ∃ m : ForwardMove, m.At self frontier ∧
        ((∀ thread, SignalsKept thread (m.dropped thread) self sched) ↔ m.SignalsStay)) ∧
    ∀ frontier sched, self.consolidateFrontierBackward frontier = some sched →
      sched.schedule ≠ [] → ∃ m : BackwardMove, m.At self frontier ∧
        ((∀ thread, SignalsKept thread [] self sched) ↔ m.SignalsStay) := by
  constructor
  · intro frontier sched h hne
    obtain ⟨⟨_, tei⟩, htei, ⟨⟩⟩ := Option.bind_eq_some_iff.mp h
    obtain ⟨m, hat, rfl, _⟩ := consolidateFrontierForwardTEI_spec self frontier _ tei hne htei
    exact ⟨m, hat, hat.signalsKept_iff hchain⟩
  · intro frontier sched h hne
    obtain ⟨m, hat, rfl⟩ := consolidateFrontierBackward_spec self frontier sched hne h
    exact ⟨m, hat, hat.signalsKept_iff hchain⟩

theorem moves_keep_signals_iff_handOver :
    let sched := (handOver.consolidateFrontierForward 3).getD {}
    sched.schedule.length = 6 ∧ ∃ m : ForwardMove, m.At handOver 3 ∧
      ((∀ thread, SignalsKept thread (m.dropped thread) handOver sched) ↔ m.SignalsStay) := by
  refine ⟨by decide, ?_⟩
  exact (moves_keep_signals_iff handOver handOver_chain).1 3 _ (by decide) (by decide)

-- The signal of thread 1 lands on a point that thread 0 calls, though the block does not end the
-- schedule, and the relaxed format lists it in a step of thread 0.
theorem handOver_signal_moves :
    handOver.ChainConsistent ∧ ∃ sched, handOver.consolidateFrontierForward 3 = some sched ∧
      sched.schedule.length = 6 ∧
      handOver.schedule.getLast?.map (·.chosen) = some (some "1") ∧
      signalHistory (some "1") handOver.schedule = [some "2"] ∧
      signalHistory (some "1") sched.schedule = [] ∧
      signalHistory (some "0") handOver.schedule = [] ∧
      signalHistory (some "0") sched.schedule = [some "2"] ∧
      relaxedSignals (some "0") sched = [some "2"] :=
  ⟨handOver_chain, (handOver.consolidateFrontierForward 3).getD {}, by decide, by decide,
    by decide, by decide, by decide, by decide, by decide, by decide⟩

end Thrille.Schedule
