import Thrille.Chess.Refinement

namespace Thrille.DecisionTree

open BoundedSearch

section

variable {bound : Nat} {addrlist : List String} {frames : List SearchFrame}
  {search : ChessSearchStack} {root : SearchTree}

theorem postfixAfter_append (front back tail : List SchedulePoint)
    (hchosen : ∀ x ∈ front, x.chosen ≠ none) :
    Schedule.postfixAfter (front ++ back) (front ++ tail) = Schedule.postfixAfter back tail := by
  induction front with
  | nil => rfl
  | cons point front ih =>
      have hpoint := hchosen point List.mem_cons_self
      have hrest := ih fun x hx => hchosen x (List.mem_cons_of_mem _ hx)
      rw [List.cons_append, List.cons_append, Schedule.postfixAfter]
      cases hsig : point.signal with
      | none => simp [guard, hrest]
      | some info => simp [guard, hrest, hpoint]

theorem points_chosen (hlinked : Linked rules root frames) :
    ∀ x ∈ points frames, x.chosen ≠ none := by
  induction frames with
  | nil => simp [points]
  | cons frame rest ih =>
      have hframe := chosen_ne_none frame rest hlinked
      intro x hx
      rw [points_cons, List.mem_append] at hx
      rcases hx with hx | hx
      · exact ih hlinked.2.2.2 x hx
      · cases hinfo : frame.info with
        | sched decision sig =>
            rw [hinfo] at hx
            simp only [Info.point, Option.toList_some, List.mem_singleton] at hx
            rw [hx]
            exact hframe
        | signal decision =>
            rw [hinfo] at hx
            simp [Info.point] at hx

-- The signal frame that the first point of a run brings with it when its signal is decided.
def SignalFrame (tree : SearchTree) : Pending → List SearchFrame → Prop
  | none, extra => extra = []
  | some (decision, signalled), extra => signalled ∈ decision.oncond ∧ ∃ frame, extra = [frame] ∧
      frame.info = .signal decision ∧ frame.chosen = signalled ∧
      frame.todo = decision.oncond.erase signalled ∧ frame.next decision.pick = tree

theorem new_sched (decision : SchedDecision) (sig : Option SignalInfo)
    (next : Name → SearchTree) :
    ∃ element, SearchStackElement.new (decision.point sig decision.pick) false = some element ∧
      Refines element (Frame.fresh rules (.sched decision sig) next) := by
  have hmem : decision.pick ∈ decision.enabled := decision.pick_mem
  refine ⟨_, by simp [SearchStackElement.new, SchedDecision.point, guard, hmem]; rfl, rfl, rfl,
    ?_, ?_, ?_⟩
  · rintro decision' sig' ⟨⟩
    exact ⟨rfl, decision.pick, rfl⟩
  · rintro decision' ⟨⟩
  · rintro decision' ⟨⟩

theorem new_signal (decision : SignalDecision) (signalled : Name) (point : SchedulePoint)
    (frame : SearchFrame) (hmem : signalled ∈ decision.oncond)
    (hsig : point.signal = some (decision.info signalled)) (hcaller : point.caller = decision.caller)
    (hinfo : frame.info = .signal decision) (hchosen : frame.chosen = signalled)
    (htodo : frame.todo = decision.oncond.erase signalled)
    (henabled : point.enabled = enabledAt (frame.next decision.pick)) :
    ∃ element, SearchStackElement.new point true = some element ∧ Refines element frame := by
  refine ⟨_, by simp [SearchStackElement.new, hsig, SignalDecision.info, guard, hmem]; rfl,
    hchosen.symm, htodo.symm, ?_, ?_, ?_⟩
  · intro decision' sig' hsched
    rw [hinfo] at hsched
    cases hsched
  · intro decision' hsignal
    rw [hinfo] at hsignal
    cases hsignal
    exact ⟨rfl, hcaller, signalled, hsig⟩
  · intro decision' hsignal
    rw [hinfo] at hsignal
    cases hsignal
    exact henabled

-- Pushing the points of a run that follows the picks builds the fresh frames of the run.
theorem foldlM_pushPoint (tree : SearchTree) (pending : Pending) (extra : List SearchFrame)
    (hsignalled : Signalled tree pending) (hextra : SignalFrame tree pending extra)
    (h : Holds search bound addrlist frames) (hspent : spent rules frames ≤ bound) :
    ∃ search', (follow tree []).1.foldlM ChessSearchStack.pushPoint search = some search' ∧
      Holds search' bound addrlist (descend rules (extra ++ frames) tree) := by
  induction tree generalizing pending extra frames search with
  | leaf error =>
      rw [show pending = none from hsignalled] at hextra
      rw [show extra = [] from hextra]
      exact ⟨search, rfl, h⟩
  | node info next ih =>
      cases info with
      | sched decision sig =>
          obtain ⟨hsig, hcaller, hnext⟩ := hsignalled
          obtain ⟨element, hnew, hrefines⟩ := new_sched decision sig next
          have hfresh (stack : List SearchFrame) : spent rules
              (Frame.fresh rules (Info.sched decision sig) next :: stack) = spent rules stack := by
            simp [spent, Frame.paid, Frame.fresh, charge]
          obtain ⟨mid, hpush, hmid, hspentmid⟩ : ∃ mid,
              search.pushSignal (decision.point sig decision.pick) = some mid ∧
              Holds mid bound addrlist (extra ++ frames) ∧
              spent rules (extra ++ frames) ≤ bound := by
            cases pending with
            | none =>
                rw [show sig = none from hsig, show extra = [] from hextra]
                exact ⟨search, rfl, h, hspent⟩
            | some p =>
                obtain ⟨hmem, frame, rfl, hinfo, hchosen, htodo, htree⟩ := hextra
                obtain ⟨signal, hsignal, hrefines'⟩ := new_signal p.1 p.2
                  (decision.point sig decision.pick) frame hmem hsig (hcaller p rfl) hinfo hchosen
                  htodo (by rw [htree]; rfl)
                have hfree : spent rules (frame :: frames) ≤ bound := by
                  have hzero : Frame.paid rules frame = 0 := by
                    rw [Frame.paid, hinfo, charge_signal]
                  simpa [spent, hzero] using hspent
                obtain ⟨mid, hpush, hmid⟩ := h.push hrefines' hfree
                refine ⟨mid, ?_, hmid, hfree⟩
                have hkind : (decision.point sig decision.pick).isSignal = true := by
                  rw [hsig]
                  rfl
                simp [ChessSearchStack.pushSignal, hkind, hsignal, hpush]
          have hspentmid' := (hfresh (extra ++ frames)).symm ▸ hspentmid
          obtain ⟨search', hpush', hholds'⟩ := hmid.push hrefines hspentmid'
          obtain ⟨last, hlast, hholds⟩ := ih decision.pick none [] (hnext decision.pick) rfl
            hholds' hspentmid'
          refine ⟨last, ?_, hholds⟩
          have hpoint : ChessSearchStack.pushPoint search (decision.point sig decision.pick) =
              some search' := by
            rw [ChessSearchStack.pushPoint, hpush]
            simp [hnew, hpush']
          simp only [follow, List.head?_nil, Option.getD_none, List.tail_nil, Info.point,
            Info.pick, Option.toList_some, List.singleton_append, List.foldlM_cons, hpoint]
          exact hlast
      | signal decision =>
          obtain ⟨hpending, hnext⟩ := hsignalled
          rw [hpending] at hextra
          rw [show extra = [] from hextra]
          have hframe : SignalFrame (next decision.pick) (some (decision, decision.pick))
              [Frame.fresh rules (Info.signal decision) next] :=
            ⟨decision.pick_mem, _, rfl, rfl, rfl, rfl, rfl⟩
          obtain ⟨last, hlast, hholds⟩ := ih decision.pick _ _ (hnext decision.pick) hframe h hspent
          exact ⟨last, hlast, hholds⟩

theorem Holds.mergeElements (other : ChessSearchStack) (bound' : Nat) (extra : List SearchFrame)
    (h : Holds search bound addrlist frames) (hother : Holds other bound' addrlist extra)
    (hspent : spent rules (extra ++ frames) ≤ bound) (hspent' : spent rules extra ≤ bound') :
    ∃ search', search.mergeElements other extra.length = some search' ∧
      Holds search' bound addrlist (extra ++ frames) := by
  induction extra using List.reverseRecOn generalizing search other frames with
  | nil => exact ⟨search, rfl, h⟩
  | append_singleton extra frame ih =>
      simp only [List.append_assoc, List.singleton_append] at hspent ⊢
      have hsplit := spent_append extra (frame :: frames)
      have hsplit' := spent_append extra [frame]
      obtain ⟨element, other', hpop, hrefines, hother'⟩ := hother.popBottom (by omega)
      obtain ⟨search', hpush, hholds⟩ := h.push hrefines (by omega)
      obtain ⟨last, hlast, hholds'⟩ := ih other' hholds hother' hspent (by omega)
      refine ⟨last, ?_, hholds'⟩
      simp [ChessSearchStack.mergeElements, hpop, hpush, hlast]

theorem Holds.stackTopIsDone (h : Holds search bound addrlist frames) (hne : frames ≠ []) :
    ∃ search', search.stackTopIsDone = some search' ∧ Holds search' bound addrlist frames := by
  obtain ⟨frame, rest, rfl⟩ := List.exists_cons_of_ne_nil hne
  obtain ⟨element, elements, hrefines, hrest, hstack⟩ := List.forall₂_cons_right_iff.mp h.elements
  have hstack' : search.stack = elements.reverse ++ [element] := by
    rw [← List.reverse_reverse search.stack, hstack, List.reverse_cons]
  refine ⟨{ search with stack := elements.reverse ++ [element.chosenIsDone] }, ?_,
    h.plain, h.bound, h.addrlist, h.current, ?_⟩
  · simp [ChessSearchStack.stackTopIsDone, hstack']
  · simpa using ⟨hrefines.chosenIsDone, hrest⟩

-- The part of `regenerate` behind the split: the postfix costs nothing, so a stack with bound 0
-- takes it, and the search stack takes over that stack.
theorem Holds.merge (tree : SearchTree) (hsignalled : Signalled tree none)
    (h : Holds search bound addrlist frames) (hspent : spent rules frames ≤ bound)
    (sched : Schedule) (hsched : sched.schedule = (follow tree []).1)
    (haddr : sched.addrlist = addrlist) :
    ∃ tmp_stack search', search.generateSearchStack 0 sched = some tmp_stack ∧
      search.mergeWith tmp_stack = some search' ∧
      Holds search' bound addrlist (descend rules frames tree) := by
  have hempty : Holds (search.getEmptySearchStack 0 search.addrlist) 0 addrlist [] :=
    ⟨h.plain, rfl, h.addrlist, rfl, List.Forall₂.nil⟩
  obtain ⟨tmp_stack, hgen, htmp⟩ := foldlM_pushPoint tree none [] hsignalled rfl hempty
    (Nat.le_refl 0)
  have hzero : spent rules (descend rules [] tree) = 0 := spent_descend [] tree
  have hsplit := spent_append (descend rules [] tree) frames
  obtain ⟨search', hmerge, hholds⟩ := Holds.mergeElements tmp_stack 0 (descend rules [] tree) h htmp
    (by omega) (by omega)
  refine ⟨tmp_stack, search', ?_, ?_, ?_⟩
  · simp [ChessSearchStack.generateSearchStack, guard, haddr, h.addrlist, hsched] at hgen ⊢
    exact hgen
  · rw [ChessSearchStack.mergeWith, htmp.length]
    exact hmerge
  · rw [← descend_append, List.nil_append] at hholds
    exact hholds

theorem follow_head_decided (tree : SearchTree) (hsignalled : Signalled tree none) :
    ∀ point ∈ (follow tree []).1.head?, ∀ info ∈ point.signal, info.signalled ≠ none := by
  cases tree with
  | leaf error => simp [follow]
  | node info next =>
      cases info with
      | sched decision sig =>
          rintro point ⟨⟩ info hinfo
          have hsig : sig = some info := hinfo
          cases hsignalled.1.symm.trans hsig
      | signal decision =>
          have hnext := hsignalled.2 decision.pick
          rw [show (follow (.node (.signal decision) next) []).1 =
            (follow (next decision.pick) []).1 from rfl]
          cases htree : next decision.pick with
          | leaf error =>
              rw [htree] at hnext
              cases hnext
          | node info' next' =>
              rw [htree] at hnext
              cases info' with
              | sched after sig =>
                  rintro point ⟨⟩ info hinfo
                  have hsig : sig = some info := hinfo
                  cases hnext.1.symm.trans hsig
                  exact fun heq => decision.named (heq ▸ decision.pick_mem)
              | signal after => cases hnext.1

theorem checkForSplitSignal_decided (search : ChessSearchStack) (sched : Schedule)
    (hdecided : ∀ point ∈ sched.schedule.head?, ∀ info ∈ point.signal, info.signalled ≠ none) :
    search.checkForSplitSignal sched = some (search, sched) := by
  rw [ChessSearchStack.checkForSplitSignal]
  split
  · rfl
  · rename_i tmp rest hsched
    split
    · rename_i cond oncond hsig
      rw [hsched] at hdecided
      exact absurd rfl (hdecided tmp rfl _ hsig)
    · rfl

theorem pendingOf_some (decision : SignalDecision) (signalled : Name)
    (h : pendingOf frames = some (decision, signalled)) :
    ∃ frame rest, frames = frame :: rest ∧ frame.info = .signal decision ∧
      frame.chosen = signalled := by
  cases frames with
  | nil => cases h
  | cons frame rest =>
      obtain ⟨info, next, chosen, todo⟩ := frame
      cases info with
      | sched decision' sig => cases h
      | signal decision' =>
          cases h
          exact ⟨_, rest, rfl, rfl, rfl⟩

-- The signal half stays on the stack, and the half for the next thread goes on top of it.
theorem Holds.checkForSplitSignal (decision : SchedDecision) (next : Name → SearchTree)
    (signal : SignalDecision) (signalled : Name)
    (hpending : pendingOf frames = some (signal, signalled))
    (h : Holds search bound addrlist frames) (hspent : spent rules frames ≤ bound)
    (sched : Schedule) (rest : List SchedulePoint)
    (hsched : sched.schedule =
      decision.point (some { signal.info signalled with signalled := none }) decision.pick :: rest) :
    ∃ search', search.checkForSplitSignal sched = some (search', { sched with schedule := rest }) ∧
      Holds search' bound addrlist (Frame.fresh rules
        (.sched decision (some (signal.info signalled))) next :: frames) := by
  obtain ⟨frame, below, rfl, hinfo, hchosen⟩ := pendingOf_some signal signalled hpending
  have hbelow : spent rules below ≤ bound := by
    simp only [spent, List.map_cons, List.sum_cons] at hspent ⊢
    omega
  obtain ⟨last_el, mid, hpop, hrefines, hmid⟩ := h.pop hbelow
  obtain ⟨mid', hpush, hmid'⟩ := hmid.push hrefines hspent
  obtain ⟨stack_el, hnew, hrefines'⟩ := new_sched decision (some (signal.info signalled)) next
  obtain ⟨search', hpush', hholds⟩ := hmid'.push hrefines' (by
    simpa [spent, Frame.paid, Frame.fresh, charge] using hspent)
  refine ⟨search', ?_, hholds⟩
  have hkind := (hrefines.signal signal hinfo).1
  have htmp : { decision.point (some { signal.info signalled with signalled := none })
      decision.pick with signal := some ⟨last_el.chosen, signal.cond, signal.oncond⟩ } =
      decision.point (some (signal.info signalled)) decision.pick := by
    rw [hrefines.chosen, hchosen]
    rfl
  rw [ChessSearchStack.checkForSplitSignal, hsched]
  simp only [SchedDecision.point, SignalDecision.info] at htmp hnew ⊢
  simp [hpop, hkind, htmp, hnew, hpush, hpush']

theorem Holds.regenerate (hroot : Signalled root none) (hlinked : Linked rules root frames)
    (h : Holds search bound addrlist frames) (hne : frames ≠ [])
    (hspent : spent rules frames ≤ bound) (half : List SchedulePoint)
    (hhalf : OpenSignal (pendingOf frames) half) (result_sched : Schedule)
    (hresult : result_sched.schedule = points frames ++ (follow (treeAt root frames) []).1)
    (haddr : result_sched.addrlist = addrlist) :
    ∃ search', search.regenerate
        { schedule := points frames ++ half.map fun point => { point with chosen := none }
          addrlist := addrlist } result_sched = some search' ∧
      Holds search' bound addrlist (descend rules frames (treeAt root frames)) := by
  have hsignalled := signalled_treeAt hroot hlinked
  obtain ⟨mid, htop, hmid⟩ := h.stackTopIsDone hne
  cases hpending : pendingOf frames with
  | none =>
      rw [hpending] at hhalf hsignalled
      rw [show half = [] from hhalf]
      let postfix_sched : Schedule :=
        { result_sched with schedule := (follow (treeAt root frames) []).1 }
      have hpostfix : result_sched.getPostfixAfter
          { schedule := points frames ++
              ([] : List SchedulePoint).map fun point => { point with chosen := none }
            addrlist := addrlist } = some postfix_sched := by
        have hafter := postfixAfter_append (points frames) (follow (treeAt root frames) []).1 []
          (points_chosen hlinked)
        rw [Schedule.getPostfixAfter, hresult]
        simp only [List.map_nil]
        rw [hafter]
        simp [guard, haddr, Schedule.postfixAfter, postfix_sched]
      obtain ⟨tmp_stack, search', hgen, hmerge, hholds⟩ := hmid.merge _ hsignalled hspent
        postfix_sched rfl haddr
      have hcheck := checkForSplitSignal_decided mid postfix_sched
        (follow_head_decided _ hsignalled)
      refine ⟨search', ?_, hholds⟩
      rw [ChessSearchStack.regenerate, hpostfix]
      simp [htop, hcheck, hgen, hmerge]
  | some p =>
      obtain ⟨signal, signalled⟩ := p
      rw [hpending] at hhalf hsignalled
      obtain ⟨point, rfl, _, hpointsig⟩ := hhalf
      cases htree : treeAt root frames with
      | leaf error =>
          rw [htree] at hsignalled
          cases hsignalled
      | node info next =>
          rw [htree] at hsignalled hresult
          cases info with
          | signal decision => cases hsignalled.1
          | sched decision sig =>
              have hsig : sig = some (signal.info signalled) := hsignalled.1
              subst hsig
              let rest := (follow (next decision.pick) []).1
              let head := decision.point
                (some { signal.info signalled with signalled := none }) decision.pick
              let postfix_sched : Schedule := { result_sched with schedule := head :: rest }
              have hpostfix : result_sched.getPostfixAfter
                  { schedule := points frames ++
                      [point].map fun point => { point with chosen := none }
                    addrlist := addrlist } = some postfix_sched := by
                have hafter := postfixAfter_append (points frames)
                  (decision.point (some (signal.info signalled)) decision.pick :: rest)
                  [{ point with chosen := none }] (points_chosen hlinked)
                rw [Schedule.getPostfixAfter, hresult]
                simp only [List.map_cons, List.map_nil]
                rw [show (follow (.node (.sched decision (some (signal.info signalled))) next)
                  []).1 = decision.point (some (signal.info signalled)) decision.pick :: rest
                  from rfl, hafter]
                simp [guard, haddr, Schedule.postfixAfter, postfix_sched, head, hpointsig,
                  SchedDecision.point]
              obtain ⟨split, hcheck, hsplit⟩ := hmid.checkForSplitSignal decision next signal
                signalled hpending hspent postfix_sched rest rfl
              obtain ⟨tmp_stack, search', hgen, hmerge, hholds⟩ := hsplit.merge
                (next decision.pick) (hsignalled.2.2 decision.pick)
                (by simpa [spent, Frame.paid, Frame.fresh, charge] using hspent)
                { postfix_sched with schedule := rest } rfl haddr
              refine ⟨search', ?_, hholds⟩
              rw [ChessSearchStack.regenerate, hpostfix]
              simp [htop, hcheck, hgen, hmerge]

end

end Thrille.DecisionTree
