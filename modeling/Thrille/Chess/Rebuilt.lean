import Thrille.Chess.Follows

namespace Thrille

namespace ChessSearchStack

open SearchStackElement

-- The points of whole elements leave nothing open.
theorem chosen_of_closed (elements : List SearchStackElement)
    (hclosed : Closed (elements.map kind)) (hsound : ∀ x ∈ elements, x.Sound)
    (points : List SchedulePoint)
    (hjoin : joinSignals (elements.map (·.makeSchedulePoint)) = some points) :
    ∀ x ∈ points, x.chosen ≠ none := by
  obtain ⟨kinds, hkinds⟩ : ∃ kinds, elements.map kind = kinds := ⟨_, rfl⟩
  rw [hkinds] at hclosed
  induction hclosed generalizing elements points with
  | nil =>
      rw [List.map_eq_nil_iff] at hkinds
      subst hkinds
      cases hjoin
      exact nofun
  | plain rest _ ih =>
      obtain ⟨x, elements, rfl, hx, hrest⟩ := List.map_eq_cons_iff.mp hkinds
      rw [List.map_cons, DecisionTree.joinSignals_cons _ _ (signal_of_plain hx),
        Option.map_eq_some_iff] at hjoin
      obtain ⟨others, hothers, rfl⟩ := hjoin
      have hbehind := ih elements (fun y hy => hsound y (List.mem_cons_of_mem x hy)) others
        hothers hrest
      refine List.forall_mem_cons.mpr ⟨?_, hbehind⟩
      rw [chosen_of_whole (by rw [hx]; exact ElementKind.noConfusion)]
      exact (hsound x List.mem_cons_self).chosen
  | pair rest _ ih =>
      obtain ⟨x, elements, rfl, hx, hrest⟩ := List.map_eq_cons_iff.mp hkinds
      obtain ⟨y, elements, rfl, hy, hrest⟩ := List.map_eq_cons_iff.mp hrest
      obtain ⟨info, hinfo, -⟩ := signal_of_half hx (hsound x List.mem_cons_self)
      rw [List.map_cons, List.map_cons, joinSignals_half _ _ info hinfo] at hjoin
      split at hjoin
      · obtain ⟨others, hothers, rfl⟩ := Option.map_eq_some_iff.mp hjoin
        have hbehind := ih elements (fun z hz => hsound z
          (List.mem_cons_of_mem x (List.mem_cons_of_mem y hz))) others hothers hrest
        refine List.forall_mem_cons.mpr ⟨?_, hbehind⟩
        rw [chosen_of_whole (by rw [hy]; exact ElementKind.noConfusion)]
        exact (hsound y (by simp)).chosen
      · cases hjoin

theorem chosenIsDone_points (front : List SearchStackElement) (top : SearchStackElement) :
    (front ++ [top.chosenIsDone]).map (·.makeSchedulePoint) =
      (front ++ [top]).map (·.makeSchedulePoint) := by
  rw [List.map_append, List.map_append, List.map_singleton, List.map_singleton,
    (chosenIsDone_spec top).2.1]

theorem chosenIsDone_kinds (front : List SearchStackElement) (top : SearchStackElement) :
    (front ++ [top.chosenIsDone]).map kind = (front ++ [top]).map kind := by
  rw [List.map_append, List.map_append, List.map_singleton, List.map_singleton,
    (chosenIsDone_spec top).1]

theorem buildSchedule_some {search : ChessSearchStack} {target : Schedule}
    (h : search.buildSchedule = some target) :
    joinSignals (search.stack.map (·.makeSchedulePoint)) = some target.schedule ∧
      target.addrlist = search.addrlist := by
  unfold buildSchedule at h
  obtain ⟨points, hpoints, h⟩ := Option.bind_eq_some_iff.mp h
  cases h
  exact ⟨hpoints, rfl⟩

-- The two forms of a target: all of its points are decided, or it ends in an open signal.
inductive TargetForm (search : ChessSearchStack) (target : Schedule) : Prop
  | closed (front : List SearchStackElement) (top : SearchStackElement)
      (hstack : search.stack = front ++ [top]) (hclosed : Closed (search.stack.map kind))
      (hchosen : ∀ x ∈ target.schedule, x.chosen ≠ none) : TargetForm search target
  | half (front : List SearchStackElement) (top : SearchStackElement)
      (hstack : search.stack = front ++ [top]) (hclosed : Closed (front.map kind))
      (hkind : top.kind = .half) (points : List SchedulePoint)
      (hjoin : joinSignals (front.map (·.makeSchedulePoint)) = some points)
      (hchosen : ∀ x ∈ points, x.chosen ≠ none)
      (htarget : target.schedule = points ++ [{ top.makeSchedulePoint with chosen := none }]) :
      TargetForm search target

theorem Inv.targetForm {search : ChessSearchStack} {target : Schedule} (h : Inv search)
    (hne : search.stack ≠ []) (hbuild : search.buildSchedule = some target) :
    TargetForm search target := by
  obtain ⟨hjoin, -⟩ := buildSchedule_some hbuild
  obtain ⟨front, top, hstack⟩ : ∃ front top, search.stack = front ++ [top] :=
    ⟨_, _, (List.dropLast_append_getLast hne).symm⟩
  rcases h.shape with hclosed | ⟨kinds, hkinds, hclosed⟩
  · exact .closed front top hstack hclosed
      (chosen_of_closed search.stack hclosed h.sound target.schedule hjoin)
  · rw [hstack, List.map_append, List.map_singleton] at hkinds
    obtain ⟨rfl, htop⟩ := List.append_inj' hkinds rfl
    have hkind : top.kind = .half := List.singleton_inj.mp htop
    have hsound (x : SearchStackElement) (hx : x ∈ front) : x.Sound :=
      h.sound x (by rw [hstack]; exact List.mem_append_left _ hx)
    obtain ⟨info, hinfo, -⟩ := signal_of_half hkind (h.sound top (by simp [hstack]))
    rw [hstack, List.map_append, joinSignals_append front hclosed hsound] at hjoin
    obtain ⟨points, hpoints, hjoin⟩ := Option.bind_eq_some_iff.mp hjoin
    rw [List.map_singleton, joinSignals, if_pos (by simp [SchedulePoint.isSignal, hinfo])] at hjoin
    exact .half front top hstack hclosed hkind points hpoints
      (chosen_of_closed front hclosed hsound points hpoints) (Option.some.inj hjoin).symm

-- The points that both schedules decide alike are dropped from both.
theorem postfixAfter_front (front points others back : List SchedulePoint)
    (hsame : front.map SchedulePoint.decision = points.map SchedulePoint.decision)
    (hchosen : ∀ x ∈ points, x.chosen ≠ none) :
    Schedule.postfixAfter (front ++ others) (points ++ back) =
      Schedule.postfixAfter others back := by
  induction points generalizing front with
  | nil =>
      rw [List.map_nil, List.map_eq_nil_iff] at hsame
      rw [hsame]
      rfl
  | cons x points ih =>
      obtain ⟨y, front, rfl, hy, hrest⟩ := List.map_eq_cons_iff.mp hsame
      obtain ⟨hsched, hsignalled⟩ := Prod.mk.inj hy
      have hothers := ih front hrest fun z hz => hchosen z (List.mem_cons_of_mem x hz)
      have hx := hchosen x List.mem_cons_self
      rw [List.cons_append, List.cons_append, Schedule.postfixAfter]
      cases hsig : y.signal with
      | none => simp [guard, hsched, hothers]
      | some info =>
          obtain ⟨info', hinfo', heq⟩ : ∃ info', x.signal = some info' ∧
              info'.signalled = info.signalled := by
            cases hsig' : x.signal with
            | none => simp [SchedulePoint.signalled, hsig, hsig'] at hsignalled
            | some info' =>
                simp only [SchedulePoint.signalled, hsig, hsig', Option.map_some,
                  Option.toList_some, List.singleton_inj] at hsignalled
                exact ⟨info', rfl, hsignalled.symm⟩
          simp [guard, hinfo', heq, hx, hsched, hothers]

-- What is left of a result is a part of its end.
theorem exists_postfixAfter (result points back out : List SchedulePoint)
    (hchosen : ∀ x ∈ points, x.chosen ≠ none)
    (h : Schedule.postfixAfter result (points ++ back) = some out) :
    ∃ front others, result = front ++ others ∧ Schedule.postfixAfter others back = some out := by
  induction points generalizing result with
  | nil => exact ⟨[], result, rfl, h⟩
  | cons x points ih =>
      have hx := hchosen x List.mem_cons_self
      cases result with
      | nil => simp [Schedule.postfixAfter] at h
      | cons y result =>
          have hrest : Schedule.postfixAfter result (points ++ back) = some out := by
            rw [List.cons_append, Schedule.postfixAfter] at h
            cases hsig : y.signal with
            | none =>
                simp only [hsig, Option.bind_eq_bind] at h
                exact (Option.bind_eq_some_iff.mp h).choose_spec.2
            | some info =>
                simp only [hsig, Option.bind_eq_bind, hx, if_false, Option.pure_def] at h
                obtain ⟨other, -, h⟩ := Option.bind_eq_some_iff.mp h
                obtain ⟨-, -, h⟩ := Option.bind_eq_some_iff.mp h
                exact (Option.bind_eq_some_iff.mp h).choose_spec.2
          obtain ⟨front, others, hresult, hothers⟩ :=
            ih result (fun z hz => hchosen z (List.mem_cons_of_mem x hz)) hrest
          exact ⟨y :: front, others, by rw [hresult, List.cons_append], hothers⟩

theorem Follows.split (points back result rest : List SchedulePoint)
    (h : Follows (points ++ back) result rest) (hchosen : ∀ x ∈ points, x.chosen ≠ none) :
    ∃ front others, result = front ++ others ∧
      front.map SchedulePoint.decision = points.map SchedulePoint.decision ∧
      Follows back others rest := by
  induction points generalizing result with
  | nil => exact ⟨[], result, rfl, rfl, h⟩
  | cons x points ih =>
      have hx := hchosen x List.mem_cons_self
      obtain ⟨behind, hbehind⟩ : ∃ behind, points ++ back = behind := ⟨_, rfl⟩
      rw [List.cons_append, hbehind] at h
      cases h with
      | point _ y _ result _ _ hsame hrest =>
          obtain ⟨front, others, rfl, hfront, hothers⟩ :=
            ih result (hbehind ▸ hrest) fun z hz => hchosen z (List.mem_cons_of_mem x hz)
          exact ⟨y :: front, others, rfl, by rw [List.map_cons, List.map_cons, hsame, hfront],
            hothers⟩
      | openSignal _ y tail hnone => exact absurd hnone hx

theorem getPostfixAfter_some {target result postfix_sched : Schedule}
    (h : result.getPostfixAfter target = some postfix_sched) :
    result.addrlist = target.addrlist ∧ ∃ out,
      Schedule.postfixAfter result.schedule target.schedule = some out ∧
      postfix_sched = { result with schedule := out } := by
  unfold Schedule.getPostfixAfter at h
  obtain ⟨-, -, h⟩ := Option.bind_eq_some_iff.mp h
  obtain ⟨_, haddr, h⟩ := Option.bind_eq_some_iff.mp h
  obtain ⟨out, hout, h⟩ := Option.bind_eq_some_iff.mp h
  refine ⟨?_, out, hout, (Option.some.inj h).symm⟩
  by_contra hne
  simp [guard, hne] at haddr

theorem length_postfixAfter (result target out : List SchedulePoint)
    (h : Schedule.postfixAfter result target = some out) : target.length ≤ result.length := by
  induction target generalizing result with
  | nil => simp
  | cons x target ih =>
      cases result with
      | nil => cases h
      | cons y result =>
          rw [List.length_cons, List.length_cons]
          rw [Schedule.postfixAfter] at h
          cases hsig : y.signal with
          | none =>
              simp only [hsig, Option.bind_eq_bind] at h
              have hrest := ih result (Option.bind_eq_some_iff.mp h).choose_spec.2
              omega
          | some info =>
              simp only [hsig, Option.bind_eq_bind, Option.pure_def] at h
              obtain ⟨other, -, h⟩ := Option.bind_eq_some_iff.mp h
              obtain ⟨-, -, h⟩ := Option.bind_eq_some_iff.mp h
              split at h
              · obtain ⟨_, hempty, -⟩ := Option.bind_eq_some_iff.mp h
                cases target with
                | nil => simp
                | cons z target => simp [guard] at hempty
              · have hrest := ih result (Option.bind_eq_some_iff.mp h).choose_spec.2
                omega

theorem getPostfixAfter_eq (target result : Schedule) (out : List SchedulePoint)
    (haddr : result.addrlist = target.addrlist)
    (h : Schedule.postfixAfter result.schedule target.schedule = some out) :
    result.getPostfixAfter target = some { result with schedule := out } := by
  have hlength := length_postfixAfter result.schedule target.schedule out h
  simp [Schedule.getPostfixAfter, guard, haddr, h, hlength]

theorem issignal_of_half {element : SearchStackElement} (h : element.kind = .half) :
    element.issignal = true := by
  unfold kind at h
  split_ifs at h with hkind hsignal
  exact hkind

-- New points on top of whole points, none of them a preemption.
theorem Inv.mergePoints {search : ChessSearchStack} (h : Inv search)
    (hclosed : Closed (search.stack.map kind)) (points : List SchedulePoint)
    (hnamed : ∀ x ∈ points, x.Named) (elements : List SearchStackElement)
    (helements : elementsOf points = some elements) (htotal : total elements = 0) :
    elements.foldlM push search = some (search.withStack (search.stack ++ elements)) ∧
      Inv (search.withStack (search.stack ++ elements)) := by
  obtain ⟨hkinds, hfresh, -⟩ := elementsOf_spec points elements helements
  have hfits : total (search.stack ++ elements) ≤ search.preempt_bound := by
    have hcounted := h.counted.fits
    rw [total_append]
    omega
  refine ⟨?_, h.append elements ?_ ?_ hfits⟩
  · rw [foldlM_push h.counted, if_pos hfits]
  · rw [List.map_append]
    exact Or.inl (hclosed.append hkinds)
  · intro element helement
    obtain ⟨hnew, hpoint⟩ := hfresh element helement
    exact sound_of_fresh hnew (hnamed _ hpoint)

-- The other half of a signal point goes on top of its signal element.
theorem Inv.pushWhole {search search' : ChessSearchStack} (h : Inv search)
    (front : List SearchStackElement) (top : SearchStackElement)
    (hstack : search.stack = front ++ [top]) (hclosed : Closed (front.map kind))
    (hkind : top.kind = .half) (x : SchedulePoint) (hsignal : x.isSignal = true)
    (hnamed : x.Named) (element : SearchStackElement) (hnew : new x false = some element)
    (hpush : search.push element = some search') :
    search' = search.withStack (search.stack ++ [element]) ∧ Inv search' ∧
      Closed (search'.stack.map kind) := by
  obtain ⟨hpoint, hwhole, hfresh⟩ := new_spec x false element hnew
  obtain ⟨hfits, rfl⟩ := push_some h.counted.plain element hpush
  have hkinds : Closed ((search.stack ++ [element]).map kind) := by
    have helement : element.kind = .whole := by simp [kind, hwhole, hpoint, hsignal]
    rw [hstack, List.map_append, List.map_append, List.map_singleton, List.map_singleton, hkind,
      helement, List.append_assoc]
    exact hclosed.append (Closed.pair [] Closed.nil)
  refine ⟨rfl, h.append [element] (Or.inl hkinds) ?_ hfits, hkinds⟩
  intro element' helement
  rw [List.mem_singleton.mp helement]
  exact sound_of_fresh hfresh (by rw [hpoint]; exact hnamed)

-- A point whose choice for a signal is open in the target.
theorem postfixAfter_half (x : SchedulePoint) (others out : List SchedulePoint)
    (hopen : x.chosen = none) (hnamed : ∀ y ∈ others, y.chosen ≠ none)
    (h : Schedule.postfixAfter others [x] = some out) :
    ∃ y info tail, others = y :: tail ∧ y.signal = some info ∧
      out = { y with signal := some { info with signalled := none } } :: tail := by
  cases others with
  | nil => cases h
  | cons y tail =>
      rw [Schedule.postfixAfter] at h
      cases hsignal : y.signal with
      | none =>
          have hy := hnamed y List.mem_cons_self
          simp [hsignal, guard, hopen, hy] at h
      | some info =>
          simp only [hsignal, Option.bind_eq_bind, hopen, if_true, Option.pure_def] at h
          obtain ⟨other, -, h⟩ := Option.bind_eq_some_iff.mp h
          obtain ⟨-, -, h⟩ := Option.bind_eq_some_iff.mp h
          obtain ⟨-, -, h⟩ := Option.bind_eq_some_iff.mp h
          exact ⟨y, info, tail, rfl, hsignal, (Option.some.inj h).symm⟩

theorem named_decide {y : SchedulePoint} (h : y.Named) (info : SignalInfo)
    (hsignal : y.signal = some info) (name : Name) (hname : name ≠ none) :
    ({ y with signal := some { info with signalled := name } } : SchedulePoint).Named := by
  refine ⟨h.chosen, h.enabled, fun info' hinfo => ?_⟩
  obtain rfl := Option.some.inj hinfo
  exact ⟨hname, (h.signal info hsignal).2⟩

-- Whatever result a search stack takes in, it keeps its form.
theorem Inv.regenerate {search search' : ChessSearchStack} {target result : Schedule}
    (h : Inv search) (hform : TargetForm search target)
    (haddr : target.addrlist = search.addrlist) (hnamed : ∀ x ∈ result.schedule, x.Named)
    (hregenerate : search.regenerate target result = some search') :
    Inv search' ∧ search'.addrlist = search.addrlist := by
  obtain ⟨postfix_sched, hremains, -⟩ := Option.bind_eq_some_iff.mp hregenerate
  obtain ⟨haddr', out, hout, rfl⟩ := getPostfixAfter_some hremains
  have haddrlist : result.addrlist = search.addrlist := haddr'.trans haddr
  cases hform with
  | closed front top hstack hclosed hchosen =>
      obtain ⟨before, others, hresult, hothers⟩ := exists_postfixAfter result.schedule
        target.schedule [] out hchosen (by rw [List.append_nil]; exact hout)
      obtain rfl : others = out := by
        cases others with
        | nil => exact Option.some.inj hothers
        | cons y tail => exact Option.some.inj hothers
      have hout' (x : SchedulePoint) (hx : x ∈ others) : x.Named :=
        hnamed x (by rw [hresult]; exact List.mem_append_right _ hx)
      rw [regenerate_closed h front top hstack target result others hremains
        (fun x hx info hinfo => ((hout' x (List.mem_of_mem_head? hx)).signal info hinfo).1)
        haddrlist] at hregenerate
      obtain ⟨elements, helements, hmerge⟩ := Option.bind_eq_some_iff.mp hregenerate
      split at hmerge
      · rename_i htotal
        obtain ⟨-, hinv⟩ := h.stackTopIsDone front top hstack
        have hkinds : Closed ((front ++ [top.chosenIsDone]).map kind) := by
          rw [chosenIsDone_kinds, ← hstack]
          exact hclosed
        obtain ⟨hfold, hinv'⟩ := hinv.mergePoints hkinds others hout' elements helements htotal
        rw [hfold] at hmerge
        cases hmerge
        exact ⟨hinv', rfl⟩
      · cases hmerge
  | half front top hstack hclosed hkind points hjoin hchosen htarget =>
      rw [htarget] at hout
      obtain ⟨before, others, hresult, hothers⟩ := exists_postfixAfter result.schedule points
        [{ top.makeSchedulePoint with chosen := none }] out hchosen hout
      have hothers' (x : SchedulePoint) (hx : x ∈ others) : x.Named :=
        hnamed x (by rw [hresult]; exact List.mem_append_right _ hx)
      obtain ⟨y, info, tail, rfl, hinfo, rfl⟩ := postfixAfter_half _ others out rfl
        (fun x hx => (hothers' x hx).chosen) hothers
      have htop := h.sound top (by simp [hstack])
      rw [regenerate_open h front top hstack (issignal_of_half hkind) target result y info tail
        hremains haddrlist] at hregenerate
      obtain ⟨element, hnew, hregenerate⟩ := Option.bind_eq_some_iff.mp hregenerate
      obtain ⟨pushed, hpush, hregenerate⟩ := Option.bind_eq_some_iff.mp hregenerate
      obtain ⟨elements, helements, hmerge⟩ := Option.bind_eq_some_iff.mp hregenerate
      obtain ⟨-, hinv⟩ := h.stackTopIsDone front top hstack
      obtain ⟨hpushed, hinv', hclosed'⟩ := hinv.pushWhole front top.chosenIsDone rfl hclosed
        ((chosenIsDone_spec top).1.trans hkind) _ rfl
        (named_decide (hothers' y List.mem_cons_self) info hinfo top.chosen htop.chosen) element
        hnew hpush
      split at hmerge
      · rename_i htotal
        obtain ⟨hfold, hinv''⟩ := hinv'.mergePoints hclosed' tail
          (fun x hx => hothers' x (List.mem_cons_of_mem y hx)) elements helements htotal
        rw [hfold] at hmerge
        cases hmerge
        refine ⟨hinv'', ?_⟩
        rw [hpushed]
        rfl
      · cases hmerge

-- The search stacks of a check, between two of its turns, with whatever the program does.
inductive Reached (bound : Nat) (addrlist : List String) : ChessSearchStack → Prop
  | initial (search : ChessSearchStack) (sched : Schedule)
      (hnamed : ∀ x ∈ sched.schedule, x.Named)
      (hgenerate : ({ preempt_bound := 0, addrlist } : ChessSearchStack).generateSearchStack bound
        sched = some search) : Reached bound addrlist search
  | turn (search search' search'' : ChessSearchStack) (target result : Schedule)
      (hreached : Reached bound addrlist search)
      (hnext : search.generateNextSchedule = some (some target, search'))
      (hnamed : ∀ x ∈ result.schedule, x.Named)
      (hregenerate : search'.regenerate target result = some search'') :
      Reached bound addrlist search''

theorem inv_generateSearchStack (bound : Nat) (addrlist : List String) (sched : Schedule)
    (search : ChessSearchStack) (hnamed : ∀ x ∈ sched.schedule, x.Named)
    (h : ({ preempt_bound := 0, addrlist } : ChessSearchStack).generateSearchStack bound sched =
      some search) : Inv search ∧ search.addrlist = addrlist := by
  have hempty : Counted { preempt_bound := bound, addrlist } := ⟨rfl, rfl, Nat.zero_le bound⟩
  obtain ⟨-, -, h⟩ := Option.bind_eq_some_iff.mp h
  rw [show ({ preempt_bound := 0, addrlist } : ChessSearchStack).getEmptySearchStack bound
    addrlist = { preempt_bound := bound, addrlist } from rfl, foldlM_pushPoint hempty] at h
  obtain ⟨elements, helements, h⟩ := Option.bind_eq_some_iff.mp h
  rw [foldlM_push hempty] at h
  split at h
  · rename_i hfits
    obtain rfl := Option.some.inj h
    obtain ⟨hclosed, hfresh, -⟩ := elementsOf_spec sched.schedule elements helements
    refine ⟨⟨hempty.withStack _ hfits, Or.inl hclosed, fun element helement => ?_⟩, rfl⟩
    obtain ⟨hnew, hpoint⟩ := hfresh element helement
    exact sound_of_fresh hnew (hnamed _ hpoint)
  · cases h

theorem Reached.inv {bound : Nat} {addrlist : List String} {search : ChessSearchStack}
    (h : Reached bound addrlist search) : Inv search ∧ search.addrlist = addrlist := by
  induction h with
  | initial search sched hnamed hgenerate =>
      exact inv_generateSearchStack bound addrlist sched search hnamed hgenerate
  | turn search search' search'' target result _ hnext hnamed hregenerate ih =>
      obtain ⟨hinv, haddr⟩ := ih
      obtain ⟨hinv', hbuild, hne, -, haddr'⟩ := hinv.nextSchedule search.stack.length hnext
      obtain ⟨hinv'', haddr''⟩ := hinv'.regenerate (hinv'.targetForm hne hbuild)
        (buildSchedule_some hbuild).2 hnamed hregenerate
      exact ⟨hinv'', (haddr''.trans haddr').trans haddr⟩

-- What `regenerate` makes of a result: it builds the result's decisions again, and the elements
-- from before keep what they have to do below new elements.
structure Regenerated (search search' : ChessSearchStack) (result : Schedule) : Prop where
  built : ∃ built, search'.buildSchedule = some built ∧
    built.schedule.map SchedulePoint.decision = result.schedule.map SchedulePoint.decision
  stack : ∃ kept added, search'.stack = kept ++ added ∧
    kept.map (·.todo) = search.stack.map (·.todo) ∧ ∀ element ∈ added, element.Fresh

-- A target that leaves nothing open.
theorem Inv.regenerate_decided {search : ChessSearchStack} {target result : Schedule}
    (h : Inv search) (front : List SearchStackElement) (top : SearchStackElement)
    (hstack : search.stack = front ++ [top]) (hclosed : Closed (search.stack.map kind))
    (hbuild : search.buildSchedule = some target) (hchosen : ∀ x ∈ target.schedule, x.chosen ≠ none)
    (hnamed : ∀ x ∈ result.schedule, x.Named) (haddr : result.addrlist = search.addrlist)
    (rest : List SchedulePoint) (hfollows : Follows target.schedule result.schedule rest)
    (hfree : ∀ x ∈ rest, x.Free) :
    ∃ search', search.regenerate target result = some search' ∧
      Regenerated search search' result := by
  obtain ⟨hjoin, haddr'⟩ := buildSchedule_some hbuild
  obtain ⟨before, others, hresult, hbefore, hdone⟩ := Follows.split target.schedule []
    result.schedule rest (by rw [List.append_nil]; exact hfollows) hchosen
  obtain rfl : others = rest := by
    cases hdone
    rfl
  have hnamed' (x : SchedulePoint) (hx : x ∈ others) : x.Named :=
    hnamed x (by rw [hresult]; exact List.mem_append_right _ hx)
  have hout : Schedule.postfixAfter result.schedule target.schedule = some others := by
    have hafter := postfixAfter_front before target.schedule others [] hbefore hchosen
    rw [List.append_nil, ← hresult] at hafter
    rw [hafter]
    cases others with
    | nil => rfl
    | cons y tail => rfl
  obtain ⟨elements, helements, htotal⟩ := exists_elementsOf_free others hfree
  obtain ⟨-, hfresh, hpoints⟩ := elementsOf_spec others elements helements
  obtain ⟨-, hinv⟩ := h.stackTopIsDone front top hstack
  have hkinds : Closed ((front ++ [top.chosenIsDone]).map kind) := by
    rw [chosenIsDone_kinds, ← hstack]
    exact hclosed
  obtain ⟨hfold, -⟩ := hinv.mergePoints hkinds others hnamed' elements helements htotal
  refine ⟨search.withStack (front ++ [top.chosenIsDone] ++ elements), ?_,
    ⟨⟨{ schedule := target.schedule ++ others, addrlist := search.addrlist }, ?_, ?_⟩,
    front ++ [top.chosenIsDone], elements, rfl, ?_,
    fun element helement => (hfresh element helement).1⟩⟩
  · rw [regenerate_closed h front top hstack target result others
      (getPostfixAfter_eq target result others (haddr.trans haddr'.symm) hout)
      (fun x hx info hinfo => ((hnamed' x (List.mem_of_mem_head? hx)).signal info hinfo).1) haddr,
      helements, Option.bind_some, if_pos htotal]
    exact hfold
  · have hdone := joinSignals_append search.stack hclosed h.sound
      (elements.map (·.makeSchedulePoint))
    have htail := hpoints []
    rw [List.append_nil] at htail
    rw [buildSchedule, withStack_stack, List.map_append, chosenIsDone_points,
      ← hstack, hdone, hjoin, htail]
    simp [joinSignals]
  · rw [hresult, List.map_append, List.map_append, hbefore]
  · simp [hstack, (chosenIsDone_spec top).2.2.2.2.1]

-- A target that ends in an open signal: the point is split across the old element and a new one.
theorem Inv.regenerate_half {search : ChessSearchStack} {target result : Schedule}
    (h : Inv search) (front : List SearchStackElement) (top : SearchStackElement)
    (hstack : search.stack = front ++ [top]) (hclosed : Closed (front.map kind))
    (hkind : top.kind = .half) (points : List SchedulePoint)
    (hjoin : joinSignals (front.map (·.makeSchedulePoint)) = some points)
    (hchosen : ∀ x ∈ points, x.chosen ≠ none)
    (htarget : target.schedule = points ++ [{ top.makeSchedulePoint with chosen := none }])
    (haddr' : target.addrlist = search.addrlist)
    (hnamed : ∀ x ∈ result.schedule, x.Named) (haddr : result.addrlist = search.addrlist)
    (rest : List SchedulePoint) (hfollows : Follows target.schedule result.schedule rest)
    (hfree : ∀ x ∈ rest, x.Free) :
    ∃ search', search.regenerate target result = some search' ∧
      Regenerated search search' result := by
  have hsound (x : SearchStackElement) (hx : x ∈ front) : x.Sound :=
    h.sound x (by rw [hstack]; exact List.mem_append_left _ hx)
  obtain ⟨info', hinfo', hsignalled'⟩ := signal_of_half hkind (h.sound top (by simp [hstack]))
  obtain ⟨before, others, hresult, hbefore, hlast⟩ := Follows.split points
    [{ top.makeSchedulePoint with chosen := none }] result.schedule rest
    (by rw [← htarget]; exact hfollows) hchosen
  obtain ⟨y, tail, rfl, rfl, hsignalled, hcaller⟩ : ∃ y tail, others = y :: tail ∧
      rest = y :: tail ∧ y.signalled = top.makeSchedulePoint.signalled ∧
      y.caller = top.makeSchedulePoint.caller := by
    cases hlast with
    | point _ y _ result _ hsome => exact absurd rfl hsome
    | openSignal _ y tail _ hsignalled hcaller => exact ⟨y, tail, rfl, rfl, hsignalled, hcaller⟩
  obtain ⟨info, hinfo, hchoice⟩ : ∃ info, y.signal = some info ∧ info.signalled = top.chosen := by
    cases hinfo : y.signal with
    | none => simp [SchedulePoint.signalled, hinfo, hinfo'] at hsignalled
    | some info =>
        simp only [SchedulePoint.signalled, hinfo, hinfo', Option.map_some, Option.toList_some,
          List.singleton_inj] at hsignalled
        exact ⟨info, rfl, hsignalled.trans hsignalled'⟩
  have hnamed' (x : SchedulePoint) (hx : x ∈ y :: tail) : x.Named :=
    hnamed x (by rw [hresult]; exact List.mem_append_right _ hx)
  have hfree' (x : SchedulePoint) (hx : x ∈ tail) : x.Free :=
    hfree x (List.mem_cons_of_mem y hx)
  have hout : Schedule.postfixAfter result.schedule target.schedule =
      some ({ y with signal := some { info with signalled := none } } :: tail) := by
    rw [hresult, htarget, postfixAfter_front before points _ _ hbefore hchosen]
    simp [Schedule.postfixAfter, hinfo, hinfo', guard, hchoice, hsignalled']
  -- What was signalled is what the element on top says, so the point is whole again.
  have hpoint : ({ y with signal := some { info with signalled := top.chosen } } :
      SchedulePoint) = y := by
    rw [← hchoice, ← hinfo]
  obtain ⟨element, hnew⟩ := exists_new_sched y (hfree y List.mem_cons_self).chosen
  obtain ⟨hof, hwhole, hfresh⟩ := new_spec y false element hnew
  obtain ⟨elements, helements, htotal⟩ := exists_elementsOf_free tail hfree'
  obtain ⟨-, hfreshs, hpoints⟩ := elementsOf_spec tail elements helements
  obtain ⟨hkindDone, hmakeDone, -, -, htodoDone, -⟩ := chosenIsDone_spec top
  obtain ⟨-, hinv⟩ := h.stackTopIsDone front top hstack
  have hfits : total (front ++ [top.chosenIsDone] ++ [element]) ≤ search.preempt_bound := by
    have hcounted := hinv.counted.fits
    have helement : total [element] = 0 := total_of_free [element] fun x hx => by
      rw [List.mem_singleton.mp hx, hof]
      exact ⟨hfresh, hfree y List.mem_cons_self⟩
    rw [total_append]
    exact helement ▸ hcounted
  have hpush : (search.withStack (front ++ [top.chosenIsDone])).push element =
      some (search.withStack (front ++ [top.chosenIsDone] ++ [element])) := by
    rw [push_eq hinv.counted.plain]
    exact if_pos hfits
  obtain ⟨-, hinv', hclosed'⟩ := hinv.pushWhole front top.chosenIsDone rfl hclosed
    (hkindDone.trans hkind) y (by simp [SchedulePoint.isSignal, hinfo])
    (hnamed' y List.mem_cons_self) element hnew hpush
  obtain ⟨hfold, -⟩ := hinv'.mergePoints hclosed' tail
    (fun x hx => hnamed' x (List.mem_cons_of_mem y hx)) elements helements htotal
  refine ⟨search.withStack (front ++ [top.chosenIsDone] ++ [element] ++ elements), ?_,
    ⟨⟨{ schedule := points ++ y :: tail, addrlist := search.addrlist }, ?_, ?_⟩,
    front ++ [top.chosenIsDone], element :: elements, ?_, ?_, ?_⟩⟩
  · rw [regenerate_open h front top hstack (issignal_of_half hkind) target result y info tail
      (getPostfixAfter_eq target result _ (haddr.trans haddr'.symm) hout) haddr, hpoint, hnew,
      Option.bind_some, hpush, Option.bind_some, helements, Option.bind_some, if_pos htotal]
    exact hfold
  · have hfront := joinSignals_append front hclosed hsound
      (top.makeSchedulePoint :: y :: elements.map (·.makeSchedulePoint))
    have htail := hpoints []
    rw [List.append_nil] at htail
    have hcheck : (y.signal.any fun following => following.signalled == info'.signalled) ∧
        y.caller = top.makeSchedulePoint.caller := ⟨by simp [hinfo, hchoice, hsignalled'], hcaller⟩
    rw [hjoin, joinSignals_half _ _ info' hinfo', if_pos hcheck, htail] at hfront
    have hall : joinSignals ((front ++ [top.chosenIsDone] ++ [element] ++ elements).map
        (·.makeSchedulePoint)) = some (points ++ y :: tail) := by
      simp only [List.append_assoc, List.map_append, List.map_cons, List.cons_append,
        List.nil_append, hmakeDone, hfresh.makeSchedulePoint, hof]
      rw [hfront]
      simp [joinSignals]
    rw [buildSchedule, withStack_stack, hall]
    rfl
  · rw [hresult, List.map_append, List.map_append, hbefore]
  · simp
  · simp [hstack, htodoDone]
  · intro x hx
    rcases List.mem_cons.mp hx with rfl | hx
    · exact hfresh
    · exact (hfreshs x hx).1

-- Every target of a check takes in every result that follows it without a preemption.
theorem regenerate_follows (bound : Nat) (addrlist : List String)
    (search search' : ChessSearchStack) (target result : Schedule) (rest : List SchedulePoint)
    (hreached : Reached bound addrlist search)
    (hnext : search.generateNextSchedule = some (some target, search'))
    (hnamed : ∀ x ∈ result.schedule, x.Named) (haddr : result.addrlist = addrlist)
    (hfollows : Follows target.schedule result.schedule rest)
    (hchecked : ∀ x ∈ rest, x.Checked)
    (hpreemptions : ({ schedule := rest } : Schedule)._getPreemptions = 0) :
    ∃ search'', search'.regenerate target result = some search'' ∧
      Regenerated search' search'' result := by
  obtain ⟨hinv, haddrlist⟩ := hreached.inv
  obtain ⟨hinv', hbuild, hne, -, haddrlist'⟩ := hinv.nextSchedule search.stack.length hnext
  have hfree := Schedule.free_of_preemptions rest hchecked hpreemptions
  have haddr' : result.addrlist = search'.addrlist :=
    haddr.trans (haddrlist'.trans haddrlist).symm
  cases hinv'.targetForm hne hbuild with
  | closed front top hstack hclosed hchosen =>
      exact hinv'.regenerate_decided front top hstack hclosed hbuild hchosen hnamed haddr' rest
        hfollows hfree
  | half front top hstack hclosed hkind points hjoin hchosen htarget =>
      exact hinv'.regenerate_half front top hstack hclosed hkind points hjoin hchosen htarget
        (buildSchedule_some hbuild).2 hnamed haddr' rest hfollows hfree

deriving instance DecidableEq for SearchStackElement

deriving instance DecidableEq for ChessSearchStack

-- A thread sends a signal to one of two waiting threads, and goes on itself.
def twoWaiting (signalled : Name) : SchedulePoint where
  chosen := some "0"
  caller := some "0"
  type := "Simulate_Signal"
  addr := "4"
  enabled := [some "0"]
  signal := some { signalled := signalled, cond := "8", oncond := [some "2", some "1"] }

-- The signalled thread is all that is left to run.
def wokenUp : SchedulePoint where
  chosen := some "2"
  caller := some "0"
  type := "Lock"
  addr := "5"
  enabled := [some "2"]

def waitersSearch : ChessSearchStack where
  preempt_bound := 0
  addrlist := ["4"]
  stack := [
    { schedule_point := twoWaiting (some "1"), issignal := true, ischeckpoint := false
      done := [some "1"], chosen := some "1", todo := [some "2"] },
    { schedule_point := twoWaiting (some "1"), issignal := false, ischeckpoint := false
      done := [some "0"], chosen := some "0", todo := [] }]

-- The other thread is signalled; who goes on after that is open.
def signalledSearch : ChessSearchStack where
  preempt_bound := 0
  addrlist := ["4"]
  stack := [
    { schedule_point := twoWaiting (some "1"), issignal := true, ischeckpoint := false
      done := [some "1"], chosen := some "2", todo := [] }]

theorem regenerate_follows_twoWaiting :
    ∃ search'', signalledSearch.regenerate
        { schedule := [{ twoWaiting (some "2") with chosen := none }], addrlist := ["4"] }
        { schedule := [twoWaiting (some "2"), wokenUp], addrlist := ["4"] } = some search'' ∧
      Regenerated signalledSearch search''
        { schedule := [twoWaiting (some "2"), wokenUp], addrlist := ["4"] } :=
  have hnamed (x : SchedulePoint) (hx : x ∈ [twoWaiting (some "2"), wokenUp]) : x.Named := by
    rcases List.mem_pair.mp hx with rfl | rfl
    · exact ⟨by decide, by decide, fun info hinfo => by cases hinfo; exact ⟨by decide, by decide⟩⟩
    · exact ⟨by decide, by decide, fun info hinfo => by cases hinfo⟩
  have hchecked (x : SchedulePoint) (hx : x ∈ [twoWaiting (some "2"), wokenUp]) : x.Checked := by
    rcases List.mem_pair.mp hx with rfl | rfl
    · exact ⟨by decide, fun info hinfo => by cases hinfo; decide⟩
    · exact ⟨by decide, fun info hinfo => by cases hinfo⟩
  have hfirst (x : SchedulePoint) (hx : x ∈ [twoWaiting (some "1")]) : x.Named := by
    rw [List.mem_singleton.mp hx]
    exact ⟨by decide, by decide, fun info hinfo => by cases hinfo; exact ⟨by decide, by decide⟩⟩
  regenerate_follows 0 ["4"] waitersSearch signalledSearch _ _ [twoWaiting (some "2"), wokenUp]
    (Reached.initial _ { schedule := [twoWaiting (some "1")], addrlist := ["4"] } hfirst
      (by decide +kernel)) (by decide +kernel) hnamed rfl (Follows.openSignal _ _ _ rfl rfl rfl)
    hchecked (by decide +kernel)

end ChessSearchStack

end Thrille
