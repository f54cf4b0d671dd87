import Thrille.Schedule.Switches
import Thrille.Tinertia

namespace Thrille

open Switches

namespace Schedule

section Lists

variable {α : Type} (front back : List α) (x y : α)

theorem eraseIdx_length : (front ++ x :: back).eraseIdx front.length = front ++ back := by
  rw [List.eraseIdx_append_of_length_le (Nat.le_refl _), Nat.sub_self, List.eraseIdx_cons_zero]

theorem insertIdx_length : (front ++ back).insertIdx front.length x = front ++ x :: back := by
  induction front with
  | nil => rfl
  | cons y front ih => rw [List.cons_append, List.length_cons, List.insertIdx_succ_cons, ih]; rfl

theorem modify_length (f : α → α) :
    (front ++ x :: back).modify front.length f = front ++ f x :: back := by
  induction front with
  | nil => rfl
  | cons y front ih => rw [List.cons_append, List.length_cons, List.modify_succ_cons, ih]; rfl

-- Behind fewer points of a block comes something else than behind more of them.
theorem take_append_ne {front block post tail tail' : List α} {a : α} {n k : Nat}
    (hblock : ∀ x ∈ block, x = a) (hlt : n < k) (hk : k ≤ block.length)
    (hpost : ∃ x ∈ post.head?, x ≠ a) :
    front ++ (block.take n ++ (post ++ tail)) ≠ front ++ (block.take k ++ tail') := by
  intro heq
  obtain ⟨x, hx, hne⟩ := hpost
  obtain ⟨rest, rfl⟩ : ∃ rest, post = x :: rest := by
    cases post with
    | nil => cases hx
    | cons y rest => exact ⟨rest, by rw [Option.some.inj hx]⟩
  have hsplit : block.take k = block.take n ++ (block.drop n).take (k - n) := by
    rw [← List.take_add]
    congr 1
    omega
  rw [hsplit, List.append_assoc] at heq
  have hrest := List.append_cancel_left (List.append_cancel_left heq)
  have hpos : 0 < ((block.drop n).take (k - n)).length := by
    rw [List.length_take, List.length_drop]
    omega
  obtain ⟨y, more, hcons⟩ := List.exists_cons_of_length_pos hpos
  rw [hcons, List.cons_append, List.cons_append] at hrest
  have hmem : y ∈ block :=
    List.mem_of_mem_drop (List.mem_of_mem_take (hcons ▸ List.mem_cons_self))
  exact hne ((List.cons.inj hrest).1.trans (hblock y hmem))

end Lists

theorem length_chosens (sched : List SchedulePoint) : (chosens sched).length = sched.length :=
  List.length_map _

theorem take_chosens (front back : List SchedulePoint) :
    (chosens (front ++ back)).take front.length = chosens front := by
  rw [chosens_append]
  exact List.take_left' (length_chosens front)

theorem drop_chosens (front back : List SchedulePoint) :
    (chosens (front ++ back)).drop front.length = chosens back := by
  rw [chosens_append]
  exact List.drop_left' (length_chosens front)

theorem length_of_chosens {first second : List SchedulePoint} (h : chosens first = chosens second) :
    first.length = second.length := by
  rw [← length_chosens first, ← length_chosens second, h]

theorem chosens_take (n : Nat) (sched : List SchedulePoint) :
    chosens (sched.take n) = (chosens sched).take n := List.map_take

theorem chosens_drop (n : Nat) (sched : List SchedulePoint) :
    chosens (sched.drop n) = (chosens sched).drop n := List.map_drop

theorem chosens_eq_replicate {thread : Name} {sched : List SchedulePoint}
    (h : ∀ x ∈ sched, x.chosen = thread) :
    chosens sched = List.replicate sched.length thread := by
  rw [List.eq_replicate_iff]
  refine ⟨List.length_map _, ?_⟩
  intro name hname
  obtain ⟨x, hx, rfl⟩ := List.mem_map.mp hname
  exact h x hx

theorem forall_chosen_iff (thread : Name) (sched : List SchedulePoint) :
    (∀ x ∈ sched, x.chosen = thread) ↔ ∀ name ∈ chosens sched, name = thread := by
  simp [chosens]

theorem chosens_swapChosen (front back : List SchedulePoint) (x y : SchedulePoint) :
    chosens (swapChosen front.length (front ++ x :: y :: back)) =
      chosens front ++ y.chosen :: x.chosen :: chosens back := by
  have hx : (front ++ x :: y :: back)[front.length]? = some x := by simp
  have hy : (front ++ x :: y :: back)[front.length + 1]? = some y := by simp
  rw [swapChosen, hx, hy]
  simp [chosens]

theorem chosens_modify_setAddr (sched : List SchedulePoint) (i : Nat) (addr : String) :
    chosens (sched.modify i (setAddr addr)) = chosens sched := by
  rw [chosens, chosens]
  induction sched generalizing i with
  | nil => simp
  | cons x rest ih =>
      cases i with
      | zero => rfl
      | succ i => simp [ih i]

-- One action: of the points of the thread that is preempted at `point`, one comes before it.
theorem chosens_consolidateActionForward (front post back : List SchedulePoint)
    (point first : SchedulePoint) (haway : ∀ x ∈ point :: post, x.chosen ≠ point.caller)
    (hfirst : first.chosen = point.caller) :
    ∃ sched, _consolidateActionForward (front ++ point :: post ++ first :: back) front.length =
        some sched ∧
      chosens sched = chosens front ++ point.caller :: chosens (point :: post) ++ chosens back := by
  have hpoint : (front ++ point :: post ++ first :: back)[front.length]? = some point := by simp
  have hsearch : scanUp (·.chosen == point.caller) (front ++ point :: post ++ first :: back)
      (front.length + 1) = (front ++ point :: post).length := by
    have hdrop : (front ++ point :: post ++ first :: back).drop (front.length + 1) =
        post ++ first :: back := by
      simp
    have hpost : ∀ x ∈ post, (x.chosen == point.caller) = false := by
      intro x hx
      simpa using haway x (List.mem_cons_of_mem point hx)
    rw [scanUp, hdrop, List.findIdx_append, List.findIdx_eq_length_of_false hpost,
      if_neg (Nat.lt_irrefl _), List.findIdx_cons, hfirst, beq_self_eq_true]
    simp
    omega
  have htmp : (front ++ point :: post ++ first :: back)[(front ++ point :: post).length]? =
      some first := by
    simp
  have hafter : (front ++ point :: post ++ first :: back)[(front ++ point :: post).length + 1]? =
      back.head? := by
    rw [List.getElem?_append_right (Nat.le_succ _)]
    simp [List.head?_eq_getElem?]
  have hinside : front.length + 1 < (front ++ point :: post ++ first :: back).length := by
    simp
  -- a point that goes between the frontier and the rest, and takes the frontier's thread
  have hmoved (x : SchedulePoint) (rest : List SchedulePoint) :
      chosens (swapChosen front.length
        ((front ++ point :: rest).insertIdx (front.length + 1) x)) =
        chosens front ++ x.chosen :: point.chosen :: chosens rest := by
    have hinsert := insertIdx_length (front ++ [point]) rest x
    rw [List.length_append, List.length_singleton, List.append_assoc, List.append_assoc,
      List.singleton_append, List.singleton_append] at hinsert
    rw [hinsert, chosens_swapChosen]
  have herase (l : List SchedulePoint) (x : SchedulePoint) :
      (front ++ point :: post ++ x :: l).eraseIdx (front ++ point :: post).length =
        front ++ point :: (post ++ l) := by
    rw [eraseIdx_length, List.append_assoc, List.cons_append]
  simp only [_consolidateActionForward, hpoint, hsearch, htmp, hafter, guard, if_pos hinside,
    if_pos (haway point List.mem_cons_self).symm, Option.bind_eq_bind, Option.pure_def,
    Option.bind_some]
  cases back with
  | nil =>
      refine ⟨_, rfl, ?_⟩
      rw [chosens_modify_setAddr, herase, hmoved, hfirst]
      simp
  | cons z rest =>
      simp only [List.head?_cons]
      split
      · rename_i hsame
        refine ⟨_, rfl, ?_⟩
        have hz : (front ++ point :: post ++ first :: z :: rest).eraseIdx
            ((front ++ point :: post).length + 1) = front ++ point :: (post ++ first :: rest) := by
          have herase' := eraseIdx_length (front ++ point :: post ++ [first]) rest z
          rw [List.length_append, List.length_singleton] at herase'
          simpa using herase'
        rw [hz, hmoved, hsame]
        simp [hfirst, hsame]
      · refine ⟨_, rfl, ?_⟩
        have hz : (front ++ point :: post ++ first :: z :: rest).modify
            ((front ++ point :: post).length + 1) (setAddr first.addr) =
            front ++ point :: post ++ first :: setAddr first.addr z :: rest := by
          have hmodify := modify_length (front ++ point :: post ++ [first]) rest z
            (setAddr first.addr)
          rw [List.length_append, List.length_singleton] at hmodify
          simpa using hmodify
        rw [chosens_modify_setAddr, hz, herase, hmoved, hfirst]
        simp [setAddr]

-- The actions of the second loop: each one brings a point of the thread in front of `post`.
theorem moveForward_spec (to_move left : Nat) (pre post tail : List Name) (thread : Name)
    (sched : List SchedulePoint) (hchain : ChainFrom mainThread sched)
    (hsched : chosens sched = pre ++ post ++ List.replicate (to_move + left) thread ++ tail)
    (hpre : pre.getLastD mainThread = thread) (hpost : post ≠ []) (haway : thread ∉ post) :
    ChainFrom mainThread (moveForward to_move pre.length sched) ∧
      chosens (moveForward to_move pre.length sched) =
        pre ++ List.replicate to_move thread ++ post ++ List.replicate left thread ++ tail := by
  induction to_move generalizing pre sched with
  | zero =>
      refine ⟨hchain, ?_⟩
      rw [moveForward, hsched]
      simp
  | succ to_move ih =>
      obtain ⟨name, names, rfl⟩ := List.exists_cons_of_ne_nil hpost
      rw [Nat.add_right_comm, List.replicate_succ] at hsched
      -- the points that the threads are those of
      obtain ⟨others, tail', hothers, hsched', htail⟩ := List.map_eq_append_iff.mp hsched
      obtain ⟨others, movable, rfl, hsched', hmovable⟩ := List.map_eq_append_iff.mp hsched'
      obtain ⟨front, away, rfl, hfront, haway'⟩ := List.map_eq_append_iff.mp hsched'
      obtain ⟨point, post, rfl, hpoint, hpost'⟩ := List.map_eq_cons_iff.mp haway'
      obtain ⟨first, block, rfl, hfirst, hblock⟩ := List.map_eq_cons_iff.mp hmovable
      subst hothers
      have hlength : front.length = pre.length := by rw [← hfront, List.length_map]
      have hcaller : point.caller = thread := by
        simp only [List.append_assoc, List.cons_append, chainFrom_append, ChainFrom] at hchain
        rw [hchain.2.1, ← hpre, ← hfront, ← getLastD_chosens]
        rfl
      have hne : ∀ x ∈ point :: post, x.chosen ≠ point.caller := by
        intro x hx heq
        apply haway
        rw [← hcaller, ← heq, ← haway']
        exact List.mem_map_of_mem hx
      obtain ⟨moved, hmoved, hchosens⟩ := chosens_consolidateActionForward front post
        (block ++ tail') point first hne (by rw [hfirst, hcaller])
      have hmoved' : _consolidateActionForward
          (front ++ point :: post ++ first :: block ++ tail') pre.length = some moved := by
        rw [← hlength, ← hmoved]
        simp
      have hnext := ih (pre ++ [thread]) (patchUpSchedule moved) (chainFrom_patchFrom _ _) ?_ ?_
      · rw [List.length_append, List.length_singleton] at hnext
        rw [moveForward, hmoved', Option.getD_some]
        refine ⟨hnext.1, hnext.2.trans ?_⟩
        rw [List.replicate_succ]
        simp
      · rw [chosens_of_bares (bares_patchUpSchedule moved), hchosens, hcaller]
        simp only [chosens_append, chosens_cons, hpoint]
        rw [show chosens front = pre from hfront, show chosens post = names from hpost',
          show chosens block = _ from hblock, show chosens tail' = tail from htail]
        simp
      · rw [getLastD_append]
        rfl

-- The first loop, where the two schedules agree and where they differ.
theorem executedOfTEI_agree (mobileTEI : List SchedulePoint)
    (pairs rest : List (SchedulePoint × SchedulePoint)) (i start_index to_move : Nat)
    (hagree : ∀ pair ∈ pairs, pair.1.chosen = pair.2.chosen) :
    executedOfTEI mobileTEI (pairs ++ rest) i start_index to_move =
      executedOfTEI mobileTEI rest (i + pairs.length) start_index to_move := by
  induction pairs generalizing i with
  | nil => rfl
  | cons pair pairs ih =>
      have hpair := hagree pair List.mem_cons_self
      rw [List.cons_append, executedOfTEI, if_neg (not_not_intro hpair),
        ih (i + 1) fun other hother => hagree other (List.mem_cons_of_mem pair hother),
        List.length_cons]
      congr 1
      omega

theorem executedOfTEI_differ (mobileTEI : List SchedulePoint) (thread : Name)
    (hmobile : ∀ x ∈ mobileTEI, x.chosen = thread)
    (pairs rest : List (SchedulePoint × SchedulePoint)) (start_index to_move : Nat)
    (hdiffer : ∀ pair ∈ pairs, pair.1.chosen = thread ∧ pair.2.chosen ≠ thread)
    (hinside : to_move + pairs.length ≤ mobileTEI.length) :
    executedOfTEI mobileTEI (pairs ++ rest) (start_index + to_move) start_index to_move =
      executedOfTEI mobileTEI rest (start_index + (to_move + pairs.length)) start_index
        (to_move + pairs.length) := by
  induction pairs generalizing to_move with
  | nil => rfl
  | cons pair pairs ih =>
      obtain ⟨hmine, horig⟩ := hdiffer pair List.mem_cons_self
      have hne : pair.1.chosen ≠ pair.2.chosen := by
        rw [hmine]
        exact horig.symm
      rw [List.length_cons] at hinside
      have hin : to_move < mobileTEI.length := by omega
      have htei : mobileTEI[start_index + to_move - start_index]? = some mobileTEI[to_move] := by
        rw [Nat.add_sub_cancel_left]
        exact List.getElem?_eq_getElem hin
      have hthread : pair.1.chosen = mobileTEI[to_move].chosen := by
        rw [hmine]
        exact (hmobile _ (List.getElem_mem hin)).symm
      have hnext := ih (to_move + 1)
        (fun other hother => hdiffer other (List.mem_cons_of_mem pair hother)) (by omega)
      rw [List.cons_append, executedOfTEI, if_pos hne,
        Nat.min_eq_left (Nat.le_add_right start_index to_move)]
      simp only [htei, if_pos hthread]
      rw [Nat.add_assoc, hnext, List.length_cons, Nat.add_right_comm, Nat.add_assoc]

-- A run that stops after `moved` points of the block. Where it ran more of them than there are
-- points in `post`, it has come to the block's own place, and the loop sees no difference there.
theorem executedOfTEI_cut (mobileTEI pre pre' moved post block back : List SchedulePoint)
    (thread : Name) (hpre : chosens pre' = chosens pre) (hmoved : ∀ x ∈ moved, x.chosen = thread)
    (hpost : ∀ x ∈ post, x.chosen ≠ thread) (hblock : ∀ x ∈ block, x.chosen = thread)
    (hmobile : ∀ x ∈ mobileTEI, x.chosen = thread) (hlength : moved.length ≤ mobileTEI.length)
    (hlength' : moved.length ≤ block.length) (hne : moved ≠ []) (hne' : post ≠ []) :
    executedOfTEI mobileTEI ((pre' ++ moved).zip (pre ++ (post ++ (block ++ back)))) 0
        (pre ++ (post ++ (block ++ back))).length 0 =
      some (pre.length, min moved.length post.length) := by
  have hprelength : pre'.length = pre.length := length_of_chosens hpre
  have hfront : ∀ pair ∈ pre'.zip pre, pair.1.chosen = pair.2.chosen := by
    intro pair hpair
    obtain ⟨i, hi, rfl⟩ := List.mem_iff_getElem.mp hpair
    rw [List.length_zip] at hi
    have hget : (chosens pre')[i]? = (chosens pre)[i]? := by rw [hpre]
    simp only [chosens, List.getElem?_map, List.getElem?_eq_getElem (show i < pre'.length by omega),
      List.getElem?_eq_getElem (show i < pre.length by omega), Option.map_some,
      Option.some.injEq] at hget
    rw [List.getElem_zip]
    exact hget
  -- the points of the block that ran in the place of `post`, and those that ran in its own
  let n := min moved.length post.length
  have hsplit : (moved.zip (post ++ (block ++ back))) =
      (moved.take n).zip (post.take n) ++ (moved.drop n).zip (post.drop n ++ (block ++ back)) := by
    have htake : (moved.take n).length = (post.take n).length := by
      rw [List.length_take, List.length_take]
      omega
    rw [← List.zip_append htake, List.take_append_drop, ← List.append_assoc (post.take n),
      List.take_append_drop]
  have hagree : ∀ pair ∈ (moved.drop n).zip (post.drop n ++ (block ++ back)),
      pair.1.chosen = pair.2.chosen := by
    intro pair hpair
    obtain ⟨i, hi, rfl⟩ := List.mem_iff_getElem.mp hpair
    rw [List.length_zip, List.length_drop] at hi
    have hover : post.drop n = [] := List.drop_eq_nil_of_le (by omega)
    have hin : i < block.length := by omega
    rw [List.getElem_zip]
    simp only [hover, List.nil_append]
    rw [List.getElem_append_left hin, hblock _ (List.getElem_mem hin), List.getElem_drop]
    exact hmoved _ (List.getElem_mem _)
  have hdiffer : ∀ pair ∈ (moved.take n).zip (post.take n),
      pair.1.chosen = thread ∧ pair.2.chosen ≠ thread := by
    intro pair hpair
    obtain ⟨hleft, hright⟩ := List.of_mem_zip hpair
    exact ⟨hmoved _ (List.mem_of_mem_take hleft), hpost _ (List.mem_of_mem_take hright)⟩
  have hcount : ((moved.take n).zip (post.take n)).length = n := by
    rw [List.length_zip, List.length_take, List.length_take]
    omega
  -- the first difference is where the block starts
  have hfirst (start_index : Nat) (rest : List (SchedulePoint × SchedulePoint))
      (hstart : pre.length ≤ start_index) :
      executedOfTEI mobileTEI ((moved.take n).zip (post.take n) ++ rest) pre.length start_index 0 =
        executedOfTEI mobileTEI ((moved.take n).zip (post.take n) ++ rest) pre.length pre.length
          0 := by
    have hpos : 0 < n := by
      have hmovedpos := List.length_pos_of_ne_nil hne
      have hpostpos := List.length_pos_of_ne_nil hne'
      omega
    obtain ⟨pair, pairs, hpairs⟩ := List.exists_cons_of_length_pos (by rwa [hcount])
    obtain ⟨hmine, horig⟩ := hdiffer pair (by rw [hpairs]; exact List.mem_cons_self)
    have hneq : pair.1.chosen ≠ pair.2.chosen := by
      rw [hmine]
      exact horig.symm
    rw [hpairs, List.cons_append, executedOfTEI, executedOfTEI, if_pos hneq, if_pos hneq,
      Nat.min_eq_right hstart, Nat.min_self]
  have hdiffers := executedOfTEI_differ mobileTEI thread hmobile _
    ((moved.drop n).zip (post.drop n ++ (block ++ back))) pre.length 0 hdiffer
    (by rw [hcount]; omega)
  rw [List.zip_append hprelength, executedOfTEI_agree _ _ _ _ _ _ hfront, List.length_zip,
    hprelength, Nat.min_self, Nat.zero_add, hsplit, hfirst _ _ (by simp)]
  rw [Nat.add_zero, Nat.zero_add, hcount] at hdiffers
  have hrest := executedOfTEI_agree mobileTEI _ [] (pre.length + n) pre.length n hagree
  rw [List.append_nil] at hrest
  rw [hdiffers, hrest]
  rfl

-- As many points come forward as the run executed of the block, but no more than `post` has.
theorem synthesizeForwardSchedule_spec {original consolidated : Schedule} {frontier : Nat}
    {thread : Name} {pre post block back mobileTEI : List SchedulePoint}
    (hchain : original.ChainConsistent)
    (hmoves : MovesForward original consolidated frontier thread pre post block back)
    (hcaller : lastChosen mainThread pre = thread) (htei : chosens mobileTEI = chosens block)
    (k : Nat) (hpos : 1 ≤ k) (hk : k ≤ block.length) :
    ∃ sched, synthesizeForwardSchedule
        { consolidated with schedule := consolidated.schedule.take (frontier + k) }
        original mobileTEI = some sched ∧ sched.ChainConsistent ∧
      chosens sched.schedule = chosens (pre ++ block.take (min k post.length) ++ post ++
        block.drop (min k post.length) ++ back) := by
  obtain ⟨hsplit, hfrontier, hnonempty, habsent, hmaximal, hmoved⟩ := hmoves
  have hconsolidated := chosens_of_bares hmoved
  have hblock : ∀ x ∈ block, x.chosen = thread := (forall_chosen_iff _ _).mpr hmaximal.same
  have hpost : ∀ x ∈ post, x.chosen ≠ thread := by
    intro x hx heq
    exact habsent (heq ▸ List.mem_map_of_mem hx)
  have hmobile : ∀ x ∈ mobileTEI, x.chosen = thread := by
    rw [forall_chosen_iff, htei]
    exact hmaximal.same
  have hmobileLength : mobileTEI.length = block.length := length_of_chosens htei
  -- the cut schedule is what is before the frontier, and `k` points of the block
  have hpre' : chosens (consolidated.schedule.take frontier) = chosens pre := by
    rw [chosens_take, hconsolidated, ← hfrontier, List.append_assoc, List.append_assoc,
      take_chosens]
  have hran : chosens ((consolidated.schedule.drop frontier).take k) =
      chosens (block.take k) := by
    rw [chosens_take, chosens_drop, hconsolidated, ← hfrontier, List.append_assoc,
      List.append_assoc, drop_chosens, chosens_append, chosens_take,
      List.take_append_of_le_length (by rwa [length_chosens])]
  have hranLength : ((consolidated.schedule.drop frontier).take k).length = k := by
    rw [length_of_chosens hran, List.length_take, Nat.min_eq_left hk]
  have hranThread : ∀ x ∈ (consolidated.schedule.drop frontier).take k, x.chosen = thread := by
    rw [forall_chosen_iff, hran, ← forall_chosen_iff]
    exact fun x hx => hblock x (List.mem_of_mem_take hx)
  have hexecuted := executedOfTEI_cut mobileTEI pre _ _ post block back thread hpre' hranThread
    hpost hblock hmobile (by omega) (by omega)
    (List.ne_nil_of_length_pos (by omega)) hnonempty
  rw [← List.take_add, hranLength] at hexecuted
  have horiginal : original.schedule = pre ++ (post ++ (block ++ back)) := by
    rw [hsplit]
    simp only [List.append_assoc]
  let n := min k post.length
  have hpoints : chosens block = List.replicate (n + (block.length - n)) thread := by
    rw [chosens_eq_replicate hblock]
    congr 1
    omega
  obtain ⟨hmovedChain, hmovedChosens⟩ := moveForward_spec n (block.length - n) (chosens pre)
    (chosens post) (chosens back) thread original.schedule hchain
    (by rw [hsplit]; simp only [chosens_append, hpoints])
    (by rw [getLastD_chosens, hcaller]) (by simpa [chosens] using hnonempty) habsent
  rw [length_chosens] at hmovedChain hmovedChosens
  refine ⟨{ schedule := moveForward n pre.length original.schedule
            addrlist := original.addrlist }, ?_, hmovedChain, ?_⟩
  · simp only [synthesizeForwardSchedule, horiginal, hexecuted]
    rfl
  · have htake : chosens (block.take n) = List.replicate n thread := by
      rw [chosens_take, hpoints, List.take_replicate]
      congr 1
      omega
    have hdrop : chosens (block.drop n) = List.replicate (block.length - n) thread := by
      rw [chosens_drop, hpoints, List.drop_replicate]
      congr 1
      omega
    simp only [chosens_append]
    rw [hmovedChosens, htake, hdrop]

-- So the synthesized schedule has the executed points in front of `post`, and the rest where it
-- was, exactly when no more points ran than `post` has.
theorem synthesizeForwardSchedule_iff (original consolidated : Schedule)
    (mobileTEI : List SchedulePoint) (frontier : Nat) (hchain : original.ChainConsistent)
    (htei : original.consolidateFrontierForwardTEI frontier = some (consolidated, mobileTEI))
    (hne : consolidated.schedule ≠ []) :
    ∃ thread pre post block back,
      MovesForward original consolidated frontier thread pre post block back ∧
      chosens mobileTEI = chosens block ∧
      ∀ k, 1 ≤ k → k ≤ mobileTEI.length → ∃ sched, synthesizeForwardSchedule
          { consolidated with schedule := consolidated.schedule.take (frontier + k) }
          original mobileTEI = some sched ∧ sched.ChainConsistent ∧
        (chosens sched.schedule =
          chosens (pre ++ block.take k ++ post ++ block.drop k ++ back) ↔ k ≤ post.length) := by
  obtain ⟨m, hat, rfl, hmobile⟩ :=
    consolidateFrontierForwardTEI_spec original frontier consolidated mobileTEI hne htei
  have hmoves : MovesForward original
      { schedule := patchUpSchedule m.after, addrlist := original.addrlist } frontier
      m.point.caller _ _ _ _ := hat.moves rfl
  have hcaller : lastChosen mainThread m.prefrontier = m.point.caller := by
    have hcut := hchain
    rw [ChainConsistent, hmoves.split] at hcut
    simp only [List.append_assoc, List.cons_append, chainFrom_append, ChainFrom] at hcut
    exact hcut.2.1.symm
  have hblock : chosens mobileTEI = chosens (m.first :: m.mobileblock) := by
    rw [hmobile, chosens_take, chosens_drop, chosens_of_bares hmoves.moved, ← hmoves.frontier,
      List.append_assoc, List.append_assoc, drop_chosens]
    exact take_chosens (m.first :: m.mobileblock) _
  have hlength : mobileTEI.length = (m.first :: m.mobileblock).length := length_of_chosens hblock
  refine ⟨_, _, _, _, _, hmoves, hblock, fun k hpos hk => ?_⟩
  obtain ⟨sched, hsched, hschedChain, hchosens⟩ :=
    synthesizeForwardSchedule_spec hchain hmoves hcaller hblock k hpos (by omega)
  refine ⟨sched, hsched, hschedChain, ?_⟩
  rw [hchosens]
  constructor
  · intro heq
    by_contra hmore
    rw [Nat.min_eq_right (by omega)] at heq
    have hpost : ∃ name ∈ (chosens (m.point :: m.postfrontier)).head?, name ≠ m.point.caller :=
      ⟨_, rfl, hat.away m.point List.mem_cons_self⟩
    simp only [chosens_append, chosens_take, chosens_drop, List.append_assoc] at heq
    exact take_append_ne hmoves.maximal.same (by omega) (by rw [length_chosens]; omega) hpost heq
  · intro hle
    rw [Nat.min_eq_left hle]

-- Thread 0 is preempted for one point, and has two points after that.
def preempted : Schedule where
  addrlist := ["all"]
  schedule := [
    { chosen := some "0", caller := some "0", type := "After_Create", addr := "0x401a10",
      enabled := [some "0", some "1"] },
    { chosen := some "1", caller := some "0", type := "Before_Mutex_Lock", addr := "0x401a40",
      enabled := [some "0", some "1"] },
    { chosen := some "0", caller := some "1", type := "Before_Mutex_Lock", addr := "0x401c30",
      enabled := [some "0", some "1"] },
    { chosen := some "0", caller := some "0", type := "After_Mutex_Unlock", addr := "0x401a60",
      enabled := [some "0", some "1"] }]

theorem preempted_chain : preempted.ChainConsistent := ⟨rfl, rfl, rfl, rfl, trivial⟩

def preemptedMove : Schedule × List SchedulePoint :=
  (preempted.consolidateFrontierForwardTEI 1).getD ({}, [])

theorem synthesizeForwardSchedule_iff_preempted :
    preempted.consolidateFrontierForwardTEI 1 = some preemptedMove ∧
      ∃ thread pre post block back,
        MovesForward preempted preemptedMove.1 1 thread pre post block back ∧
        ∀ k, 1 ≤ k → k ≤ preemptedMove.2.length → ∃ sched, synthesizeForwardSchedule
            { preemptedMove.1 with schedule := preemptedMove.1.schedule.take (1 + k) }
            preempted preemptedMove.2 = some sched ∧ sched.ChainConsistent ∧
          (chosens sched.schedule =
            chosens (pre ++ block.take k ++ post ++ block.drop k ++ back) ↔ k ≤ post.length) := by
  have htei : preempted.consolidateFrontierForwardTEI 1 = some preemptedMove := by decide +kernel
  obtain ⟨thread, pre, post, block, back, hmoves, _, hall⟩ :=
    synthesizeForwardSchedule_iff preempted preemptedMove.1 preemptedMove.2 1 preempted_chain htei
      (by decide +kernel)
  exact ⟨htei, thread, pre, post, block, back, hmoves, hall⟩

-- Both points of the block ran in front of the other thread's, but only one of them is moved.
theorem not_synthesized_preempted :
    preempted.ChainConsistent ∧
      preempted.consolidateFrontierForwardTEI 1 = some preemptedMove ∧
      preemptedMove.2.length = 2 ∧
      chosens preempted.schedule = [some "0"] ++ [some "1"] ++ chosens preemptedMove.2 ++ [] ∧
      chosens preemptedMove.1.schedule =
        [some "0"] ++ chosens preemptedMove.2 ++ [some "1"] ++ [] ∧
      (synthesizeForwardSchedule
        { preemptedMove.1 with schedule := preemptedMove.1.schedule.take (1 + 2) }
        preempted preemptedMove.2).map (fun sched => chosens sched.schedule) =
          some [some "0", some "0", some "1", some "0"] ∧
      [some "0", some "0", some "1", some "0"] ≠
        [some "0"] ++ (chosens preemptedMove.2).take 2 ++ [some "1"] ++
          (chosens preemptedMove.2).drop 2 ++ [] := by
  refine ⟨preempted_chain, ?_, ?_, ?_, ?_, ?_, ?_⟩ <;> decide +kernel

end Schedule

end Thrille
