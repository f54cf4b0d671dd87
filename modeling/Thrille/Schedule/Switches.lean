import Thrille.Lib.Switches
import Thrille.Schedule.History

namespace Thrille

open Switches

-- What the operations leave of a point: they write the caller and the address anew.
def SchedulePoint.bare (point : SchedulePoint) : SchedulePoint :=
  { point with caller := none, addr := "" }

namespace Schedule

def chosens (sched : List SchedulePoint) : List Name := sched.map (·.chosen)

def bares (sched : List SchedulePoint) : List SchedulePoint := sched.map (·.bare)

@[simp] theorem chosens_append (front back : List SchedulePoint) :
    chosens (front ++ back) = chosens front ++ chosens back := List.map_append

@[simp] theorem bares_append (front back : List SchedulePoint) :
    bares (front ++ back) = bares front ++ bares back := List.map_append

@[simp] theorem chosens_nil : chosens [] = [] := rfl

@[simp] theorem chosens_cons (x : SchedulePoint) (rest : List SchedulePoint) :
    chosens (x :: rest) = x.chosen :: chosens rest := rfl

@[simp] theorem bares_cons (x : SchedulePoint) (rest : List SchedulePoint) :
    bares (x :: rest) = x.bare :: bares rest := rfl

@[simp] theorem bare_setAddr (addr : String) (x : SchedulePoint) :
    (setAddr addr x).bare = x.bare := rfl

theorem not_mem_chosens {thread : Name} {sched : List SchedulePoint}
    (haway : ∀ x ∈ sched, x.chosen ≠ thread) : thread ∉ chosens sched := by
  intro hmem
  obtain ⟨x, hx, hthread⟩ := List.mem_map.mp hmem
  exact haway x hx hthread

theorem chosens_of_bares {front back : List SchedulePoint} (h : bares front = bares back) :
    chosens front = chosens back := by
  have hchosen (sched : List SchedulePoint) : chosens sched = chosens (bares sched) := by
    rw [bares, chosens, chosens, List.map_map]
    rfl
  rw [hchosen front, hchosen back, h]

@[simp] theorem bares_modifyHead (addr : String) (sched : List SchedulePoint) :
    bares (sched.modifyHead (setAddr addr)) = bares sched := by
  cases sched with
  | nil => rfl
  | cons x rest => rfl

@[simp] theorem bares_patchUpSchedule (sched : List SchedulePoint) :
    bares (patchUpSchedule sched) = bares sched := by
  rw [patchUpSchedule]
  generalize mainThread = last
  induction sched generalizing last with
  | nil => rfl
  | cons x rest ih =>
      rw [patchFrom, bares_cons, bares_cons, ih]
      rfl

theorem chainConsistent_patchUpSchedule (sched : List SchedulePoint) (addrlist : List String)
    (error : Option String) :
    ChainConsistent { schedule := patchUpSchedule sched, addrlist, error } :=
  chainFrom_patchFrom mainThread sched

-- The context switches of a chain are the changes of its chosen threads.
theorem getContextSwitches_of_chain (self : Schedule) (hchain : self.ChainConsistent) :
    self._getContextSwitches = changes mainThread (chosens self.schedule) := by
  unfold ChainConsistent at hchain
  unfold _getContextSwitches
  generalize mainThread = last at hchain ⊢
  generalize self.schedule = sched at hchain ⊢
  induction sched generalizing last with
  | nil => rfl
  | cons x rest ih =>
      obtain ⟨hcaller, hrest⟩ := hchain
      rw [List.countP_cons, ih x.chosen hrest, chosens_cons, changes, hcaller]
      by_cases hsame : last = x.chosen
      · simp [hsame]
      · simp [hsame, Nat.add_comm]

theorem getLastD_chosens (last : Name) (sched : List SchedulePoint) :
    (chosens sched).getLastD last = lastChosen last sched := by
  rw [List.getLastD_eq_getLast?, chosens, List.getLast?_map, lastChosen]

-- What the spec of an operation says about a block, as a run of its thread.
theorem maximalRun_of_points (thread : Name) (front back : List SchedulePoint)
    (first : SchedulePoint) (block : List SchedulePoint)
    (hmoved : ∀ x ∈ first :: block, x.chosen = thread)
    (hleft : ∀ x ∈ front.getLast?, x.chosen ≠ thread)
    (hright : ∀ x ∈ back.head?, x.chosen ≠ thread) :
    MaximalRun thread (chosens front) (chosens (first :: block)) (chosens back) := by
  refine ⟨List.cons_ne_nil _ _, ?_, ?_, ?_⟩
  · intro name hname
    obtain ⟨x, hx, rfl⟩ := List.mem_map.mp hname
    exact hmoved x hx
  · intro name hname
    rw [chosens, List.getLast?_map] at hname
    obtain ⟨x, hx, rfl⟩ := Option.map_eq_some_iff.mp hname
    exact hleft x hx
  · intro name hname
    rw [chosens, List.head?_map] at hname
    obtain ⟨x, hx, rfl⟩ := Option.map_eq_some_iff.mp hname
    exact hright x hx

-- The moved schedule has the points of the other one, in another order.
theorem perm_of_bares {front first second back : List SchedulePoint} {sched : List SchedulePoint}
    (h : bares sched = bares (front ++ second ++ first ++ back)) :
    (chosens sched).Perm (chosens (front ++ first ++ second ++ back)) := by
  rw [chosens_of_bares h]
  simp only [chosens_append]
  apply List.Perm.append_right
  rw [List.append_assoc, List.append_assoc]
  exact List.perm_append_comm.append_left _

theorem length_of_bares {first second : List SchedulePoint} (h : bares first = bares second) :
    first.length = second.length := by
  have hlength := congrArg List.length h
  rwa [bares, bares, List.length_map, List.length_map] at hlength

-- What an operation moves: `block` changes its place with `away`.
structure MovesForward (source sched : Schedule) (frontier : Nat) (thread : Name)
    (front away block back : List SchedulePoint) : Prop where
  split : source.schedule = front ++ away ++ block ++ back
  frontier : front.length = frontier
  nonempty : away ≠ []
  absent : thread ∉ chosens away
  maximal : MaximalRun thread (chosens (front ++ away)) (chosens block) (chosens back)
  moved : bares sched.schedule = bares (front ++ block ++ away ++ back)

structure MovesBackward (source sched : Schedule) (frontier : Nat) (thread : Name)
    (front block away back : List SchedulePoint) : Prop where
  split : source.schedule = front ++ block ++ away ++ back
  frontier : (front ++ block ++ away).length = frontier
  nonempty : away ≠ []
  absent : thread ∉ chosens away
  maximal : MaximalRun thread (chosens front) (chosens block) (chosens (away ++ back))
  moved : bares sched.schedule = bares (front ++ away ++ block ++ back)

-- `block` goes, and is the last one of its thread.
structure Removes (source sched : Schedule) (thread : Name)
    (front block back : List SchedulePoint) : Prop where
  split : source.schedule = front ++ block ++ back
  last : thread ∉ chosens back
  maximal : MaximalRun thread (chosens front) (chosens block) (chosens back)
  removed : bares sched.schedule = bares (front ++ back)

variable {self sched : Schedule} {frontier : Nat} {thread : Name}

theorem ForwardMove.At.moves {m : ForwardMove} (hat : m.At self frontier)
    (hsched : sched.schedule = patchUpSchedule m.after) :
    MovesForward self sched frontier m.point.caller m.prefrontier (m.point :: m.postfrontier)
      (m.first :: m.mobileblock) m.endblock := by
  refine ⟨?_, hat.frontier, List.cons_ne_nil _ _, not_mem_chosens hat.away, ?_, ?_⟩
  · rw [hat.split, ForwardMove.before]
  · apply maximalRun_of_points _ _ _ _ _ hat.moved
    · intro x hx
      rw [List.getLast?_append_of_ne_nil _ (List.cons_ne_nil _ _)] at hx
      exact hat.away x (List.mem_of_getLast? hx)
    · exact hat.maximal
  · rw [hsched, bares_patchUpSchedule, ForwardMove.after]
    simp only [bares_append, bares_cons, bare_setAddr, bares_modifyHead]

theorem BackwardMove.At.moves {m : BackwardMove} (hat : m.At self frontier)
    (hsched : sched.schedule = patchUpSchedule m.after) :
    MovesBackward self sched frontier m.point.chosen m.start (m.first :: m.mobileblock)
      (m.away :: m.prefrontier) (m.point :: m.postfrontier) := by
  refine ⟨?_, hat.frontier, List.cons_ne_nil _ _, not_mem_chosens hat.away, ?_, ?_⟩
  · rw [hat.split, BackwardMove.before]
  · apply maximalRun_of_points _ _ _ _ _ hat.moved hat.maximal
    intro x hx
    rw [List.cons_append, List.head?_cons] at hx
    obtain rfl := Option.some.inj hx
    exact hat.away _ List.mem_cons_self
  · rw [hsched, bares_patchUpSchedule, BackwardMove.after]
    simp only [bares_append, bares_cons, bare_setAddr]

theorem RemovalMove.At.removes {m : RemovalMove} (hat : m.At self thread)
    (hsched : sched.schedule = patchUpSchedule m.after) :
    Removes self sched thread m.front (m.first :: m.block) m.back := by
  refine ⟨?_, not_mem_chosens hat.away, ?_, ?_⟩
  · rw [hat.split, RemovalMove.before]
  · apply maximalRun_of_points _ _ _ _ _ hat.removed hat.maximal
    intro x hx
    exact hat.away x (List.mem_of_mem_head? hx)
  · rw [hsched, bares_patchUpSchedule, RemovalMove.after]
    simp only [bares_append, bares_modifyHead]

-- The three operations on the context switches. Behind the frontier of a forward move the
-- thread that is preempted runs on.
theorem ForwardMove.At.switches_lt {m : ForwardMove} (hat : m.At self frontier)
    (hself : self.ChainConsistent) (hsched : sched.schedule = patchUpSchedule m.after)
    (hchain : sched.ChainConsistent) : sched._getContextSwitches < self._getContextSwitches := by
  have hmoves := hat.moves hsched
  rw [getContextSwitches_of_chain self hself, getContextSwitches_of_chain sched hchain,
    chosens_of_bares hmoves.moved, hmoves.split]
  have hcaller : m.point.caller = lastChosen mainThread m.prefrontier := by
    rw [ChainConsistent, hmoves.split] at hself
    simp only [List.append_assoc, List.cons_append, chainFrom_append, ChainFrom] at hself
    exact hself.2.1
  have hmaximal := hmoves.maximal
  simp only [chosens_append] at hmaximal ⊢
  apply changes_moveForward_lt m.point.caller mainThread _ _ _ _ _ _ hmaximal
  · rw [getLastD_chosens, hcaller]
  · exact List.cons_ne_nil _ _

theorem BackwardMove.At.switches_le {m : BackwardMove} (hat : m.At self frontier)
    (hself : self.ChainConsistent) (hsched : sched.schedule = patchUpSchedule m.after)
    (hchain : sched.ChainConsistent) : sched._getContextSwitches ≤ self._getContextSwitches := by
  have hmoves := hat.moves hsched
  rw [getContextSwitches_of_chain self hself, getContextSwitches_of_chain sched hchain,
    chosens_of_bares hmoves.moved, hmoves.split]
  have hrun : MaximalRun m.point.chosen (chosens m.start) (chosens (m.first :: m.mobileblock))
      (chosens (m.away :: m.prefrontier)) := by
    refine ⟨hmoves.maximal.nonempty, hmoves.maximal.same, hmoves.maximal.left, ?_⟩
    exact hmoves.maximal.right
  simp only [chosens_append]
  apply changes_moveBackward_le m.point.chosen mainThread _ _ _ _ _ hrun
  · apply getLastD_of_ne
    · intro name hname
      obtain ⟨x, hx, rfl⟩ := List.mem_map.mp (List.mem_of_getLast? hname)
      exact hat.away x hx
    · exact fun hnil => absurd hnil (List.cons_ne_nil _ _)
  · rfl

theorem RemovalMove.At.switches_le {m : RemovalMove} (hat : m.At self thread)
    (hself : self.ChainConsistent) (hsched : sched.schedule = patchUpSchedule m.after)
    (hchain : sched.ChainConsistent) : sched._getContextSwitches ≤ self._getContextSwitches := by
  have hremoves := hat.removes hsched
  rw [getContextSwitches_of_chain self hself, getContextSwitches_of_chain sched hchain,
    chosens_of_bares hremoves.removed, hremoves.split]
  simp only [chosens_append]
  exact changes_remove_le thread mainThread _ _ _ hremoves.maximal

-- Where the scans stop.
theorem scanUp_le (p : SchedulePoint → Bool) (sched : List SchedulePoint) (i : Nat)
    (hi : i ≤ sched.length) : i ≤ scanUp p sched i ∧ scanUp p sched i ≤ sched.length := by
  have hle : (sched.drop i).findIdx p ≤ (sched.drop i).length := List.findIdx_le_length
  rw [List.length_drop] at hle
  unfold scanUp
  omega

theorem scanUp_stops (p : SchedulePoint → Bool) (sched : List SchedulePoint) (i : Nat)
    (hi : scanUp p sched i < sched.length) : p sched[scanUp p sched i] = true := by
  have hlt : (sched.drop i).findIdx p < (sched.drop i).length := by
    rw [List.length_drop]
    unfold scanUp at hi
    omega
  have hfound := List.findIdx_getElem (w := hlt)
  rw [List.getElem_drop] at hfound
  exact hfound

theorem lt_scanUp (p : SchedulePoint → Bool) (sched : List SchedulePoint) (i : Nat)
    (hi : i < sched.length) (hp : p sched[i] = false) : i < scanUp p sched i := by
  have hne : scanUp p sched i ≠ i := by
    intro heq
    have hstops := scanUp_stops p sched i (by omega)
    simp only [heq, hp] at hstops
    cases hstops
  have hle := (scanUp_le p sched i (Nat.le_of_lt hi)).1
  omega

theorem scanDown_le (p : SchedulePoint → Bool) (sched : List SchedulePoint) (i : Nat) :
    scanDown p sched i ≤ i := Nat.sub_le _ _

theorem scanDown_stops (p : SchedulePoint → Bool) (sched : List SchedulePoint) (i : Nat)
    (hi : i ≤ sched.length) (hpos : 0 < scanDown p sched i) :
    ∃ x, sched[scanDown p sched i - 1]? = some x ∧ p x = true := by
  have hlt : (sched.take i).reverse.findIdx p < (sched.take i).reverse.length := by
    rw [List.length_reverse, List.length_take, Nat.min_eq_left hi]
    unfold scanDown at hpos
    omega
  have hfound := List.findIdx_getElem (w := hlt)
  simp only [List.getElem_reverse, List.getElem_take, List.length_take, Nat.min_eq_left hi]
    at hfound
  have hindex : i - 1 - (sched.take i).reverse.findIdx p = scanDown p sched i - 1 := by
    unfold scanDown
    omega
  have hinside : scanDown p sched i - 1 < sched.length := by
    have hle := scanDown_le p sched i
    omega
  simp only [hindex] at hfound
  exact ⟨_, List.getElem?_eq_getElem hinside, hfound⟩

theorem scanDown_lt (p : SchedulePoint → Bool) (sched : List SchedulePoint) (i : Nat)
    (hi : i ≤ sched.length) (hpos : 0 < i) (x : SchedulePoint) (hx : sched[i - 1]? = some x)
    (hp : p x = false) : scanDown p sched i < i := by
  have hne : scanDown p sched i ≠ i := by
    intro heq
    obtain ⟨y, hy, hstops⟩ := scanDown_stops p sched i hi (by omega)
    rw [heq, hx] at hy
    cases hy
    rw [hp] at hstops
    cases hstops
  have hle := scanDown_le p sched i
  omega

theorem head?_slice (sched : List SchedulePoint) (i j : Nat) (hij : i < j)
    (hj : j ≤ sched.length) : ∃ x, ((sched.take j).drop i).head? = some x := by
  have hlength : 0 < ((sched.take j).drop i).length := by
    rw [List.length_drop, List.length_take]
    omega
  exact ⟨_, List.head?_eq_some_head (List.ne_nil_of_length_pos hlength)⟩

-- No operation fails at a point of the schedule.
theorem consolidateFrontierForward_returns (self : Schedule) (frontier : Nat)
    (hfrontier : frontier < self.schedule.length) :
    ∃ sched, self.consolidateFrontierForward frontier = some sched := by
  suffices hreturns : ∃ r, self.consolidateFrontierForwardTEI frontier = some r by
    obtain ⟨⟨sched, tei⟩, hr⟩ := hreturns
    exact ⟨sched, by simp [consolidateFrontierForward, hr]⟩
  simp only [consolidateFrontierForwardTEI, List.getElem?_eq_getElem hfrontier,
    Option.bind_eq_bind, Option.bind_some]
  split
  · exact ⟨_, rfl⟩
  rename_i hinside
  split
  · exact ⟨_, rfl⟩
  split
  · exact ⟨_, rfl⟩
  generalize self.schedule[frontier].caller = target
  have hstart := scanUp_le (·.chosen == target) self.schedule (frontier + 1) (by omega)
  have hstops := scanUp_stops (·.chosen == target) self.schedule (frontier + 1)
  generalize scanUp (·.chosen == target) self.schedule (frontier + 1) = block_start at *
  split
  · exact ⟨_, rfl⟩
  rename_i hfound
  have hlt : block_start < self.schedule.length := by omega
  have hend := scanUp_le (·.chosen != target) self.schedule block_start (by omega)
  have hnonempty := lt_scanUp (·.chosen != target) self.schedule block_start hlt
    (by simpa using hstops hlt)
  generalize scanUp (·.chosen != target) self.schedule block_start = block_end at *
  obtain ⟨first, hfirst⟩ := head?_slice self.schedule block_start block_end hnonempty hend.2
  rw [hfirst]
  simp only [Option.map_some, Option.bind_some]
  rw [guard, if_pos]
  · exact ⟨_, rfl⟩
  · simp
    omega

theorem consolidateFrontierBackward_returns (self : Schedule) (frontier : Nat)
    (hfrontier : frontier < self.schedule.length) :
    ∃ sched, self.consolidateFrontierBackward frontier = some sched := by
  simp only [consolidateFrontierBackward, List.getElem?_eq_getElem hfrontier,
    Option.bind_eq_bind, Option.bind_some]
  split
  · exact ⟨_, rfl⟩
  rename_i hzero
  have hbefore : frontier - 1 < self.schedule.length := by omega
  simp only [List.getElem?_eq_getElem hbefore, Option.bind_some]
  split
  · exact ⟨_, rfl⟩
  rename_i hswitch
  generalize self.schedule[frontier].chosen = target at *
  have haway := scanDown_lt (·.chosen == target) self.schedule frontier (by omega) (by omega) _
    (List.getElem?_eq_getElem hbefore) (by simpa using fun heq => hswitch heq.symm)
  have hstops := scanDown_stops (·.chosen == target) self.schedule frontier (by omega)
  generalize scanDown (·.chosen == target) self.schedule frontier = block_end at *
  split
  · exact ⟨_, rfl⟩
  rename_i hfound
  obtain ⟨last, hlast, hthread⟩ := hstops (by omega)
  have hnonempty := scanDown_lt (·.chosen != target) self.schedule block_end (by omega) (by omega)
    last hlast (by simpa using hthread)
  generalize scanDown (·.chosen != target) self.schedule block_end = block_start at *
  obtain ⟨first, hfirst⟩ := head?_slice self.schedule block_start block_end hnonempty (by omega)
  obtain ⟨away, haway'⟩ := head?_slice self.schedule block_end frontier haway (by omega)
  rw [hfirst, haway']
  simp only [Option.map_some, Option.bind_some]
  rw [guard, if_pos]
  · exact ⟨_, rfl⟩
  · simp
    omega

theorem removeFinalBlockOfThread_returns (self : Schedule) (thread : Name)
    (hne : self.schedule ≠ []) : ∃ sched, self.removeFinalBlockOfThread thread = some sched := by
  have hpos : 0 < self.schedule.length := List.length_pos_of_ne_nil hne
  simp only [removeFinalBlockOfThread, guard, if_pos hpos, Option.bind_eq_bind]
  have hle := scanDown_le (·.chosen == thread) self.schedule self.schedule.length
  have hstops := scanDown_stops (·.chosen == thread) self.schedule self.schedule.length
    (Nat.le_refl _)
  generalize scanDown (·.chosen == thread) self.schedule self.schedule.length = i at *
  simp only [Option.pure_def, Option.bind_some]
  split
  · exact ⟨_, rfl⟩
  rename_i hfound
  obtain ⟨last, hlast, hthread⟩ := hstops (by omega)
  have hnonempty := scanDown_lt (·.chosen != thread) self.schedule i hle (by omega) last hlast
    (by simpa using hthread)
  generalize scanDown (·.chosen != thread) self.schedule i = j at *
  obtain ⟨first, hfirst⟩ := head?_slice self.schedule j i hnonempty hle
  rw [hfirst]
  exact ⟨_, rfl⟩

-- The three operations, and the assertion of the simplifier after each of them.
theorem moves_permute (self : Schedule) (hchain : self.ChainConsistent) :
    (∀ frontier, frontier < self.schedule.length →
      ∃ sched, self.consolidateFrontierForward frontier = some sched ∧
        (sched.schedule ≠ [] → sched.ChainConsistent ∧
          (∃ thread front away block back,
            MovesForward self sched frontier thread front away block back) ∧
          (chosens sched.schedule).Perm (chosens self.schedule) ∧
          sched.schedule.length = self.schedule.length ∧
          sched._getContextSwitches < self._getContextSwitches) ∧
        ∃ return_ctxt untested_ctxt, self.getContextSwitches = some return_ctxt ∧
          sched.getContextSwitches = some untested_ctxt ∧ untested_ctxt ≤ return_ctxt) ∧
    (∀ frontier, frontier < self.schedule.length →
      ∃ sched, self.consolidateFrontierBackward frontier = some sched ∧
        (sched.schedule ≠ [] → sched.ChainConsistent ∧
          (∃ thread front block away back,
            MovesBackward self sched frontier thread front block away back) ∧
          (chosens sched.schedule).Perm (chosens self.schedule) ∧
          sched.schedule.length = self.schedule.length) ∧
        ∃ return_ctxt untested_ctxt, self.getContextSwitches = some return_ctxt ∧
          sched.getContextSwitches = some untested_ctxt ∧ untested_ctxt ≤ return_ctxt) ∧
    (self.schedule ≠ [] → ∀ thread,
      ∃ sched, self.removeFinalBlockOfThread thread = some sched ∧
        (sched.schedule ≠ [] → sched.ChainConsistent ∧
          ∃ front block back, Removes self sched thread front block back) ∧
        ∃ return_ctxt untested_ctxt, self.getContextSwitches = some return_ctxt ∧
          sched.getContextSwitches = some untested_ctxt ∧ untested_ctxt ≤ return_ctxt) := by
  have hctxt (sched : Schedule)
      (hle : sched.schedule ≠ [] → sched._getContextSwitches ≤ self._getContextSwitches) :
      ∃ return_ctxt untested_ctxt, self.getContextSwitches = some return_ctxt ∧
        sched.getContextSwitches = some untested_ctxt ∧ untested_ctxt ≤ return_ctxt := by
    refine ⟨_, _, self.getContextSwitches_eq, sched.getContextSwitches_eq, ?_⟩
    by_cases hne : sched.schedule = []
    · rw [_getContextSwitches, hne]
      exact Nat.zero_le _
    · exact hle hne
  refine ⟨fun frontier hfrontier => ?_, fun frontier hfrontier => ?_, fun hself thread => ?_⟩
  · obtain ⟨sched, hsched⟩ := consolidateFrontierForward_returns self frontier hfrontier
    have hspec (hne : sched.schedule ≠ []) : sched.ChainConsistent ∧
        (∃ thread front away block back,
          MovesForward self sched frontier thread front away block back) ∧
        (chosens sched.schedule).Perm (chosens self.schedule) ∧
        sched.schedule.length = self.schedule.length ∧
        sched._getContextSwitches < self._getContextSwitches := by
      obtain ⟨⟨_, tei⟩, htei, ⟨⟩⟩ := Option.bind_eq_some_iff.mp hsched
      obtain ⟨m, hat, rfl, _⟩ := consolidateFrontierForwardTEI_spec self frontier _ tei hne htei
      have hchain' := chainConsistent_patchUpSchedule m.after self.addrlist none
      have hmoves : MovesForward self
          { schedule := patchUpSchedule m.after, addrlist := self.addrlist } frontier
          m.point.caller _ _ _ _ := hat.moves rfl
      refine ⟨hchain', ⟨_, _, _, _, _, hmoves⟩, ?_, ?_, hat.switches_lt hchain rfl hchain'⟩
      · rw [hmoves.split]
        exact perm_of_bares hmoves.moved
      · rw [length_of_bares hmoves.moved, hmoves.split]
        simp only [List.length_append]
        omega
    exact ⟨sched, hsched, hspec, hctxt sched fun hne => Nat.le_of_lt (hspec hne).2.2.2.2⟩
  · obtain ⟨sched, hsched⟩ := consolidateFrontierBackward_returns self frontier hfrontier
    have hspec (hne : sched.schedule ≠ []) : ∃ m : BackwardMove, m.At self frontier ∧
        sched = { schedule := patchUpSchedule m.after, addrlist := self.addrlist } :=
      consolidateFrontierBackward_spec self frontier sched hne hsched
    refine ⟨sched, hsched, fun hne => ?_, hctxt sched fun hne => ?_⟩
    · obtain ⟨m, hat, rfl⟩ := hspec hne
      have hmoves : MovesBackward self
          { schedule := patchUpSchedule m.after, addrlist := self.addrlist } frontier
          m.point.chosen _ _ _ _ := hat.moves rfl
      refine ⟨chainConsistent_patchUpSchedule _ _ _, ⟨_, _, _, _, _, hmoves⟩, ?_, ?_⟩
      · rw [hmoves.split]
        exact perm_of_bares hmoves.moved
      · rw [length_of_bares hmoves.moved, hmoves.split]
        simp only [List.length_append]
        omega
    · obtain ⟨m, hat, rfl⟩ := hspec hne
      exact hat.switches_le hchain rfl (chainConsistent_patchUpSchedule _ _ _)
  · obtain ⟨sched, hsched⟩ := removeFinalBlockOfThread_returns self thread hself
    have hspec (hne : sched.schedule ≠ []) : ∃ m : RemovalMove, m.At self thread ∧
        sched = { self with schedule := patchUpSchedule m.after } :=
      removeFinalBlockOfThread_spec self thread sched hne hsched
    refine ⟨sched, hsched, fun hne => ?_, hctxt sched fun hne => ?_⟩
    · obtain ⟨m, hat, rfl⟩ := hspec hne
      have hremoves : Removes self { self with schedule := patchUpSchedule m.after } thread
          _ _ _ := hat.removes rfl
      exact ⟨chainConsistent_patchUpSchedule _ _ _, _, _, _, hremoves⟩
    · obtain ⟨m, hat, rfl⟩ := hspec hne
      exact hat.switches_le hchain rfl (chainConsistent_patchUpSchedule _ _ _)

theorem moves_permute_handOver :
    let sched := (handOver.consolidateFrontierForward 3).getD {}
    chosens handOver.schedule = [some "0", some "2", some "0", some "1", some "0", some "1"] ∧
      chosens sched.schedule = [some "0", some "2", some "0", some "0", some "1", some "1"] ∧
      sched._getContextSwitches < handOver._getContextSwitches := by
  obtain ⟨sched, hsched, hmoved, _⟩ := (moves_permute handOver handOver_chain).1 3 (by decide)
  rw [hsched, Option.getD_some]
  have heq : sched = (handOver.consolidateFrontierForward 3).getD {} := by rw [hsched]; rfl
  have hchosens : chosens sched.schedule =
      [some "0", some "2", some "0", some "0", some "1", some "1"] := by
    rw [heq]
    decide
  refine ⟨by decide, hchosens, (hmoved ?_).2.2.2.2⟩
  intro hnil
  rw [hnil] at hchosens
  cases hchosens

end Schedule

end Thrille
