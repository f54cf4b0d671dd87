import Thrille.Schedule

namespace Thrille.Schedule

-- The slice `[i:j]` of a list that is cut in three pieces.
theorem slice_middle (front middle back : List SchedulePoint) (i j : Nat)
    (hi : i = front.length) (hj : j = front.length + middle.length) :
    ((front ++ middle ++ back).take j).drop i = middle := by
  subst hi hj
  rw [← List.length_append, List.take_left, List.drop_left]

theorem scanUp_append (p : SchedulePoint → Bool) (front back : List SchedulePoint) :
    ∃ skipped rest, back = skipped ++ rest ∧
      scanUp p (front ++ back) front.length = front.length + skipped.length ∧
      (∀ x ∈ skipped, p x = false) ∧ ∀ x ∈ rest.head?, p x = true := by
  have hscan : scanUp p (front ++ back) front.length = front.length + back.findIdx p := by
    simp only [scanUp, List.drop_left]
  rw [hscan]
  clear hscan
  induction back with
  | nil => exact ⟨[], [], rfl, rfl, by simp, by simp⟩
  | cons x back ih =>
      by_cases hx : p x = true
      · exact ⟨[], x :: back, rfl, by simp [List.findIdx_cons, hx], by simp, by simpa using hx⟩
      · obtain ⟨skipped, rest, hback, hlen, hskip, hrest⟩ := ih
        rw [Bool.not_eq_true] at hx
        refine ⟨x :: skipped, rest, by rw [hback, List.cons_append], ?_, ?_, hrest⟩
        · simp only [List.findIdx_cons, hx, cond_false, List.length_cons]
          omega
        · intro y hy
          rcases List.mem_cons.mp hy with rfl | hy
          · exact hx
          · exact hskip y hy

theorem scanDown_append (p : SchedulePoint → Bool) (front back : List SchedulePoint) :
    ∃ rest skipped, front = rest ++ skipped ∧
      scanDown p (front ++ back) front.length = rest.length ∧
      (∀ x ∈ skipped, p x = false) ∧ ∀ x ∈ rest.getLast?, p x = true := by
  obtain ⟨skipped, rest, hrev, hlen, hskip, hrest⟩ := scanUp_append p [] front.reverse
  have hfront : front = rest.reverse ++ skipped.reverse := by
    rw [← List.reverse_append, ← hrev, List.reverse_reverse]
  refine ⟨rest.reverse, skipped.reverse, hfront, ?_, ?_, ?_⟩
  · have hfind : front.reverse.findIdx p = skipped.length := by
      simpa only [scanUp, List.nil_append, List.length_nil, List.drop_zero, Nat.zero_add]
        using hlen
    have hlength := congrArg List.length hfront
    simp only [List.length_append, List.length_reverse] at hlength
    rw [scanDown, List.take_left, hfind, List.length_reverse]
    omega
  · intro x hx
    exact hskip x (List.mem_reverse.mp hx)
  · intro x hx
    exact hrest x (by simpa only [List.getLast?_reverse] using hx)

@[simp] theorem length_patchFrom (last : Name) (sched : List SchedulePoint) :
    (patchFrom last sched).length = sched.length := by
  induction sched generalizing last with
  | nil => rfl
  | cons x rest ih => simp only [patchFrom, List.length_cons, ih]

@[simp] theorem length_patchUpSchedule (sched : List SchedulePoint) :
    (patchUpSchedule sched).length = sched.length := length_patchFrom _ sched

@[simp] theorem patchUpSchedule_nil_iff (sched : List SchedulePoint) :
    patchUpSchedule sched = [] ↔ sched = [] := by
  rw [← List.length_eq_zero_iff, length_patchUpSchedule, List.length_eq_zero_iff]

-- The pieces that a forward move cuts the schedule into. The block that moves is
-- `first :: mobileblock`, and `point` is the point at the frontier that it moves in front of.
structure ForwardMove where
  prefrontier : List SchedulePoint
  point : SchedulePoint
  postfrontier : List SchedulePoint
  first : SchedulePoint
  mobileblock : List SchedulePoint
  endblock : List SchedulePoint

namespace ForwardMove

def before (m : ForwardMove) : List SchedulePoint :=
  m.prefrontier ++ m.point :: m.postfrontier ++ m.first :: m.mobileblock ++ m.endblock

def endAddr (m : ForwardMove) : String := (m.endblock.head?.map (·.addr)).getD "0"

def after (m : ForwardMove) : List SchedulePoint :=
  m.prefrontier ++ setAddr m.point.addr m.first :: m.mobileblock ++
    setAddr m.endAddr m.point :: m.postfrontier ++ m.endblock.modifyHead (setAddr m.first.addr)

-- The first block of the frontier's caller behind the frontier, with its whole length.
structure At (m : ForwardMove) (source : Schedule) (frontier : Nat) : Prop where
  split : source.schedule = m.before
  frontier : m.prefrontier.length = frontier
  enabled : m.point.caller ∈ m.point.enabled
  away : ∀ x ∈ m.point :: m.postfrontier, x.chosen ≠ m.point.caller
  moved : ∀ x ∈ m.first :: m.mobileblock, x.chosen = m.point.caller
  maximal : ∀ x ∈ m.endblock.head?, x.chosen ≠ m.point.caller

end ForwardMove

theorem consolidateFrontierForwardTEI_spec (self : Schedule) (frontier : Nat) (sched : Schedule)
    (tei : List SchedulePoint) (hne : sched.schedule ≠ [])
    (h : self.consolidateFrontierForwardTEI frontier = some (sched, tei)) :
    ∃ m : ForwardMove, m.At self frontier ∧
      sched = { schedule := patchUpSchedule m.after, addrlist := self.addrlist } ∧
      tei = (sched.schedule.drop frontier).take (m.mobileblock.length + 1) := by
  have hempty (l : List SchedulePoint) : (({} : Schedule), l) ≠ (sched, tei) := by
    rintro ⟨⟩
    exact hne rfl
  simp only [consolidateFrontierForwardTEI, Option.bind_eq_bind, Option.bind_eq_some_iff] at h
  obtain ⟨point, hpoint, h⟩ := h
  split at h
  · exact absurd (Option.some.inj h) (hempty _)
  split at h
  · exact absurd (Option.some.inj h) (hempty _)
  split at h
  · exact absurd (Option.some.inj h) (hempty _)
  rename_i _ hswitch hen
  obtain ⟨hlt, hget⟩ := List.getElem?_eq_some_iff.mp hpoint
  obtain ⟨pre, tail, hsplit, hlen⟩ : ∃ pre tail, self.schedule = pre ++ point :: tail ∧
      pre.length = frontier := by
    refine ⟨self.schedule.take frontier, self.schedule.drop (frontier + 1), ?_, ?_⟩
    · rw [← hget, ← List.drop_eq_getElem_cons hlt, List.take_append_drop]
    · rw [List.length_take, Nat.min_eq_left (Nat.le_of_lt hlt)]
  -- The scan for the block, and the scan for its end.
  obtain ⟨post, tail, rfl, hstart, hpost, htail⟩ :=
    scanUp_append (·.chosen == point.caller) (pre ++ [point]) tail
  rw [List.append_assoc, List.singleton_append, ← hsplit, List.length_append, hlen] at hstart
  simp only [List.length_singleton] at hstart
  rw [hstart] at h
  obtain ⟨block, rest, rfl, hend, hblock, hrest⟩ :=
    scanUp_append (·.chosen != point.caller) (pre ++ point :: post) tail
  rw [List.append_assoc, List.cons_append, ← hsplit, List.length_append, List.length_cons,
    hlen, ← Nat.add_assoc, Nat.add_right_comm] at hend
  rw [hend] at h
  split at h
  · exact absurd (Option.some.inj h) (hempty _)
  rename_i hfound
  cases block with
  | nil =>
      cases rest with
      | nil =>
          rw [hsplit] at hfound
          simp only [List.append_nil, List.length_append, List.length_cons, hlen] at hfound
          omega
      | cons x rest =>
          have h1 := htail x rfl
          have h2 := hrest x rfl
          simp [bne] at h1 h2
          exact absurd h1 h2
  | cons first block =>
      have hmobile : (self.schedule.take (frontier + 1 + post.length + (block.length + 1))).drop
          (frontier + 1 + post.length) = first :: block := by
        have hcut : self.schedule = (pre ++ point :: post) ++ first :: block ++ rest := by
          simp only [hsplit, List.append_assoc, List.cons_append]
        rw [hcut]
        exact slice_middle _ _ _ _ _ (by simp; omega) (by simp; omega)
      have hpostf : (self.schedule.take (frontier + 1 + post.length)).drop frontier =
          point :: post := by
        have hcut : self.schedule = pre ++ point :: post ++ (first :: block ++ rest) := by
          simp only [hsplit, List.append_assoc, List.cons_append]
        rw [hcut]
        exact slice_middle _ _ _ _ _ hlen.symm (by simp; omega)
      have hpre : self.schedule.take frontier = pre := by
        rw [hsplit, ← hlen, List.take_left]
      have hrest' : self.schedule.drop (frontier + 1 + post.length + (block.length + 1)) =
          rest := by
        have hcut : self.schedule = (pre ++ point :: post ++ first :: block) ++ rest := by
          simp only [hsplit, List.append_assoc, List.cons_append]
        rw [hcut]
        exact List.drop_left' (by simp; omega)
      simp only [List.length_cons, hmobile, hpostf, hpre, hrest', List.head?_cons,
        Option.map_some, Option.bind_some, List.modifyHead_cons] at h
      obtain ⟨_, _, h⟩ := Option.bind_eq_some_iff.mp h
      obtain ⟨rfl, rfl⟩ := Prod.mk.inj (Option.some.inj h)
      refine ⟨⟨pre, point, post, first, block, rest⟩, ⟨?_, hlen, ?_, ?_, ?_, ?_⟩, rfl, rfl⟩
      · simp only [hsplit, ForwardMove.before, List.append_assoc, List.cons_append]
      · exact Decidable.not_not.mp hen
      · intro x hx
        rcases List.mem_cons.mp hx with rfl | hx
        · exact fun heq => hswitch heq.symm
        · exact fun heq => by simpa [heq] using hpost x hx
      · intro x hx
        simpa using hblock x hx
      · intro x hx
        simpa using hrest x hx

-- The same for a backward move: `first :: mobileblock` moves behind `away :: prefrontier`, up to
-- the point at the frontier.
structure BackwardMove where
  start : List SchedulePoint
  first : SchedulePoint
  mobileblock : List SchedulePoint
  away : SchedulePoint
  prefrontier : List SchedulePoint
  point : SchedulePoint
  postfrontier : List SchedulePoint

namespace BackwardMove

def before (m : BackwardMove) : List SchedulePoint :=
  m.start ++ m.first :: m.mobileblock ++ m.away :: m.prefrontier ++ m.point :: m.postfrontier

def after (m : BackwardMove) : List SchedulePoint :=
  m.start ++ setAddr m.first.addr m.away :: m.prefrontier ++
    setAddr m.point.addr m.first :: m.mobileblock ++
    setAddr m.away.addr m.point :: m.postfrontier

-- The last block of the frontier's chosen thread before the frontier, with its whole length.
structure At (m : BackwardMove) (source : Schedule) (frontier : Nat) : Prop where
  split : source.schedule = m.before
  frontier : (m.start ++ m.first :: m.mobileblock ++ m.away :: m.prefrontier).length = frontier
  moved : ∀ x ∈ m.first :: m.mobileblock, x.chosen = m.point.chosen
  away : ∀ x ∈ m.away :: m.prefrontier, x.chosen ≠ m.point.chosen
  maximal : ∀ x ∈ m.start.getLast?, x.chosen ≠ m.point.chosen

end BackwardMove

theorem consolidateFrontierBackward_spec (self : Schedule) (frontier : Nat) (sched : Schedule)
    (hne : sched.schedule ≠ []) (h : self.consolidateFrontierBackward frontier = some sched) :
    ∃ m : BackwardMove, m.At self frontier ∧
      sched = { schedule := patchUpSchedule m.after, addrlist := self.addrlist } := by
  have hempty : ({} : Schedule) ≠ sched := by
    rintro rfl
    exact hne rfl
  simp only [consolidateFrontierBackward, Option.bind_eq_bind, Option.bind_eq_some_iff] at h
  obtain ⟨point, hpoint, h⟩ := h
  split at h
  · exact absurd (Option.some.inj h) hempty
  rename_i hzero
  obtain ⟨previous, hprevious, h⟩ := Option.bind_eq_some_iff.mp h
  split at h
  · exact absurd (Option.some.inj h) hempty
  rename_i hswitch
  obtain ⟨hlt, hget⟩ := List.getElem?_eq_some_iff.mp hpoint
  obtain ⟨front, post, hsplit, hlen⟩ : ∃ front post, self.schedule = front ++ point :: post ∧
      front.length = frontier := by
    refine ⟨self.schedule.take frontier, self.schedule.drop (frontier + 1), ?_, ?_⟩
    · rw [← hget, ← List.drop_eq_getElem_cons hlt, List.take_append_drop]
    · rw [List.length_take, Nat.min_eq_left (Nat.le_of_lt hlt)]
  have hlast : front.getLast? = some previous := by
    rw [List.getLast?_eq_getElem?, hlen, ← hprevious, hsplit, List.getElem?_append_left (by omega)]
  -- The scan down to the end of the block, and the scan down to its start.
  obtain ⟨upTo, away, rfl, hend, haway, hupTo⟩ :=
    scanDown_append (·.chosen == point.chosen) front (point :: post)
  rw [← hsplit, hlen] at hend
  rw [hend] at h
  split at h
  · exact absurd (Option.some.inj h) hempty
  rename_i hfound
  obtain ⟨start, block, rfl, hstart, hblock, hmaximal⟩ :=
    scanDown_append (·.chosen != point.chosen) upTo (away ++ point :: post)
  rw [← List.append_assoc, ← hsplit] at hstart
  rw [hstart] at h
  have hblock' : ∀ x ∈ block, x.chosen = point.chosen := fun x hx => by simpa using hblock x hx
  have haway' : ∀ x ∈ away, x.chosen ≠ point.chosen := fun x hx => by simpa using haway x hx
  have hmax' : ∀ x ∈ start.getLast?, x.chosen ≠ point.chosen := fun x hx => by
    simpa using hmaximal x hx
  have hblockne : block ≠ [] := by
    rintro rfl
    rw [List.append_nil] at hupTo hfound
    have hstartne : start ≠ [] := fun hnil => hfound (by rw [hnil, List.length_nil])
    have hlast := List.getLast?_eq_some_getLast hstartne
    exact hmax' _ hlast (by simpa using hupTo _ hlast)
  have hawayne : away ≠ [] := by
    rintro rfl
    rw [List.append_nil] at hlast
    have hprev : previous.chosen = point.chosen := by simpa using hupTo previous hlast
    exact hswitch hprev.symm
  obtain ⟨first, mobile, rfl⟩ := List.exists_cons_of_ne_nil hblockne
  obtain ⟨first', pre, rfl⟩ := List.exists_cons_of_ne_nil hawayne
  have hmobile : (self.schedule.take (start ++ first :: mobile).length).drop start.length =
      first :: mobile := by
    rw [hsplit, List.append_assoc]
    exact slice_middle _ _ _ _ _ rfl (by simp)
  have hpre : (self.schedule.take frontier).drop (start ++ first :: mobile).length =
      first' :: pre := by
    rw [hsplit]
    exact slice_middle _ _ _ _ _ rfl (by rw [← hlen, List.length_append])
  have hpost : self.schedule.drop frontier = point :: post := by
    rw [hsplit]
    exact List.drop_left' hlen
  have hstart' : self.schedule.take start.length = start := by
    rw [hsplit, List.append_assoc, List.append_assoc, List.take_left]
  simp only [hmobile, hpre, hpost, hstart', List.head?_cons, Option.map_some, Option.bind_some,
    List.modifyHead_cons] at h
  obtain ⟨_, _, h⟩ := Option.bind_eq_some_iff.mp h
  exact ⟨⟨start, first, mobile, first', pre, point, post⟩,
    ⟨hsplit, hlen, hblock', haway', hmax'⟩, (Option.some.inj h).symm⟩

-- And for a removal, where `first :: block` goes.
structure RemovalMove where
  front : List SchedulePoint
  first : SchedulePoint
  block : List SchedulePoint
  back : List SchedulePoint

namespace RemovalMove

def before (m : RemovalMove) : List SchedulePoint := m.front ++ m.first :: m.block ++ m.back

def after (m : RemovalMove) : List SchedulePoint :=
  m.front ++ m.back.modifyHead (setAddr m.first.addr)

-- The last block of the thread, with its whole length.
structure At (m : RemovalMove) (source : Schedule) (thread : Name) : Prop where
  split : source.schedule = m.before
  removed : ∀ x ∈ m.first :: m.block, x.chosen = thread
  away : ∀ x ∈ m.back, x.chosen ≠ thread
  maximal : ∀ x ∈ m.front.getLast?, x.chosen ≠ thread

end RemovalMove

theorem removeFinalBlockOfThread_spec (self : Schedule) (thread : Name) (sched : Schedule)
    (hne : sched.schedule ≠ []) (h : self.removeFinalBlockOfThread thread = some sched) :
    ∃ m : RemovalMove, m.At self thread ∧
      sched = { self with schedule := patchUpSchedule m.after } := by
  simp only [removeFinalBlockOfThread, Option.bind_eq_bind, Option.bind_eq_some_iff] at h
  obtain ⟨_, _, h⟩ := h
  obtain ⟨upTo, back, hsplit, hend, hback, hupTo⟩ :=
    scanDown_append (·.chosen == thread) self.schedule []
  rw [List.append_nil] at hend
  rw [hend] at h
  split at h
  · exact absurd ((Option.some.inj h) ▸ rfl) hne
  rename_i hfound
  obtain ⟨front, block, rfl, hstart, hblock, hmaximal⟩ :=
    scanDown_append (·.chosen != thread) upTo back
  rw [← hsplit] at hstart
  rw [hstart] at h
  have hmax' : ∀ x ∈ front.getLast?, x.chosen ≠ thread := fun x hx => by
    simpa using hmaximal x hx
  have hblockne : block ≠ [] := by
    rintro rfl
    rw [List.append_nil] at hupTo hfound
    have hfrontne : front ≠ [] := fun hnil => hfound (by rw [hnil, List.length_nil])
    have hlast := List.getLast?_eq_some_getLast hfrontne
    exact hmax' _ hlast (by simpa using hupTo _ hlast)
  obtain ⟨first, block, rfl⟩ := List.exists_cons_of_ne_nil hblockne
  have hcut : (self.schedule.take (front ++ first :: block).length).drop front.length =
      first :: block := by
    rw [hsplit]
    exact slice_middle _ _ _ _ _ rfl (by simp)
  have hback' : self.schedule.drop (front ++ first :: block).length = back := by
    rw [hsplit, List.drop_left]
  have hfront : self.schedule.take front.length = front := by
    rw [hsplit, List.append_assoc, List.take_left]
  simp only [hcut, hback', hfront, List.head?_cons, Option.map_some, Option.bind_some] at h
  refine ⟨⟨front, first, block, back⟩, ⟨hsplit, ?_, ?_, hmax'⟩, (Option.some.inj h).symm⟩
  · intro x hx
    simpa using hblock x hx
  · intro x hx
    simpa using hback x hx

end Thrille.Schedule
