import Thrille.Racer.Vctrack
import Thrille.Lib.OrderedMap
import Mathlib.Order.Lattice
import Mathlib.Order.MinMax

namespace Thrille.VectorClockTracker

open OrderedMap

-- What the tracker says thread `thr` knows of thread `other`, and what a message says.
def time (self : VectorClockTracker) (thr other : ThrID) : Nat :=
  (self.vcs.getD thr ∅).getD other 0

def msgTime (self : VectorClockTracker) (cond : Addr) (other : ThrID) : Nat :=
  (self.messagemap.getD cond ∅).getD other 0

theorem le_receiveEntries (msg : List (ThrID × Nat)) (newvc : VectorClock) (thr : ThrID)
    (t : Nat) :
    t ≤ (receiveEntries newvc msg).getD thr 0 ↔
      t ≤ newvc.getD thr 0 ∨ ∃ time, (thr, time) ∈ msg ∧ t ≤ time := by
  induction msg generalizing newvc with
  | nil => simp [receiveEntries]
  | cons entry msg ih =>
      obtain ⟨map, hstep, hentry⟩ : ∃ map : VectorClock,
          receiveEntries newvc (entry :: msg) = receiveEntries map msg ∧ map.getD thr 0 =
            if entry.1 = thr then max (newvc.getD thr 0) entry.2 else newvc.getD thr 0 := by
        cases hget : newvc[entry.1]? with
        | none =>
            refine ⟨newvc.insert entry.1 entry.2, ?_, ?_⟩
            · simp only [receiveEntries, List.foldl_cons, hget]
            simp only [getD_insert_eq]
            split
            · rename_i heq
              rw [← heq, Std.TreeMap.getD_eq_getD_getElem?, hget]
              simp
            · rfl
        | some time =>
            refine ⟨newvc.insert entry.1 (if entry.2 < time then time else entry.2), ?_, ?_⟩
            · simp only [receiveEntries, List.foldl_cons, hget]
            simp only [getD_insert_eq]
            split
            · rename_i heq
              rw [← heq, Std.TreeMap.getD_eq_getD_getElem?, hget, Option.getD_some]
              split <;> omega
            · rfl
      rw [hstep, ih, hentry]
      by_cases heq : entry.1 = thr
      · rw [if_pos heq, le_max_iff, ← heq]
        constructor
        · rintro ((hle | hle) | ⟨time, hmem, hle⟩)
          · exact Or.inl hle
          · exact Or.inr ⟨entry.2, List.mem_cons_self, hle⟩
          · exact Or.inr ⟨time, List.mem_cons_of_mem _ hmem, hle⟩
        · rintro (hle | ⟨time, hmem, hle⟩)
          · exact Or.inl (Or.inl hle)
          · rcases List.mem_cons.mp hmem with hentry | hmem
            · have htime : time = entry.2 := congrArg Prod.snd hentry
              exact Or.inl (Or.inr (htime ▸ hle))
            · exact Or.inr ⟨time, hmem, hle⟩
      · have hne (time : Nat) : (thr, time) ≠ entry := by
          rintro rfl
          exact heq rfl
        simp only [if_neg heq, List.mem_cons, hne, false_or]

theorem receiveEntries_getD (newvc msg : VectorClock) (thr : ThrID) :
    (receiveEntries newvc msg.toList).getD thr 0 = max (newvc.getD thr 0) (msg.getD thr 0) := by
  apply eq_of_forall_le_iff
  intro t
  rw [le_receiveEntries, le_max_iff]
  constructor
  · rintro (hle | ⟨time, hmem, hle⟩)
    · exact Or.inl hle
    · rw [← mem_toList_getD msg thr time 0 hmem] at hle
      exact Or.inr hle
  · rintro (hle | hle)
    · exact Or.inl hle
    · by_cases hmem : thr ∈ msg
      · exact Or.inr ⟨_, getD_mem_toList msg thr 0 hmem, hle⟩
      · rw [Std.TreeMap.getD_eq_fallback hmem] at hle
        exact Or.inl (Nat.le_trans hle (Nat.zero_le _))

theorem isHappensBefore_iff (before after : VectorClock) :
    isHappensBefore before after = true ↔ ∀ thr, before.getD thr 0 ≤ after.getD thr 0 := by
  simp only [isHappensBefore, List.all_eq_true, Bool.not_eq_true', decide_eq_false_iff_not,
    Nat.not_lt]
  constructor
  · intro hall thr
    by_cases hmem : thr ∈ before
    · exact hall _ (getD_mem_toList before thr 0 hmem)
    · rw [Std.TreeMap.getD_eq_fallback hmem]
      exact Nat.zero_le _
  · rintro hall ⟨thr, time⟩ hmem
    rw [← mem_toList_getD before thr time 0 hmem]
    exact hall thr

-- The clocks and messages after each operation.
section

variable (self : VectorClockTracker) (thr other : ThrID)

theorem time_incrementMyClock (id : ThrID) :
    (self.incrementMyClock id).time thr other =
      if id = thr ∧ id = other then self.time thr other + 1 else self.time thr other := by
  simp only [time, incrementMyClock, getD_insert_eq]
  by_cases hthr : id = thr
  · subst hthr
    by_cases hother : id = other
    · subst hother
      simp
    · simp [hother]
  · simp [hthr]

theorem time_receiveMessage (id : ThrID) (msg : VectorClock) :
    (self.receiveMessage id msg).time thr other =
      if id = thr then max (self.time thr other) (msg.getD other 0) else self.time thr other := by
  simp only [time, receiveMessage, getD_insert_eq]
  by_cases hthr : id = thr
  · subst hthr
    simp [receiveEntries_getD]
  · simp [hthr]

theorem time_afterJoin (me thrjoined : ThrID) :
    (self.afterJoin me thrjoined).time thr other =
      if me = thr then max (self.time thr other) (self.time thrjoined other)
      else self.time thr other :=
  time_receiveMessage self thr other me _

theorem time_afterWait (me : ThrID) (cond : Addr) :
    (self.afterWait me cond).time thr other =
      if me = thr then max (self.time thr other) (self.msgTime cond other)
      else self.time thr other :=
  time_receiveMessage self thr other me _

theorem time_beforeSignal (me : ThrID) (cond : Addr) :
    (self.beforeSignal me cond).time thr other =
      if me = thr ∧ me = other then self.time thr other + 1 else self.time thr other :=
  time_incrementMyClock _ thr other me

theorem time_beforeCreate (me child : ThrID) (hne : me ≠ child) :
    (self.beforeCreate me child).time thr other =
      if thr = child then
        if other = child then self.time me child + 1 else self.time me other
      else if me = thr ∧ me = other then self.time thr other + 1 else self.time thr other := by
  rw [beforeCreate, time_incrementMyClock, time_incrementMyClock]
  have hcopy (thr other : ThrID) :
      ({ self with vcs := self.vcs.insert child (self.vcs.getD me ∅) } : VectorClockTracker).time
        thr other = if child = thr then self.time me other else self.time thr other := by
    simp only [time, getD_insert_eq]
    split <;> rfl
  simp only [hcopy]
  by_cases hthr : thr = child
  · subst hthr
    by_cases hother : other = thr
    · subst hother
      simp [hne]
    · simp [hne, hother, Ne.symm hother]
  · simp [hthr, Ne.symm hthr]

theorem msgTime_beforeSignal (me : ThrID) (cond cond' : Addr) :
    (self.beforeSignal me cond).msgTime cond' other =
      if cond = cond' then self.time me other else self.msgTime cond' other := by
  simp only [msgTime, beforeSignal, incrementMyClock, getD_insert_eq]
  split <;> rfl

end

end Thrille.VectorClockTracker
