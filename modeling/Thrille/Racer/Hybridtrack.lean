import Thrille.Lib.OrderedMap
import Thrille.Racer.Vctrack
import Mathlib.Data.Finset.Basic

namespace Thrille

-- `set<pthread_mutex_t *>`.
abbrev LockSet := Finset Addr

structure LockSetTracker where
  lockmap : ThrMap LockSet := ∅

namespace LockSetTracker

def getLockSet (self : LockSetTracker) (thread : ThrID) : LockSet := self.lockmap.getD thread ∅

def lockBefore (self : LockSetTracker) (thread : ThrID) (lock : Addr) : LockSetTracker :=
  { lockmap := self.lockmap.insert thread (insert lock (self.lockmap.getD thread ∅)) }

-- A mutex that is not in the set is only complained about.
def unlockAfter (self : LockSetTracker) (thread : ThrID) (lock : Addr) : LockSetTracker :=
  let thels := self.lockmap.getD thread ∅
  if lock ∈ thels then { lockmap := self.lockmap.insert thread (thels.erase lock) } else self

def isIntersectionEmpty (l1 l2 : LockSet) : Bool := decide (∀ lock ∈ l1, lock ∉ l2)

end LockSetTracker

structure DataRaceEvent where
  iid : Addr
  thread : ThrID
  addr : Addr
  isread : Bool
  vc : VectorClock
  ls : LockSet

structure HybridRaceTracker where
  vsTracker : VectorClockTracker := VectorClockTracker.new
  lsTracker : LockSetTracker := {}
  eventset : Std.TreeMap Addr (List DataRaceEvent) := ∅
  rd_profile_size : Nat

namespace HybridRaceTracker

def isRacing (e1 e2 : DataRaceEvent) : Bool :=
  if e1.thread = e2.thread then false
  else if e1.addr ≠ e2.addr then false
  else if e1.isread && e2.isread then false
  else if VectorClockTracker.isHappensBefore e1.vc e2.vc then false
  else if VectorClockTracker.isHappensBefore e2.vc e1.vc then false
  else LockSetTracker.isIntersectionEmpty e1.ls e2.ls

-- Reads and writes have the same bound.
def addEvent (self : HybridRaceTracker) (e : DataRaceEvent) : HybridRaceTracker :=
  let eset := self.eventset.getD e.addr []
  let eset := if eset.length < self.rd_profile_size then eset ++ [e] else eset
  { self with eventset := self.eventset.insert e.addr eset }

def lockBefore (self : HybridRaceTracker) (thread : ThrID) (lock : Addr) : HybridRaceTracker :=
  { self with lsTracker := self.lsTracker.lockBefore thread lock }

def unlockAfter (self : HybridRaceTracker) (thread : ThrID) (lock : Addr) : HybridRaceTracker :=
  { self with lsTracker := self.lsTracker.unlockAfter thread lock }

def afterWait (self : HybridRaceTracker) (me : ThrID) (cond : Addr) : HybridRaceTracker :=
  { self with vsTracker := self.vsTracker.afterWait me cond }

def getLockSet (self : HybridRaceTracker) (thread : ThrID) : LockSet :=
  self.lsTracker.getLockSet thread

def getVectorClock (self : HybridRaceTracker) (thread : ThrID) : VectorClock :=
  self.vsTracker.getVectorClock thread

theorem isRacing_of_happensBefore (e1 e2 : DataRaceEvent)
    (hbefore : VectorClockTracker.isHappensBefore e1.vc e2.vc = true) :
    isRacing e1 e2 = false ∧ isRacing e2 e1 = false := by
  simp [isRacing, hbefore]

theorem mem_getLockSet_lockBefore (self : HybridRaceTracker) (thread other : ThrID)
    (lock m : Addr) :
    m ∈ (self.lockBefore thread lock).getLockSet other ↔
      (thread = other ∧ lock = m) ∨ m ∈ self.getLockSet other := by
  simp only [lockBefore, getLockSet, LockSetTracker.getLockSet, LockSetTracker.lockBefore,
    OrderedMap.getD_insert_eq]
  by_cases hthread : thread = other
  · subst hthread
    simp [eq_comm]
  · simp [hthread]

theorem mem_getLockSet_unlockAfter (self : HybridRaceTracker) (thread other : ThrID)
    (lock m : Addr) :
    m ∈ (self.unlockAfter thread lock).getLockSet other ↔
      ¬(thread = other ∧ lock = m) ∧ m ∈ self.getLockSet other := by
  simp only [unlockAfter, getLockSet, LockSetTracker.getLockSet, LockSetTracker.unlockAfter]
  by_cases hmem : lock ∈ self.lsTracker.lockmap.getD thread ∅
  · rw [if_pos hmem, OrderedMap.getD_insert_eq]
    by_cases hthread : thread = other
    · subst hthread
      simp [eq_comm]
    · simp [hthread]
  · rw [if_neg hmem]
    constructor
    · intro hm
      refine ⟨?_, hm⟩
      rintro ⟨rfl, rfl⟩
      exact hmem hm
    · exact fun h => h.2

end HybridRaceTracker

end Thrille
