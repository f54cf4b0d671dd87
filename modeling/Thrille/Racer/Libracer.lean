import Thrille.Racer.Hybridtrack

namespace Thrille

-- Where a thread is inside a call: between a hook and the real call, or the other way round.
inductive InCall
  | locking (mutex : Addr)
  | unlocking (mutex : Addr)
  | waiting (cond mutex : Addr)
  | woken (cond : Addr)
  deriving DecidableEq, Repr

-- The handler, and what the threads have done to the real mutexes: the owner of each one and
-- how many times it holds it.
structure RacerHandler where
  eb : HybridRaceTracker
  mutexes : Std.TreeMap Addr (ThrID × Nat) := ∅
  pending : ThrMap InCall := ∅

namespace RacerHandler

-- The steps of successful calls. The hooks of a lock, an unlock and a wait are steps of their
-- own; a trylock has none.
inductive Event
  | beforeMutexLock (thread : ThrID) (mutex : Addr)
  | mutexLock (thread : ThrID) (mutex : Addr)
  | mutexTrylock (thread : ThrID) (mutex : Addr)
  | mutexUnlock (thread : ThrID) (mutex : Addr)
  | afterMutexUnlock (thread : ThrID) (mutex : Addr)
  | condWait (thread : ThrID) (cond mutex : Addr)
  | condWake (thread : ThrID) (cond mutex : Addr)
  | afterCondWait (thread : ThrID) (cond : Addr)
  | memoryAccess (thread : ThrID) (iid addr : Addr) (isread : Bool)
  deriving DecidableEq, Repr

def Event.thread : Event → ThrID
  | beforeMutexLock thread _ => thread
  | mutexLock thread _ => thread
  | mutexTrylock thread _ => thread
  | mutexUnlock thread _ => thread
  | afterMutexUnlock thread _ => thread
  | condWait thread _ _ => thread
  | condWake thread _ _ => thread
  | afterCondWait thread _ => thread
  | memoryAccess thread _ _ _ => thread

def dataRaceEvent (self : RacerHandler) (thread : ThrID) (iid addr : Addr) (isread : Bool) :
    DataRaceEvent :=
  { iid, thread, addr, isread
    vc := self.eb.getVectorClock thread
    ls := self.eb.getLockSet thread }

-- `myMemoryRead` and `myMemoryWrite` differ in `isread`.
def myMemoryAccess (self : RacerHandler) (thread : ThrID) (iid addr : Addr) (isread : Bool) :
    RacerHandler :=
  { self with eb := self.eb.addEvent (self.dataRaceEvent thread iid addr isread) }

def BeforeMutexLock (self : RacerHandler) (thread : ThrID) (mutex : Addr) : RacerHandler :=
  { self with eb := self.eb.lockBefore thread mutex }

def AfterMutexUnlock (self : RacerHandler) (thread : ThrID) (mutex : Addr) : RacerHandler :=
  { self with eb := self.eb.unlockAfter thread mutex }

def AfterCondWait (self : RacerHandler) (thread : ThrID) (cond : Addr) : RacerHandler :=
  { self with eb := self.eb.afterWait thread cond }

def setPending (self : RacerHandler) (thread : ThrID) (call : InCall) : RacerHandler :=
  { self with pending := self.pending.insert thread call }

def returned (self : RacerHandler) (thread : ThrID) : RacerHandler :=
  { self with pending := self.pending.erase thread }

section

variable (isRecursive : Addr → Bool)

-- `none` where the real call does not succeed.
def acquire (self : RacerHandler) (thread : ThrID) (mutex : Addr) : Option RacerHandler :=
  match self.mutexes[mutex]? with
  | none => some { self with mutexes := self.mutexes.insert mutex (thread, 1) }
  | some (owner, holds) => do
      guard (owner = thread ∧ isRecursive mutex)
      return { self with mutexes := self.mutexes.insert mutex (thread, holds + 1) }

def release (self : RacerHandler) (thread : ThrID) (mutex : Addr) : Option RacerHandler := do
  let (owner, holds) ← self.mutexes[mutex]?
  guard (owner = thread)
  if 1 < holds then return { self with mutexes := self.mutexes.insert mutex (thread, holds - 1) }
  return { self with mutexes := self.mutexes.erase mutex }

-- A wait gives one hold of the mutex back and takes it again before it returns.
def step (self : RacerHandler) : Event → Option RacerHandler
  | .beforeMutexLock thread mutex => do
      guard (self.pending[thread]? = none)
      return (self.BeforeMutexLock thread mutex).setPending thread (.locking mutex)
  | .mutexLock thread mutex => do
      guard (self.pending[thread]? = some (.locking mutex))
      let self ← self.acquire isRecursive thread mutex
      return self.returned thread
  | .mutexTrylock thread mutex => do
      guard (self.pending[thread]? = none)
      self.acquire isRecursive thread mutex
  | .mutexUnlock thread mutex => do
      guard (self.pending[thread]? = none)
      let self ← self.release thread mutex
      return self.setPending thread (.unlocking mutex)
  | .afterMutexUnlock thread mutex => do
      guard (self.pending[thread]? = some (.unlocking mutex))
      return (self.AfterMutexUnlock thread mutex).returned thread
  | .condWait thread cond mutex => do
      guard (self.pending[thread]? = none)
      let self ← self.release thread mutex
      return self.setPending thread (.waiting cond mutex)
  | .condWake thread cond mutex => do
      guard (self.pending[thread]? = some (.waiting cond mutex))
      let self ← self.acquire isRecursive thread mutex
      return self.setPending thread (.woken cond)
  | .afterCondWait thread cond => do
      guard (self.pending[thread]? = some (.woken cond))
      return (self.AfterCondWait thread cond).returned thread
  | .memoryAccess thread iid addr isread => do
      guard (self.pending[thread]? = none)
      return self.myMemoryAccess thread iid addr isread

def run (self : RacerHandler) (events : List Event) : Option RacerHandler :=
  events.foldlM (step isRecursive) self

end

def start (rd_profile_size : Nat) : RacerHandler := { eb := { rd_profile_size } }

def Holds (self : RacerHandler) (thread : ThrID) (mutex : Addr) : Prop :=
  ∃ holds, self.mutexes[mutex]? = some (thread, holds)

-- The thread has locked the mutex, not only tried to, and not unlocked it since.
def LockedSince (past : List Event) (thread : ThrID) (mutex : Addr) : Prop :=
  ∃ before after, past = before ++ .mutexLock thread mutex :: after ∧
    .mutexUnlock thread mutex ∉ after

theorem lockedSince_append (past : List Event) (event : Event) (thread : ThrID) (mutex : Addr) :
    LockedSince (past ++ [event]) thread mutex ↔
      event = .mutexLock thread mutex ∨
        (event ≠ .mutexUnlock thread mutex ∧ LockedSince past thread mutex) := by
  constructor
  · rintro ⟨before, after, hpast, hnone⟩
    rcases List.eq_nil_or_concat after with rfl | ⟨after, last, rfl⟩
    · obtain ⟨_, hevent⟩ := List.append_inj' hpast rfl
      exact Or.inl (List.singleton_inj.mp hevent)
    · rw [List.concat_eq_append] at hpast hnone
      rw [← List.cons_append, ← List.append_assoc] at hpast
      obtain ⟨rfl, hevent⟩ := List.append_inj' hpast rfl
      obtain rfl := List.singleton_inj.mp hevent
      right
      refine ⟨?_, before, after, rfl, ?_⟩
      · rintro rfl
        exact hnone (List.mem_append_right _ List.mem_cons_self)
      · exact fun hmem => hnone (List.mem_append_left _ hmem)
  · rintro (rfl | ⟨hevent, before, after, rfl, hnone⟩)
    · exact ⟨past, [], rfl, List.not_mem_nil⟩
    · refine ⟨before, after ++ [event], by simp, ?_⟩
      rw [List.mem_append, List.mem_singleton]
      rintro (hmem | heq)
      · exact hnone hmem
      · exact hevent heq.symm

end RacerHandler

end Thrille
