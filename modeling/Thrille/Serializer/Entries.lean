import Thrille.Serializer.Threads
import Thrille.Lib.OrderedMap

namespace Thrille

open OrderedMap

theorem PtrMap.mem_threadsAt (map : PtrMap) (addr : Addr) (t : ThrID) :
    t ∈ map.threadsAt addr ↔ map[t]? = some addr := by
  simp only [threadsAt, List.mem_map, List.mem_filter, beq_iff_eq,
    ← Std.TreeMap.mem_toList_iff_getElem?_eq_some]
  constructor
  · rintro ⟨⟨thr, at_addr⟩, ⟨hmem, rfl⟩, rfl⟩
    exact hmem
  · intro hmem
    exact ⟨(t, addr), ⟨hmem, rfl⟩, rfl⟩

-- All that the maps say of one thread.
structure Entries where
  enabled : Bool
  finished : Bool := false
  lockReady : Option Addr := none
  lockWait : Option Addr := none
  semReady : Option Addr := none
  semWait : Option Addr := none
  cond : Option Addr := none
  barrier : Option Addr := none
  deriving DecidableEq

namespace Entries

-- What the loops over the maps do to the entries of one thread.

def acquired (e : Entries) (lock : Addr) : Entries :=
  if e.lockReady = some lock then
    { e with enabled := false, lockReady := none, lockWait := some lock }
  else e

def released (e : Entries) (lock : Addr) : Entries :=
  if e.lockWait = some lock then
    { e with enabled := true, lockReady := some lock, lockWait := none }
  else e

def posted (e : Entries) (sem : Addr) : Entries :=
  if e.semWait = some sem then
    { e with enabled := true, semReady := some sem, semWait := none }
  else e

def drained (e : Entries) (sem : Addr) : Entries :=
  if e.semReady = some sem then
    { e with enabled := false, semReady := none, semWait := some sem }
  else e

def opened (e : Entries) (barrier : Addr) : Entries :=
  if e.barrier = some barrier then { e with enabled := true, barrier := none } else e

end Entries

namespace ExecutionTracker

variable (self : ExecutionTracker) (t u : ThrID)

def entries : Entries where
  enabled := self.enable_map.getD t false
  finished := self.finish_map t
  lockReady := self.lock_ready_map[t]?
  lockWait := self.lock_wait_map[t]?
  semReady := self.sem_ready_map[t]?
  semWait := self.sem_wait_map[t]?
  cond := self.cond_map[t]?
  barrier := self.bt.thread_map[t]?

theorem setAll_getD (map : ThrMap Bool) (threads : List ThrID) (value : Bool) :
    (setAll map threads value).getD t false =
      if t ∈ threads then value else map.getD t false :=
  getD_foldl_insert map threads (fun _ => value) false t

theorem setAll_get (map : PtrMap) (threads : List ThrID) (value : Addr) :
    (setAll map threads value)[t]? = if t ∈ threads then some value else map[t]? :=
  get_foldl_insert map threads value t

theorem eraseAll_get (map : PtrMap) (threads : List ThrID) :
    (eraseAll map threads)[t]? = if t ∈ threads then none else map[t]? :=
  get_foldl_erase map threads t

theorem entries_enableThread :
    (self.enableThread t).entries u =
      if t = u then { self.entries u with enabled := true } else self.entries u := by
  simp only [entries, enableThread, getD_insert_eq]
  split <;> rfl

theorem entries_disableThread :
    (self.disableThread t).entries u =
      if t = u then { self.entries u with enabled := false } else self.entries u := by
  simp only [entries, disableThread, getD_insert_eq]
  split <;> rfl

theorem entries_threadHasAcquiredLock (lock : Addr) :
    (self.threadHasAcquiredLock t lock).entries u =
      (if t = u then { self.entries u with lockReady := none }
        else self.entries u).acquired lock := by
  simp only [entries, threadHasAcquiredLock, setAll_getD, setAll_get, eraseAll_get,
    PtrMap.mem_threadsAt, get_erase_eq, Entries.acquired]
  by_cases htu : t = u
  · simp [htu]
  · by_cases hat : self.lock_ready_map[u]? = some lock <;> simp [htu, hat]

theorem entries_threadHasReleasedLock (lock : Addr) :
    (self.threadHasReleasedLock lock).entries u = (self.entries u).released lock := by
  simp only [entries, threadHasReleasedLock, setAll_getD, setAll_get, eraseAll_get,
    PtrMap.mem_threadsAt, Entries.released]
  by_cases hat : self.lock_wait_map[u]? = some lock <;> simp [hat]

theorem entries_semaphoreIsPosted (sem : Addr) :
    (self.semaphoreIsPosted sem).entries u = (self.entries u).posted sem := by
  simp only [entries, semaphoreIsPosted, setAll_getD, setAll_get, eraseAll_get,
    PtrMap.mem_threadsAt, Entries.posted]
  by_cases hat : self.sem_wait_map[u]? = some sem <;> simp [hat]

theorem entries_semaphoreIsDrained (sem : Addr) :
    (self.semaphoreIsDrained sem).entries u = (self.entries u).drained sem := by
  simp only [entries, semaphoreIsDrained, setAll_getD, setAll_get, eraseAll_get,
    PtrMap.mem_threadsAt, Entries.drained]
  by_cases hat : self.sem_ready_map[u]? = some sem <;> simp [hat]

theorem entries_determineLockStatus (lock : Addr) :
    (self.determineLockStatus t lock).entries u =
      if t = u then
        match self.mutexes lock with
        | .held _ => { self.entries u with enabled := false, lockWait := some lock }
        | _ => { self.entries u with enabled := true, lockReady := some lock }
      else self.entries u := by
  unfold determineLockStatus
  by_cases htu : t = u
  · subst htu
    cases self.mutexes lock <;>
      simp [entries, enableThread, disableThread]
  · cases self.mutexes lock <;>
      simp [entries, enableThread, disableThread, get_insert_eq, htu]

theorem entries_determineSemaphoreStatus (sem : Addr) :
    (self.determineSemaphoreStatus t sem).entries u =
      if t = u then
        if 0 < self.semaphores sem then
          { self.entries u with enabled := true, semReady := some sem }
        else { self.entries u with enabled := false, semWait := some sem }
      else self.entries u := by
  unfold determineSemaphoreStatus
  by_cases htu : t = u
  · subst htu
    split <;> simp [entries, enableThread, disableThread]
  · split <;> simp [entries, enableThread, disableThread, get_insert_eq, htu]

theorem entries_clearSemReady :
    (self.clearSemReady t).entries u =
      if t = u then { self.entries u with semReady := none } else self.entries u := by
  simp only [entries, clearSemReady, get_erase_eq]
  split <;> rfl

theorem entries_setCond (cond : Addr) :
    (self.setCond t cond).entries u =
      if t = u then { self.entries u with cond := some cond } else self.entries u := by
  simp only [entries, setCond, get_insert_eq]
  split <;> rfl

theorem entries_clearCond :
    (self.clearCond t).entries u =
      if t = u then { self.entries u with cond := none } else self.entries u := by
  simp only [entries, clearCond, get_erase_eq]
  split <;> rfl

theorem entries_openBarrier (barrier : Addr) :
    (self.openBarrier t barrier).entries u =
      if t = u then { (self.entries u).opened barrier with enabled := true }
      else (self.entries u).opened barrier := by
  simp only [entries, openBarrier, BarrierTracker.getThreadsWaitingOnBarrier, getD_insert_eq,
    BarrierTracker.clearThreadsWaitingOnBarrier, get_foldl_erase, setAll_getD,
    PtrMap.mem_threadsAt, Entries.opened]
  by_cases hat : self.bt.thread_map[u]? = some barrier <;> by_cases htu : t = u <;> simp [hat, htu]

theorem entries_waitOnBarrier (barrier : Addr) :
    (self.waitOnBarrier t barrier).entries u =
      if t = u then { self.entries u with enabled := false, barrier := some barrier }
      else self.entries u := by
  simp only [entries, waitOnBarrier, BarrierTracker.threadWaitingOnBarrier, get_insert_eq,
    getD_insert_eq]
  split <;> rfl

theorem entries_setFinished :
    (self.setFinished t).entries u =
      if t = u then { self.entries u with finished := true } else self.entries u := by
  by_cases htu : t = u
  · subst htu
    simp [entries, setFinished]
  · simp [entries, setFinished, htu, Ne.symm htu]

theorem entries_initializeThreadData :
    (self.initializeThreadData t).entries u =
      if t = u then { self.entries u with
        enabled := true, finished := false, lockReady := none, lockWait := none, semReady := none,
        semWait := none, cond := none }
      else self.entries u := by
  by_cases htu : t = u
  · subst htu
    simp [entries, initializeThreadData, enableThread]
  · simp [entries, initializeThreadData, enableThread, get_erase_eq, htu, Ne.symm htu]

end ExecutionTracker

end Thrille
