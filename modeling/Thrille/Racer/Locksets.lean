import Thrille.Racer.Libracer

namespace Thrille.RacerHandler

open OrderedMap

section

variable {isRecursive : Addr → Bool} {self self' : RacerHandler}

@[simp] theorem setPending_pending (thread other : ThrID) (call : InCall) :
    (self.setPending thread call).pending[other]? =
      if thread = other then some call else self.pending[other]? :=
  get_insert_eq _ _ _ _

@[simp] theorem returned_pending (thread other : ThrID) :
    (self.returned thread).pending[other]? =
      if thread = other then none else self.pending[other]? :=
  get_erase_eq _ _ _

@[simp] theorem setPending_eb (thread : ThrID) (call : InCall) :
    (self.setPending thread call).eb = self.eb := rfl

@[simp] theorem returned_eb (thread : ThrID) : (self.returned thread).eb = self.eb := rfl

theorem acquire_spec (thread : ThrID) (mutex : Addr)
    (hrun : self.acquire isRecursive thread mutex = some self') :
    self'.eb = self.eb ∧ self'.pending = self.pending ∧
      ∀ other m, self'.Holds other m ↔ (thread = other ∧ mutex = m) ∨ self.Holds other m := by
  have hholds : ∀ n, (∀ other m, self.mutexes[mutex]? = some (other, m) → other = thread) →
      ∀ other m, ({ self with mutexes := self.mutexes.insert mutex (thread, n) } :
        RacerHandler).Holds other m ↔ (thread = other ∧ mutex = m) ∨ self.Holds other m := by
    intro n howner other m
    simp only [Holds, get_insert_eq]
    by_cases hmutex : mutex = m
    · subst hmutex
      simp only [if_true, Option.some.injEq, Prod.mk.injEq, and_true]
      constructor
      · rintro ⟨_, hthread, _⟩
        exact Or.inl hthread
      · rintro (hthread | ⟨holds, hmine⟩)
        · exact ⟨n, hthread, rfl⟩
        · exact ⟨n, (howner other holds hmine).symm, rfl⟩
    · simp [hmutex]
  unfold acquire at hrun
  split at hrun
  case h_1 hfree =>
    obtain rfl := Option.some.inj hrun
    exact ⟨rfl, rfl, hholds 1 (by simp [hfree])⟩
  case h_2 owner holds htaken =>
    obtain ⟨_, hguard, hrun⟩ := Option.bind_eq_some_iff.mp hrun
    obtain ⟨rfl, _⟩ : owner = thread ∧ isRecursive mutex = true := by simpa [guard] using hguard
    obtain rfl := Option.some.inj hrun
    refine ⟨rfl, rfl, hholds (holds + 1) fun other m htaken' => ?_⟩
    cases htaken.symm.trans htaken'
    rfl

theorem release_spec (thread : ThrID) (mutex : Addr)
    (hrun : self.release thread mutex = some self') :
    self'.eb = self.eb ∧ self'.pending = self.pending ∧
      ∀ other m, ¬(thread = other ∧ mutex = m) → self.Holds other m → self'.Holds other m := by
  obtain ⟨⟨owner, holds⟩, htaken, hrun⟩ := Option.bind_eq_some_iff.mp hrun
  obtain ⟨_, hguard, hrun⟩ := Option.bind_eq_some_iff.mp hrun
  obtain rfl : owner = thread := by simpa [guard] using hguard
  have hother : ∀ other m, ¬(owner = other ∧ mutex = m) → self.Holds other m → mutex ≠ m := by
    rintro other m hne ⟨n, hheld⟩ rfl
    cases htaken.symm.trans hheld
    exact hne ⟨rfl, rfl⟩
  by_cases hmore : 1 < holds
  · rw [if_pos hmore] at hrun
    obtain rfl := Option.some.inj hrun
    refine ⟨rfl, rfl, fun other m hne hheld => ?_⟩
    have hmutex := hother other m hne hheld
    simpa [Holds, get_insert_eq, hmutex] using hheld
  · rw [if_neg hmore] at hrun
    obtain rfl := Option.some.inj hrun
    refine ⟨rfl, rfl, fun other m hne hheld => ?_⟩
    have hmutex := hother other m hne hheld
    simpa [Holds, get_erase_eq, hmutex] using hheld

-- Where the thread of an event stands before and after it.
def Event.before : Event → Option InCall
  | mutexLock _ mutex => some (.locking mutex)
  | afterMutexUnlock _ mutex => some (.unlocking mutex)
  | condWake _ cond mutex => some (.waiting cond mutex)
  | afterCondWait _ cond => some (.woken cond)
  | _ => none

def Event.after : Event → Option InCall
  | beforeMutexLock _ mutex => some (.locking mutex)
  | mutexUnlock _ mutex => some (.unlocking mutex)
  | condWait _ cond mutex => some (.waiting cond mutex)
  | condWake _ cond _ => some (.woken cond)
  | _ => none

def Event.takes : Event → Option Addr
  | mutexLock _ mutex => some mutex
  | mutexTrylock _ mutex => some mutex
  | condWake _ _ mutex => some mutex
  | _ => none

def Event.gives : Event → Option Addr
  | mutexUnlock _ mutex => some mutex
  | condWait _ _ mutex => some mutex
  | _ => none

-- All that a step does, seen from any thread.
structure Effect (old new : RacerHandler) (event : Event) : Prop where
  before : old.pending[event.thread]? = event.before
  after : ∀ other, new.pending[other]? =
    if event.thread = other then event.after else old.pending[other]?
  keeps : ∀ other m, ¬(event.thread = other ∧ event.gives = some m) → old.Holds other m →
    new.Holds other m
  takes : ∀ m, event.takes = some m → new.Holds event.thread m
  lockset : ∀ other m, m ∈ new.eb.getLockSet other ↔
    match event with
    | .beforeMutexLock thread mutex => (thread = other ∧ mutex = m) ∨ m ∈ old.eb.getLockSet other
    | .afterMutexUnlock thread mutex => ¬(thread = other ∧ mutex = m) ∧ m ∈ old.eb.getLockSet other
    | _ => m ∈ old.eb.getLockSet other

theorem step_effect (event : Event) (hrun : self.step isRecursive event = some self') :
    Effect self self' event := by
  have hstay : ∀ (thread other : ThrID), self.pending[thread]? = none →
      self.pending[other]? = if thread = other then none else self.pending[other]? := by
    intro thread other hnone
    by_cases h : thread = other
    · rw [if_pos h, ← h, hnone]
    · rw [if_neg h]
  cases event with
  | beforeMutexLock thread mutex =>
      obtain ⟨_, hguard, hrun⟩ := Option.bind_eq_some_iff.mp hrun
      have hbefore : self.pending[thread]? = none := by simpa [guard] using hguard
      obtain rfl := Option.some.inj hrun
      refine ⟨hbefore, fun other => setPending_pending thread other _, fun other m _ h => h, nofun, fun other m => ?_⟩
      exact HybridRaceTracker.mem_getLockSet_lockBefore self.eb thread other mutex m
  | mutexLock thread mutex =>
      obtain ⟨_, hguard, hrun⟩ := Option.bind_eq_some_iff.mp hrun
      have hbefore : self.pending[thread]? = some (.locking mutex) := by simpa [guard] using hguard
      obtain ⟨taken, htake, hrun⟩ := Option.bind_eq_some_iff.mp hrun
      obtain ⟨heb, hpending, hholds⟩ := acquire_spec thread mutex htake
      obtain rfl := Option.some.inj hrun
      refine ⟨hbefore, fun other => ?_, fun other m _ h => (hholds other m).mpr (Or.inr h),
        fun m hm => ?_, fun other m => ?_⟩
      · rw [returned_pending, hpending]
        rfl
      · cases hm
        exact (hholds thread mutex).mpr (Or.inl ⟨rfl, rfl⟩)
      · rw [returned_eb, heb]
  | mutexTrylock thread mutex =>
      obtain ⟨_, hguard, hrun⟩ := Option.bind_eq_some_iff.mp hrun
      have hbefore : self.pending[thread]? = none := by simpa [guard] using hguard
      obtain ⟨heb, hpending, hholds⟩ := acquire_spec thread mutex hrun
      refine ⟨hbefore, fun other => ?_, fun other m _ h => (hholds other m).mpr (Or.inr h),
        fun m hm => ?_, fun other m => ?_⟩
      · rw [hpending]
        exact hstay thread other hbefore
      · cases hm
        exact (hholds thread mutex).mpr (Or.inl ⟨rfl, rfl⟩)
      · rw [heb]
  | mutexUnlock thread mutex =>
      obtain ⟨_, hguard, hrun⟩ := Option.bind_eq_some_iff.mp hrun
      have hbefore : self.pending[thread]? = none := by simpa [guard] using hguard
      obtain ⟨given, hgive, hrun⟩ := Option.bind_eq_some_iff.mp hrun
      obtain ⟨heb, hpending, hholds⟩ := release_spec thread mutex hgive
      obtain rfl := Option.some.inj hrun
      refine ⟨hbefore, fun other => ?_, fun other m hne h => ?_, nofun, fun other m => ?_⟩
      · rw [setPending_pending, hpending]
        rfl
      · exact hholds other m (by simpa [Event.gives, Event.thread] using hne) h
      · rw [setPending_eb, heb]
  | afterMutexUnlock thread mutex =>
      obtain ⟨_, hguard, hrun⟩ := Option.bind_eq_some_iff.mp hrun
      have hbefore : self.pending[thread]? = some (.unlocking mutex) := by
        simpa [guard] using hguard
      obtain rfl := Option.some.inj hrun
      refine ⟨hbefore, returned_pending thread, fun other m _ h => h, nofun, fun other m => ?_⟩
      exact HybridRaceTracker.mem_getLockSet_unlockAfter self.eb thread other mutex m
  | condWait thread cond mutex =>
      obtain ⟨_, hguard, hrun⟩ := Option.bind_eq_some_iff.mp hrun
      have hbefore : self.pending[thread]? = none := by simpa [guard] using hguard
      obtain ⟨given, hgive, hrun⟩ := Option.bind_eq_some_iff.mp hrun
      obtain ⟨heb, hpending, hholds⟩ := release_spec thread mutex hgive
      obtain rfl := Option.some.inj hrun
      refine ⟨hbefore, fun other => ?_, fun other m hne h => ?_, nofun, fun other m => ?_⟩
      · rw [setPending_pending, hpending]
        rfl
      · exact hholds other m (by simpa [Event.gives, Event.thread] using hne) h
      · rw [setPending_eb, heb]
  | condWake thread cond mutex =>
      obtain ⟨_, hguard, hrun⟩ := Option.bind_eq_some_iff.mp hrun
      have hbefore : self.pending[thread]? = some (.waiting cond mutex) := by
        simpa [guard] using hguard
      obtain ⟨taken, htake, hrun⟩ := Option.bind_eq_some_iff.mp hrun
      obtain ⟨heb, hpending, hholds⟩ := acquire_spec thread mutex htake
      obtain rfl := Option.some.inj hrun
      refine ⟨hbefore, fun other => ?_, fun other m _ h => (hholds other m).mpr (Or.inr h),
        fun m hm => ?_, fun other m => ?_⟩
      · rw [setPending_pending, hpending]
        rfl
      · cases hm
        exact (hholds thread mutex).mpr (Or.inl ⟨rfl, rfl⟩)
      · rw [setPending_eb, heb]
  | afterCondWait thread cond =>
      obtain ⟨_, hguard, hrun⟩ := Option.bind_eq_some_iff.mp hrun
      have hbefore : self.pending[thread]? = some (.woken cond) := by simpa [guard] using hguard
      obtain rfl := Option.some.inj hrun
      exact ⟨hbefore, returned_pending thread, fun other m _ h => h, nofun,
        fun other m => Iff.rfl⟩
  | memoryAccess thread iid addr isread =>
      obtain ⟨_, hguard, hrun⟩ := Option.bind_eq_some_iff.mp hrun
      have hbefore : self.pending[thread]? = none := by simpa [guard] using hguard
      obtain rfl := Option.some.inj hrun
      exact ⟨hbefore, fun other => hstay thread other hbefore, fun other m _ h => h, nofun,
        fun other m => Iff.rfl⟩

-- How the lockset of a thread follows its calls, and what it then holds.
structure Tracked (past : List Event) (handler : RacerHandler) (thread : ThrID) (m : Addr) :
    Prop where
  returned : handler.pending[thread]? ≠ some (.locking m) →
    handler.pending[thread]? ≠ some (.unlocking m) →
    (m ∈ handler.eb.getLockSet thread ↔ LockedSince past thread m)
  locking : handler.pending[thread]? = some (.locking m) → m ∈ handler.eb.getLockSet thread
  unlocking : handler.pending[thread]? = some (.unlocking m) → ¬LockedSince past thread m
  held : LockedSince past thread m → (∀ cond, handler.pending[thread]? ≠ some (.waiting cond m)) →
    handler.Holds thread m

theorem Tracked.step (past : List Event) (event : Event) (thread : ThrID) (m : Addr)
    (htracked : Tracked past self thread m) (heffect : Effect self self' event) :
    Tracked (past ++ [event]) self' thread m := by
  obtain ⟨hbefore, hafter, hkeeps, htakes, hlockset⟩ := heffect
  obtain ⟨hreturned, hlocking, hunlocking, hheld⟩ := htracked
  by_cases hthread : event.thread = thread
  · subst hthread
    have hnext : self'.pending[event.thread]? = event.after := by rw [hafter, if_pos rfl]
    have hset := hlockset event.thread m
    have hkeep := hkeeps event.thread m
    have htake := htakes m
    have hsince := lockedSince_append past event event.thread m
    rw [hbefore] at hreturned hlocking hunlocking hheld
    cases event with
    | beforeMutexLock t k =>
        constructor <;> simp_all [Event.thread, Event.before, Event.after, Event.gives]
    | mutexLock t k =>
        -- the hook has already put the mutex into the set
        by_cases hmutex : k = m
        · subst hmutex
          constructor <;> simp_all [Event.thread, Event.before, Event.after, Event.takes]
        · constructor <;> simp_all [Event.thread, Event.before, Event.after, Event.gives]
    | mutexTrylock t k =>
        constructor <;> simp_all [Event.thread, Event.before, Event.after, Event.gives]
    | mutexUnlock t k =>
        -- the mutex is in the set until the hook
        by_cases hmutex : k = m
        · subst hmutex
          constructor <;> simp_all [Event.thread, Event.before, Event.after]
        · constructor <;> simp_all [Event.thread, Event.before, Event.after, Event.gives]
    | afterMutexUnlock t k =>
        by_cases hmutex : k = m
        · subst hmutex
          constructor <;> simp_all [Event.thread, Event.before, Event.after, Event.gives]
        · constructor <;> simp_all [Event.thread, Event.before, Event.after, Event.gives]
    | condWait t c k =>
        by_cases hmutex : k = m
        · subst hmutex
          constructor <;> simp_all [Event.thread, Event.before, Event.after]
        · constructor <;> simp_all [Event.thread, Event.before, Event.after, Event.gives]
    | condWake t c k =>
        by_cases hmutex : k = m
        · subst hmutex
          constructor <;> simp_all [Event.thread, Event.before, Event.after, Event.takes]
        · constructor <;> simp_all [Event.thread, Event.before, Event.after, Event.gives]
    | afterCondWait t c =>
        constructor <;> simp_all [Event.thread, Event.before, Event.after, Event.gives]
    | memoryAccess t iid addr isread =>
        constructor <;> simp_all [Event.thread, Event.before, Event.after, Event.gives]
  · have hpending : self'.pending[thread]? = self.pending[thread]? := by
      rw [hafter, if_neg hthread]
    have hsince : LockedSince (past ++ [event]) thread m ↔ LockedSince past thread m := by
      rw [lockedSince_append]
      have hlock : event ≠ .mutexLock thread m := fun h => hthread (by rw [h]; rfl)
      have hunlock : event ≠ .mutexUnlock thread m := fun h => hthread (by rw [h]; rfl)
      simp [hlock, hunlock]
    have hset : m ∈ self'.eb.getLockSet thread ↔ m ∈ self.eb.getLockSet thread := by
      rw [hlockset]
      cases event <;> simp_all [Event.thread]
    have hholds : self.Holds thread m → self'.Holds thread m :=
      hkeeps thread m fun h => hthread h.1
    constructor
    · rw [hpending, hset, hsince]
      exact hreturned
    · rw [hpending, hset]
      exact hlocking
    · rw [hpending, hsince]
      exact hunlocking
    · rw [hpending, hsince]
      exact fun h hwait => hholds (hheld h hwait)

theorem run_tracked (past events : List Event) (thread : ThrID) (m : Addr)
    (htracked : Tracked past self thread m) (hrun : self.run isRecursive events = some self') :
    Tracked (past ++ events) self' thread m := by
  induction events generalizing past self with
  | nil =>
      obtain rfl : self = self' := Option.some.inj hrun
      rw [List.append_nil]
      exact htracked
  | cons event events ih =>
      obtain ⟨next, hstep, hrest⟩ := Option.bind_eq_some_iff.mp hrun
      have hnext := htracked.step past event thread m (step_effect event hstep)
      have hall := ih (past ++ [event]) hnext hrest
      rw [List.append_assoc, List.singleton_append] at hall
      exact hall

theorem tracked_start (rd_profile_size : Nat) (thread : ThrID) (m : Addr) :
    Tracked [] (start rd_profile_size) thread m := by
  have hnever : ¬LockedSince [] thread m := by
    rintro ⟨before, after, hnil, _⟩
    simp at hnil
  constructor
  · intro _ _
    simp [hnever, start, HybridRaceTracker.getLockSet, LockSetTracker.getLockSet]
  · simp [start]
  · exact fun _ => hnever
  · exact fun hsince => absurd hsince hnever

end

-- An access records what its thread holds exactly when the thread has called `pthread_mutex_lock`
-- on each of these mutexes since it last unlocked it.
theorem access_lockset_iff (isRecursive : Addr → Bool) (rd_profile_size : Nat)
    (past : List Event) (self self' : RacerHandler) (thread : ThrID) (iid addr : Addr)
    (isread : Bool) (hrun : (start rd_profile_size).run isRecursive past = some self)
    (haccess : self.step isRecursive (.memoryAccess thread iid addr isread) = some self') :
    self' = { self with eb := self.eb.addEvent (self.dataRaceEvent thread iid addr isread) } ∧
      ((∀ m, m ∈ (self.dataRaceEvent thread iid addr isread).ls ↔ self.Holds thread m) ↔
        ∀ m, self.Holds thread m → LockedSince past thread m) := by
  obtain ⟨_, hguard, hself'⟩ := Option.bind_eq_some_iff.mp haccess
  have hidle : self.pending[thread]? = none := by simpa [guard] using hguard
  refine ⟨(Option.some.inj hself').symm, ?_⟩
  have hlockset : ∀ m, m ∈ (self.dataRaceEvent thread iid addr isread).ls ↔
      LockedSince past thread m := by
    intro m
    have htracked := run_tracked [] past thread m (tracked_start rd_profile_size thread m) hrun
    apply htracked.returned
    · simp [hidle]
    · simp [hidle]
  have hheld : ∀ m, LockedSince past thread m → self.Holds thread m := by
    intro m hsince
    have htracked := run_tracked [] past thread m (tracked_start rd_profile_size thread m) hrun
    apply htracked.held hsince
    simp [hidle]
  constructor
  · intro hexact m hholds
    exact (hlockset m).mp ((hexact m).mpr hholds)
  · intro hlocked m
    exact ⟨fun hmem => hheld m ((hlockset m).mp hmem),
      fun hholds => (hlockset m).mpr (hlocked m hholds)⟩

-- A thread takes a normal mutex by a lock and a recursive one twice, and reads memory.
theorem access_lockset_iff_locked :
    ∃ self self', (start 5).run (· == 9) [.beforeMutexLock 0 8, .mutexLock 0 8,
        .beforeMutexLock 0 9, .mutexLock 0 9, .mutexTrylock 0 9] = some self ∧
      self.step (· == 9) (.memoryAccess 0 1 64 true) = some self' ∧
      ((∀ m, m ∈ (self.dataRaceEvent 0 1 64 true).ls ↔ self.Holds 0 m) ↔
        ∀ m, self.Holds 0 m → LockedSince [.beforeMutexLock 0 8, .mutexLock 0 8,
          .beforeMutexLock 0 9, .mutexLock 0 9, .mutexTrylock 0 9] 0 m) :=
  ⟨_, _, rfl, rfl, (access_lockset_iff (· == 9) 5 _ _ _ 0 1 64 true rfl rfl).2⟩

-- A mutex taken by a trylock, and a recursive one that is still held once, are missed.
theorem access_lockset_misses :
    (∃ self self', (start 5).run (fun _ => false) [.mutexTrylock 0 8] = some self ∧
      self.step (fun _ => false) (.memoryAccess 0 1 64 true) = some self' ∧
      self.Holds 0 8 ∧ 8 ∉ (self.dataRaceEvent 0 1 64 true).ls) ∧
    ∃ self self', (start 5).run (fun _ => true) [.beforeMutexLock 0 9, .mutexLock 0 9,
        .beforeMutexLock 0 9, .mutexLock 0 9, .mutexUnlock 0 9, .afterMutexUnlock 0 9] =
        some self ∧
      self.step (fun _ => true) (.memoryAccess 0 1 64 true) = some self' ∧
      self.Holds 0 9 ∧ 9 ∉ (self.dataRaceEvent 0 1 64 true).ls := by
  refine ⟨⟨_, _, rfl, rfl, ⟨1, rfl⟩, ?_⟩, _, _, rfl, rfl, ⟨1, rfl⟩, ?_⟩
  · decide +kernel
  · decide +kernel

end Thrille.RacerHandler
