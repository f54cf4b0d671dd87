import Thrille.Randact.Tester
import Thrille.Randact.Shadow
import Thrille.Serializer.Tracked

namespace Thrille

open ExecutionTracker OrderedMap

-- The maps of the base class agree with the stages of the threads and with the mutexes, and no
-- thread waits for one that is destroyed.
structure Settled (st : ThrID → Stage) (s : ExecutionTracker) : Prop where
  fits : ∀ u, (st u).Fits s.finish_map (s.entries u)
  locks : LockMaps s none
  alive : ∀ u m, (st u).mutex = some m → s.mutexes m ≠ .destroyed

-- What a thread can be postponed at: its mutex, or a memory access.
def Postponed (isLockRace : Bool) (addr : Addr) (st : Stage) : Prop :=
  if isLockRace then ∃ k : Pending, st = .pending k ∧ k.mutex = some addr ∧ ∀ m, k ≠ .trylock m
  else st = .pending (.simple OPERATION_SUCCESSFUL)

-- The state of a tester over the tracker that the base class would have.
structure Covers {ρ : Type} (isLockRace : Bool) (st : ThrID → Stage) (H : ThrID → Prop)
    (s : ExecutionTracker) (p : Tested ρ) : Prop where
  shadow : Shadow (fun u => p.2.isPaused u = true) H True s p.1
  known : ∀ u, p.2.isPaused u = true → (p.2.infoOf u).me = some u ∧
    Postponed isLockRace (p.2.infoOf u).addr (st u)

section Entries

variable {st : ThrID → Stage} {s : ExecutionTracker} {u : ThrID} {addr : Addr}

-- A thread that is postponed at a mutex may take it or waits for it, as the mutex is.
theorem Settled.at_mutex (h : Settled st s) (hpostponed : Postponed true addr (st u)) :
    s.mutexes addr = .free ∧ s.entries u = { enabled := true, lockReady := some addr } ∨
      (∃ o, s.mutexes addr = .held o) ∧
        s.entries u = { enabled := false, lockWait := some addr } := by
  obtain ⟨k, hst, hmutex, htrylock⟩ : ∃ k : Pending, st u = .pending k ∧ k.mutex = some addr ∧
    ∀ m, k ≠ .trylock m := hpostponed
  have halive := h.alive u addr (by rw [hst]; exact hmutex)
  have hfit : s.entries u = { enabled := true, lockReady := some addr } ∨
      s.entries u = { enabled := false, lockWait := some addr } := by
    have hfit := h.fits u
    rw [hst] at hfit
    cases k with
    | lock m =>
        cases hmutex
        exact hfit
    | relock w timedOut =>
        cases hmutex
        exact hfit
    | trylock m => exact absurd rfl (htrylock m)
    | _ => cases hmutex
  rcases hfit with hready | hwait
  · left
    refine ⟨?_, hready⟩
    have hnot := h.locks.ready u addr (by rw [hready])
    cases hstate : s.mutexes addr with
    | free => rfl
    | held o => exact absurd hstate (hnot o)
    | destroyed => exact absurd hstate halive
  · right
    exact ⟨(h.locks.wait u addr (by rw [hwait])).resolve_left nofun, hwait⟩

theorem Settled.at_access (h : Settled st s) (hpostponed : Postponed false addr (st u)) :
    s.entries u = { enabled := true } := by
  have hst : st u = .pending (.simple OPERATION_SUCCESSFUL) := hpostponed
  have hfit := h.fits u
  rwa [hst] at hfit

end Entries

-- A postponed thread gets the entries that it would have.
theorem Shadow.reenable {P P' H : ThrID → Prop} {s x x' : ExecutionTracker} {u : ThrID}
    (h : Shadow P H True s x) (hP : ∀ w, P' w ↔ P w ∧ w ≠ u) (hsame : s.shade x' = x')
    (hself : x'.entries u = s.entries u) (hothers : ∀ w, w ≠ u → x'.entries w = x.entries w) :
    Shadow P' H True s x' where
  same := hsame
  free w hw := by
    by_cases hwu : w = u
    · rw [hwu]
      exact hself
    · rw [hothers w hwu]
      exact h.free w fun hpaused => hw ((hP w).mpr ⟨hpaused, hwu⟩)
  bare w hw := h.bare w ((hP w).mp hw).1
  shown w hw hshown := by
    rw [hothers w ((hP w).mp hw).2]
    exact h.shown w ((hP w).mp hw).1 hshown
  hidden w hw hhidden := by
    rw [hothers w ((hP w).mp hw).2]
    exact h.hidden w ((hP w).mp hw).1 hhidden
  down _ w hw := by
    rw [hothers w ((hP w).mp hw).2]
    exact h.down trivial w ((hP w).mp hw).1

-- All that can be set in the entries of a postponed thread are the maps of the mutexes.
theorem Shadow.entries_of_paused {P H : ThrID → Prop} {s x : ExecutionTracker} {u : ThrID}
    (h : Shadow P H True s x) (hu : P u) :
    ∃ lockReady lockWait, x.entries u = { enabled := false, lockReady, lockWait } ∧
      (lockReady = none ∨ lockReady = (s.entries u).lockReady) ∧
      (lockWait = none ∨ lockWait = (s.entries u).lockWait) := by
  have hentries := h.bare_shade u hu
  rw [Entries.Bare, h.down trivial u hu] at hentries
  refine ⟨_, _, hentries, ?_⟩
  by_cases hhidden : H u
  · obtain ⟨hready, hwait⟩ := h.hidden u hu hhidden
    exact ⟨Or.inl hready, Or.inl hwait⟩
  · obtain ⟨hready, hwait⟩ := h.shown u hu hhidden
    exact ⟨Or.inr hready, Or.inr hwait⟩

namespace RandomActiveTester

variable {ρ : Type}

theorem isPaused_setPaused (self : RandomActiveTester ρ) (u w : ThrID) (value : Bool) :
    (self.setPaused u value).isPaused w = if u = w then value else self.isPaused w :=
  getD_insert_eq _ _ _ _ _

theorem mem_postponed (self : RandomActiveTester ρ) (u : ThrID) :
    u ∈ self.postponed ↔ self.isPaused u = true := by
  unfold postponed isPaused
  rw [List.mem_map]
  constructor
  · rintro ⟨⟨key, value⟩, hentry, rfl⟩
    obtain ⟨hentry, hvalue⟩ := List.mem_filter.mp hentry
    obtain rfl : value = true := hvalue
    exact mem_toList_getD _ key true false hentry
  · intro hpaused
    have hkey := mem_of_getD_ne self.active_testing_paused u false (by simp [hpaused])
    have hentry := getD_mem_toList self.active_testing_paused u false hkey
    rw [hpaused] at hentry
    exact ⟨(u, true), List.mem_filter.mpr ⟨hentry, rfl⟩, rfl⟩

theorem nodup_postponed (self : RandomActiveTester ρ) : self.postponed.Nodup := by
  have hkeys : (self.active_testing_paused.toList.map Prod.fst).Nodup := by
    rw [Std.TreeMap.map_fst_toList_eq_keys]
    exact Std.TreeMap.nodup_keys
  exact (List.Sublist.map Prod.fst List.filter_sublist).nodup hkeys

-- Every turn of the loop takes a postponed thread.
theorem length_postponed_lt (self : RandomActiveTester ρ) (u : ThrID)
    (hu : self.isPaused u = true) :
    (self.setPaused u false).postponed.length < self.postponed.length := by
  have hmem : u ∈ self.postponed := (self.mem_postponed u).mpr hu
  have hsub : (self.setPaused u false).postponed ⊆ self.postponed.erase u := by
    intro w hw
    rw [mem_postponed, isPaused_setPaused] at hw
    by_cases huw : u = w
    · rw [if_pos huw] at hw
      cases hw
    · rw [if_neg huw] at hw
      exact (List.mem_erase_of_ne (Ne.symm huw)).mpr ((self.mem_postponed w).mpr hw)
  have hle := ((nodup_postponed _).subperm hsub).length_le
  have herase := List.length_erase_of_mem hmem
  have hpos := List.length_pos_of_mem hmem
  omega

-- A choice among the threads of a map takes a random number and finds one, if there is one.
theorem chooseRandomThread_spec (randInt : ρ → Nat × ρ) (self : RandomActiveTester ρ)
    (threads : ThrMap Bool) :
    ∃ choice myrand, self.chooseRandomThread randInt threads = .ok (choice, { self with myrand }) ∧
      (∀ u, choice = some u → threads.getD u false = true) ∧
      (choice = none → ∀ u, threads.getD u false = false) := by
  by_cases hsome : ∃ u, threads.getD u false = true
  · obtain ⟨u, hu⟩ := hsome
    obtain ⟨chosen, myrand, hchoice, hchosen⟩ :=
      AddrTracker.chooseRandomThread_spec randInt self.myrand threads u hu
    have hne : Int.ofNat chosen ≠ INVALID_THREAD :=
      RelaxedTracker.ofNat_ne chosen INVALID_THREAD (by decide)
    refine ⟨some chosen, myrand, ?_, fun w hw => ?_, nofun⟩
    · rw [chooseRandomThread, hchoice]
      simp only [if_neg hne]
      rfl
    · cases hw
      exact hchosen
  · have hnone (u : ThrID) : threads.getD u false = false := by
      by_contra hne
      exact hsome ⟨u, by simpa using hne⟩
    refine ⟨none, self.myrand, ?_, nofun, fun _ => hnone⟩
    have hempty : (threads.toList.filter fun entry => entry.2) = [] := by
      apply List.filter_eq_nil_iff.mpr
      rintro ⟨key, value⟩ hentry hvalue
      obtain rfl : value = true := hvalue
      have hget := mem_toList_getD threads key true false hentry
      rw [hnone key] at hget
      cases hget
    rw [chooseRandomThread, AddrTracker.chooseRandomThread, hempty]
    rfl

end RandomActiveTester

section Reenable

variable {ρ : Type} {isLockRace : Bool} {st : ThrID → Stage} {H : ThrID → Prop}
  {s x : ExecutionTracker} {self : RandomActiveTester ρ} {u : ThrID}

theorem paused_setPaused (self : RandomActiveTester ρ) (u w : ThrID) :
    (self.setPaused u false).isPaused w = true ↔ self.isPaused w = true ∧ w ≠ u := by
  rw [self.isPaused_setPaused]
  by_cases huw : u = w
  · rw [if_pos huw]
    exact ⟨nofun, fun ⟨_, hne⟩ => absurd huw.symm hne⟩
  · rw [if_neg huw]
    exact ⟨fun hpaused => ⟨hpaused, Ne.symm huw⟩, And.left⟩

-- What a tester does that lets a postponed thread go: the thread becomes what it would be without
-- the tester, and what is returned is whether it is enabled then.
def Reenables (isLockRace : Bool) (st : ThrID → Stage) (H : ThrID → Prop) (s : ExecutionTracker)
    (reenableThreadIfLegal : Reenable ρ) : Prop :=
  ∀ x self u, Covers isLockRace st H s (x, self) → self.isPaused u = true →
    ∃ x', reenableThreadIfLegal self x u = .ok (s.isEnabled u, x', self.setPaused u false) ∧
      Covers isLockRace st H s (x', self.setPaused u false)

theorem Covers.reenable (h : Covers isLockRace st H s (x, self)) {x' : ExecutionTracker}
    (hsame : s.shade x' = x') (hself : x'.entries u = s.entries u)
    (hothers : ∀ w, w ≠ u → x'.entries w = x.entries w) :
    Covers isLockRace st H s (x', self.setPaused u false) where
  shadow := h.shadow.reenable (paused_setPaused self u) hsame hself hothers
  known w hw := h.known w ((paused_setPaused self u w).mp hw).1

theorem ExecutionTracker.shade_determineLockStatus (hsame : s.shade x = x) (addr : Addr) :
    s.shade (x.determineLockStatus u addr) = x.determineLockStatus u addr := by
  unfold ExecutionTracker.determineLockStatus
  split
  · exact congrArg (fun y => { y.disableThread u with
      lock_wait_map := y.lock_wait_map.insert u addr }) hsame
  · exact congrArg (fun y => { y.enableThread u with
      lock_ready_map := y.lock_ready_map.insert u addr }) hsame

theorem RandomLockTester.reenables (hs : Settled st s) :
    Reenables (ρ := ρ) true st H s RandomLockTester.reenableThreadIfLegal := by
  intro x self u h hu
  have hsame : s.shade x = x := h.shadow.same
  have hmutexes : x.mutexes = s.mutexes := by
    rw [← hsame]
    rfl
  obtain ⟨lockReady, lockWait, hentries, hready, hwait⟩ := h.shadow.entries_of_paused hu
  have hat := hs.at_mutex (h.known u hu).2
  have hself : (x.determineLockStatus u (self.infoOf u).addr).entries u = s.entries u := by
    rw [entries_determineLockStatus, if_pos rfl, hmutexes]
    rcases hat with ⟨hfree, hs'⟩ | ⟨⟨o, hheld⟩, hs'⟩
    · -- the thread may take the mutex, and is in no other map
      rw [hs'] at hwait
      obtain rfl : lockWait = none := hwait.elim id id
      rw [hfree, hentries, hs']
    · -- it waits
      rw [hs'] at hready
      obtain rfl : lockReady = none := hready.elim id id
      rw [hheld, hentries, hs']
  have hvalid : RandomLockTester.lockIsInvalid x (self.infoOf u).addr = false := by
    rw [RandomLockTester.lockIsInvalid, hmutexes]
    rcases hat with ⟨hfree, _⟩ | ⟨⟨o, hheld⟩, _⟩
    · rw [hfree]
      rfl
    · rw [hheld]
      rfl
  refine ⟨x.determineLockStatus u (self.infoOf u).addr, ?_,
    h.reenable (shade_determineLockStatus hsame _) hself fun w hw => ?_⟩
  · have henabled : (x.determineLockStatus u (self.infoOf u).addr).isEnabled u = s.isEnabled u :=
      congrArg Entries.enabled hself
    rw [← henabled]
    simp only [RandomLockTester.reenableThreadIfLegal, hu, hvalid]
    rfl
  · rw [entries_determineLockStatus, if_neg (Ne.symm hw)]

theorem RandomDataTester.reenables (hs : Settled st s) :
    Reenables (ρ := ρ) false st H s RandomDataTester.reenableThreadIfLegal := by
  intro x self u h hu
  obtain ⟨lockReady, lockWait, hentries, hready, hwait⟩ := h.shadow.entries_of_paused hu
  have hs' := hs.at_access (h.known u hu).2
  rw [hs'] at hready hwait
  obtain rfl : lockReady = none := hready.elim id id
  obtain rfl : lockWait = none := hwait.elim id id
  have henabled : s.isEnabled u = true := congrArg Entries.enabled hs'
  refine ⟨x.enableThread u, ?_, h.reenable ?_ ?_ fun w hw => ?_⟩
  · simp only [RandomDataTester.reenableThreadIfLegal, hu, henabled]
    rfl
  · exact congrArg (fun y => y.enableThread u) h.shadow.same
  · rw [entries_enableThread, if_pos rfl, hentries, hs']
  · rw [entries_enableThread, if_neg (Ne.symm hw)]

theorem reenables (hs : Settled st s) : Reenables (ρ := ρ) isLockRace st H s
    (RandactHandler.getNewExecutionTracker isLockRace).reenableThreadIfLegal := by
  cases isLockRace with
  | false => exact RandomDataTester.reenables hs
  | true => exact RandomLockTester.reenables hs

end Reenable

namespace RandomActiveTester

variable {ρ : Type} {isLockRace : Bool} {st : ThrID → Stage} {H : ThrID → Prop}
  {s x : ExecutionTracker} {self self' : RandomActiveTester ρ} {reenableThreadIfLegal : Reenable ρ}
  {randInt : ρ → Nat × ρ}

-- Who is enabled is not postponed, and would be enabled without the tester.
theorem isEnabled_iff (h : Covers isLockRace st H s (x, self)) (u : ThrID) :
    x.isEnabled u = true ↔ s.isEnabled u = true ∧ self.isPaused u = false := by
  by_cases hpaused : self.isPaused u = true
  · have hdown : x.isEnabled u = false := h.shadow.down trivial u hpaused
    rw [hdown, hpaused]
    exact ⟨nofun, fun ⟨_, hnot⟩ => absurd hnot nofun⟩
  · have hfree : x.isEnabled u = s.isEnabled u :=
      congrArg Entries.enabled (h.shadow.free u hpaused)
    rw [hfree]
    exact ⟨fun henabled => ⟨henabled, by simpa using hpaused⟩, And.left⟩

-- Between two calls of the tester no thread is postponed, no assertion fails and no race is found.
structure Later (te te' : RandomActiveTester ρ) : Prop where
  paused : ∀ u, te'.isPaused u = true → te.isPaused u = true
  failed : te'.failed = te.failed
  found : te'.raceFound = te.raceFound

theorem Later.refl (self : RandomActiveTester ρ) : Later self self := ⟨fun _ hu => hu, rfl, rfl⟩

theorem Later.trans {self'' : RandomActiveTester ρ} (h : Later self self')
    (h' : Later self' self'') : Later self self'' :=
  ⟨fun u hu => h.paused u (h'.paused u hu), h'.failed.trans h.failed, h'.found.trans h.found⟩

theorem later_setPaused (self : RandomActiveTester ρ) (u : ThrID) :
    Later self (self.setPaused u false) :=
  ⟨fun w hw => ((paused_setPaused self u w).mp hw).1, rfl, rfl⟩

-- Random numbers make no difference to what is postponed.
theorem covers_myrand (h : Covers isLockRace st H s (x, self)) (myrand : ρ) :
    Covers isLockRace st H s (x, { self with myrand }) ∧ Later self { self with myrand } :=
  ⟨⟨h.shadow, h.known⟩, fun _ hu => hu, rfl, rfl⟩

theorem enableSpecificActiveTestingPaused_spec
    (hre : Reenables isLockRace st H s reenableThreadIfLegal)
    (h : Covers isLockRace st H s (x, self)) (targets : List ThrID) (hnodup : targets.Nodup)
    (htargets : ∀ u ∈ targets, self.isPaused u = true) :
    ∃ x' self', self.enableSpecificActiveTestingPaused reenableThreadIfLegal x targets =
      .ok (x', self') ∧ Covers isLockRace st H s (x', self') ∧ Later self self' := by
  induction targets generalizing x self with
  | nil => exact ⟨x, self, rfl, h, .refl self⟩
  | cons target targets ih =>
      have htarget := htargets target List.mem_cons_self
      obtain ⟨x1, hone, hcovers⟩ := hre x self target h htarget
      obtain ⟨hnotin, hnodup⟩ := List.nodup_cons.mp hnodup
      obtain ⟨x', self', hrest, hcovers', hlater⟩ := ih hcovers hnodup fun u hu => by
        refine (paused_setPaused self target u).mpr ⟨htargets u (List.mem_cons_of_mem _ hu), ?_⟩
        rintro rfl
        exact hnotin hu
      refine ⟨x', self', ?_, hcovers', (later_setPaused self target).trans hlater⟩
      rw [enableSpecificActiveTestingPaused, htarget, hone]
      exact hrest

variable (randInt) in
theorem livelockPrevention_spec (hre : Reenables isLockRace st H s reenableThreadIfLegal)
    (h : Covers isLockRace st H s (x, self)) :
    ∃ x' self', self.livelockPrevention reenableThreadIfLegal randInt x = .ok (x', self') ∧
      Covers isLockRace st H s (x', self') ∧ Later self self' := by
  obtain ⟨hcovers, hlater⟩ := covers_myrand h (randInt self.myrand).2
  unfold livelockPrevention getRandomNumber
  dsimp only
  split
  · obtain ⟨choice, myrand, hchoice, hsome, _⟩ := chooseRandomThread_spec randInt
      { self with myrand := (randInt self.myrand).2 } self.active_testing_paused
    obtain ⟨hcovers, hlater'⟩ := covers_myrand hcovers myrand
    rw [hchoice]
    cases choice with
    | none => exact ⟨x, _, rfl, hcovers, hlater.trans hlater'⟩
    | some u =>
        obtain ⟨x', hone, hcovers'⟩ := hre x _ u hcovers (hsome u rfl)
        refine ⟨x', _, ?_, hcovers', (hlater.trans hlater').trans (later_setPaused _ u)⟩
        change (reenableThreadIfLegal { self with myrand } x u >>= fun result =>
          Except.ok (result.2.1, result.2.2)) = _
        rw [hone]
        rfl
  · exact ⟨x, _, rfl, hcovers, hlater⟩

theorem preferPreemption_spec (randInt : ρ → Nat × ρ) (self : RandomActiveTester ρ)
    (x : ExecutionTracker) (thread : ThrID) :
    ∃ choice myrand, self.preferPreemption randInt x thread = .ok (choice, { self with myrand }) ∧
      (∀ u, choice = some u → x.isEnabled u = true) ∧
      (choice = none → ∀ u, x.isEnabled u = false) := by
  unfold preferPreemption
  by_cases hcaller : x.isEnabled thread = true
  · rw [if_pos hcaller]
    obtain ⟨choice, myrand, hchoice, hsome, _⟩ :=
      chooseRandomThread_spec randInt self (x.disableThread thread).enable_map
    rw [hchoice]
    cases choice with
    | none =>
        refine ⟨some thread, myrand, rfl, fun u hu => ?_, nofun⟩
        cases hu
        exact hcaller
    | some other =>
        have hother : x.isEnabled other = true := by
          have henabled := hsome other rfl
          rw [disableThread, getD_insert_eq] at henabled
          split at henabled
          · cases henabled
          · exact henabled
        refine ⟨_, _, rfl, fun u hu => ?_, fun hnone => ?_⟩
        · split at hu
          · cases hu
            exact hcaller
          · cases hu
            exact hother
        · split at hnone
          · cases hnone
          · cases hnone
  · rw [if_neg hcaller]
    exact chooseRandomThread_spec randInt self x.enable_map

variable (randInt) in
-- With more turns than there are postponed threads the loop comes to an end. It finds nobody only
-- where nobody could go on without the tester either.
theorem enablePostponed_spec (hre : Reenables isLockRace st H s reenableThreadIfLegal)
    (turns : Nat) (h : Covers isLockRace st H s (x, self))
    (hturns : self.postponed.length < turns)
    (hnobody : ∀ u, self.isPaused u = false → s.isEnabled u = false) :
    ∃ choice x' self', enablePostponed reenableThreadIfLegal randInt turns self x =
        .ok (choice, x', self') ∧ Covers isLockRace st H s (x', self') ∧ Later self self' ∧
      (∀ u, choice = some u → x'.isEnabled u = true) ∧
      (choice = none → ∀ u, self'.isPaused u = false ∧ s.isEnabled u = false) := by
  induction turns generalizing x self with
  | zero => omega
  | succ turns ih =>
      obtain ⟨choice, myrand, hchoice, hsome, hnone⟩ :=
        chooseRandomThread_spec randInt self self.active_testing_paused
      obtain ⟨hcovers, hlater⟩ := covers_myrand h myrand
      rw [enablePostponed, hchoice]
      cases choice with
      | none => exact ⟨none, x, _, rfl, hcovers, hlater, by rintro _ ⟨⟩, fun _ u =>
          ⟨hnone rfl u, hnobody u (hnone rfl u)⟩⟩
      | some u =>
          have hpaused : self.isPaused u = true := hsome u rfl
          obtain ⟨x1, hone, hcovers1⟩ := hre x _ u hcovers hpaused
          have hlater1 := hlater.trans (later_setPaused { self with myrand } u)
          have hunpaused : ({ self with myrand }.setPaused u false).isPaused u = false := by
            rw [isPaused_setPaused, if_pos rfl]
          change ∃ choice x' self',
            (reenableThreadIfLegal { self with myrand } x u >>= fun result =>
              if result.1 then Except.ok (some u, result.2.1, result.2.2)
              else enablePostponed reenableThreadIfLegal randInt turns result.2.2 result.2.1) =
                .ok (choice, x', self') ∧ _
          rw [hone]
          cases henabled : s.isEnabled u with
          | true =>
              refine ⟨some u, x1, _, rfl, hcovers1, hlater1, fun w hw => ?_, by rintro ⟨⟩⟩
              cases hw
              exact (isEnabled_iff hcovers1 u).mpr ⟨henabled, hunpaused⟩
          | false =>
              have hless : ({ self with myrand }.setPaused u false).postponed.length < turns := by
                have hlt := length_postponed_lt { self with myrand } u hpaused
                have hsame : ({ self with myrand } : RandomActiveTester ρ).postponed.length =
                  self.postponed.length := rfl
                omega
              obtain ⟨choice, x', self', hrest, hcovers', hlater', hresult⟩ :=
                ih hcovers1 hless fun w hw => by
                  rw [isPaused_setPaused] at hw
                  by_cases huw : u = w
                  · rw [← huw]
                    exact henabled
                  · rw [if_neg huw] at hw
                    exact hnobody w hw
              exact ⟨choice, x', self', hrest, hcovers', hlater1.trans hlater', hresult⟩

theorem checkChoice_spec (h : Covers isLockRace st H s (x, self)) (u : ThrID)
    (henabled : x.isEnabled u = true) :
    self.checkChoice x u = .ok (some u, x, self) ∧ self.isPaused u = false := by
  have hunpaused := ((isEnabled_iff h u).mp henabled).2
  refine ⟨?_, hunpaused⟩
  rw [checkChoice, henabled, hunpaused]
  rfl

-- What a call of the picker comes to.
structure Picks (isLockRace : Bool) (st : ThrID → Stage) (H : ThrID → Prop) (s : ExecutionTracker)
    (te : RandomActiveTester ρ) (choice : Option ThrID) (x' : ExecutionTracker)
    (te' : RandomActiveTester ρ) : Prop where
  covers : Covers isLockRace st H s (x', te')
  later : Later te te'
  chosen : ∀ u, choice = some u → x'.isEnabled u = true ∧ te'.isPaused u = false
  nobody : choice = none → ∀ u, te'.isPaused u = false ∧ s.isEnabled u = false

variable (randInt) in
-- The choice once the tester has decided not to stay with the caller.
theorem choose_spec (hre : Reenables isLockRace st H s reenableThreadIfLegal) (turns : Nat)
    (h : Covers isLockRace st H s (x, self)) (thread : ThrID)
    (hturns : self.postponed.length < turns) :
    ∃ choice x' self', (do
        let (mychoice, self) ← self.preferPreemption randInt x thread
        match mychoice with
        | some mychoice => self.checkChoice x mychoice
        | none =>
            let (mychoice, tracker, self) ←
              enablePostponed reenableThreadIfLegal randInt turns self x
            match mychoice with
            | none => return (none, tracker, self)
            | some mychoice => self.checkChoice tracker mychoice) = .ok (choice, x', self') ∧
      Picks isLockRace st H s self choice x' self' := by
  obtain ⟨choice, myrand, hchoice, hsome, hnone⟩ := preferPreemption_spec randInt self x thread
  obtain ⟨hcovers, hlater⟩ := covers_myrand h myrand
  rw [hchoice]
  cases choice with
  | some u =>
      obtain ⟨hcheck, hunpaused⟩ := checkChoice_spec hcovers u (hsome u rfl)
      refine ⟨some u, x, _, hcheck, hcovers, hlater, fun w hw => ?_, nofun⟩
      cases hw
      exact ⟨hsome u rfl, hunpaused⟩
  | none =>
      have hnobody (u : ThrID) (hu : self.isPaused u = false) : s.isEnabled u = false := by
        by_contra hne
        have henabled := (isEnabled_iff h u).mpr ⟨by simpa using hne, hu⟩
        rw [hnone rfl u] at henabled
        cases henabled
      obtain ⟨choice, x', self', hloop, hcovers', hlater', hchosen, hend⟩ :=
        enablePostponed_spec randInt hre turns hcovers hturns hnobody
      show ∃ choice x' self', (do
          let (mychoice, tracker, self) ←
            enablePostponed reenableThreadIfLegal randInt turns { self with myrand } x
          match mychoice with
          | none => return (none, tracker, self)
          | some mychoice => self.checkChoice tracker mychoice) = .ok (choice, x', self') ∧ _
      rw [hloop]
      cases choice with
      | none => exact ⟨none, x', self', rfl, hcovers', hlater.trans hlater', nofun, hend⟩
      | some u =>
          obtain ⟨hcheck, hunpaused⟩ := checkChoice_spec hcovers' u (hchosen u rfl)
          refine ⟨some u, x', self', hcheck, hcovers', hlater.trans hlater', fun w hw => ?_, nofun⟩
          cases hw
          exact ⟨hchosen u rfl, hunpaused⟩

theorem length_postponed_le (h : Later self self') :
    self'.postponed.length ≤ self.postponed.length := by
  refine ((nodup_postponed self').subperm fun u hu => ?_).length_le
  exact (mem_postponed self u).mpr (h.paused u ((mem_postponed self' u).mp hu))

variable (randInt) in
-- The picker comes to an end, and its assertions hold.
theorem pickNextSchedulingChoice_spec (hre : Reenables isLockRace st H s reenableThreadIfLegal)
    (turns : Nat) (h : Covers isLockRace st H s (x, self)) (info : SchedPointInfo)
    (hturns : self.postponed.length < turns) :
    ∃ choice x' self', self.pickNextSchedulingChoice reenableThreadIfLegal randInt turns x info =
        .ok (choice, x', self') ∧ Picks isLockRace st H s self choice x' self' := by
  obtain ⟨x1, self1, hlivelock, hcovers1, hlater1⟩ :=
    livelockPrevention_spec randInt hre h
  have hturns1 := length_postponed_le hlater1
  -- a random number is drawn if the caller is enabled
  obtain ⟨preempt, self2, hdraw, hcovers2, hlater2, hcaller⟩ : ∃ preempt self2,
      (if x1.isEnabled info.thread then
        ((self1.getRandomNumber randInt).1.tmod chanceOfPreempt, (self1.getRandomNumber randInt).2)
        else (0, self1)) = (preempt, self2) ∧ Covers isLockRace st H s (x1, self2) ∧
      Later self1 self2 ∧ (preempt = 1 → x1.isEnabled info.thread = true) := by
    by_cases henabled : x1.isEnabled info.thread = true
    · obtain ⟨hcovers2, hlater2⟩ := covers_myrand hcovers1 (randInt self1.myrand).2
      exact ⟨_, _, if_pos henabled, hcovers2, hlater2, fun _ => henabled⟩
    · refine ⟨0, self1, if_neg henabled, hcovers1, .refl self1, fun hzero => ?_⟩
      omega
  have hturns2 := length_postponed_le hlater2
  have hlater := hlater1.trans hlater2
  have hbind {α β : Type} (a : α) (f : α → Active β) : (.ok a >>= f) = f a := rfl
  rw [pickNextSchedulingChoice, hlivelock, hbind]
  dsimp only
  rw [hdraw]
  dsimp only
  by_cases hpreempt : preempt = 1
  · have henabled := hcaller hpreempt
    refine ⟨some info.thread, x1, self2, ?_, hcovers2, hlater, fun w hw => ?_, nofun⟩
    · simp only [if_pos hpreempt, henabled]
      rfl
    · cases hw
      exact ⟨henabled, ((isEnabled_iff hcovers2 _).mp henabled).2⟩
  · obtain ⟨choice, x', self', hchoice, hpicks⟩ := choose_spec randInt hre turns
      hcovers2 info.thread (by omega)
    refine ⟨choice, x', self', ?_, hpicks.covers, hlater.trans hpicks.later, hpicks.chosen,
      hpicks.nobody⟩
    simp only [if_neg hpreempt]
    exact hchoice

-- More turns change nothing where the loop was over.
theorem enablePostponed_mono {turns more : Nat} (hle : turns ≤ more)
    {result : Active (Option ThrID × Tested ρ)} (hover : result ≠ .error .turns)
    (h : enablePostponed reenableThreadIfLegal randInt turns self x = result) :
    enablePostponed reenableThreadIfLegal randInt more self x = result := by
  induction turns generalizing more x self with
  | zero => exact absurd h.symm hover
  | succ turns ih =>
      obtain ⟨more, rfl⟩ : ∃ n, more = n + 1 := ⟨more - 1, by omega⟩
      rw [enablePostponed] at h ⊢
      cases hchoice : self.chooseRandomThread randInt self.active_testing_paused with
      | error failure =>
          rw [hchoice] at h
          exact h
      | ok found =>
          obtain ⟨choice, self1⟩ := found
          rw [hchoice] at h
          cases choice with
          | none => exact h
          | some u =>
              cases hone : reenableThreadIfLegal self1 x u with
              | error failure =>
                  simp only [bind, Except.bind, hone] at h ⊢
                  exact h
              | ok answer =>
                  obtain ⟨success, x1, self2⟩ := answer
                  simp only [bind, Except.bind, hone] at h ⊢
                  cases success with
                  | true => exact h
                  | false => exact ih (by omega) h

theorem pickNextSchedulingChoice_mono {turns more : Nat} (hle : turns ≤ more)
    {info : SchedPointInfo} {result : Active (Option ThrID × Tested ρ)}
    (hover : result ≠ .error .turns)
    (h : self.pickNextSchedulingChoice reenableThreadIfLegal randInt turns x info = result) :
    self.pickNextSchedulingChoice reenableThreadIfLegal randInt more x info = result := by
  rw [pickNextSchedulingChoice] at h ⊢
  cases hlivelock : self.livelockPrevention reenableThreadIfLegal randInt x with
  | error failure =>
      rw [hlivelock] at h
      exact h
  | ok result1 =>
      obtain ⟨x1, self1⟩ := result1
      rw [hlivelock] at h
      simp only [bind, Except.bind] at h ⊢
      generalize (if x1.isEnabled info.thread = true then
        ((self1.getRandomNumber randInt).1.tmod chanceOfPreempt, (self1.getRandomNumber randInt).2)
        else (0, self1)) = drawn at h ⊢
      by_cases hpreempt : drawn.1 = 1
      · rw [if_pos hpreempt] at h ⊢
        exact h
      · rw [if_neg hpreempt] at h ⊢
        cases hprefer : drawn.2.preferPreemption randInt x1 info.thread with
        | error failure =>
            rw [hprefer] at h
            exact h
        | ok result2 =>
            obtain ⟨choice, self2⟩ := result2
            rw [hprefer] at h
            cases choice with
            | some u => exact h
            | none =>
                cases hloop : enablePostponed reenableThreadIfLegal randInt turns self2 x1 with
                | error failure =>
                    simp only [hloop] at h
                    have hover' : Except.error failure ≠
                        (.error .turns : Active (Option ThrID × Tested ρ)) := by
                      rw [h]
                      exact hover
                    simp only [enablePostponed_mono hle hover' hloop]
                    exact h
                | ok result3 =>
                    have hover' : Except.ok result3 ≠
                        (.error .turns : Active (Option ThrID × Tested ρ)) := nofun
                    simp only [hloop] at h
                    simp only [enablePostponed_mono hle hover' hloop]
                    exact h

-- Whatever the picker returns, with enough turns or not.
theorem picks_of_ok (hre : Reenables isLockRace st H s reenableThreadIfLegal) {turns : Nat}
    (h : Covers isLockRace st H s (x, self)) {info : SchedPointInfo} {choice : Option ThrID}
    {x' : ExecutionTracker}
    (hok : self.pickNextSchedulingChoice reenableThreadIfLegal randInt turns x info =
      .ok (choice, x', self')) : Picks isLockRace st H s self choice x' self' := by
  obtain ⟨choice2, x2, self2, hmore, hpicks⟩ := pickNextSchedulingChoice_spec
    randInt hre (max turns (self.postponed.length + 1)) h info (by omega)
  have hover : Except.ok (choice, x', self') ≠
      (.error .turns : Active (Option ThrID × Tested ρ)) := nofun
  rw [pickNextSchedulingChoice_mono (le_max_left _ _) hover hok] at hmore
  cases hmore
  exact hpicks

-- All that the picker can fail for is that it has not been given enough turns.
theorem pickNextSchedulingChoice_error
    (hre : Reenables isLockRace st H s reenableThreadIfLegal) {turns : Nat}
    (h : Covers isLockRace st H s (x, self)) {info : SchedPointInfo} {failure : ActiveFailure}
    (herror : self.pickNextSchedulingChoice reenableThreadIfLegal randInt turns x info =
      .error failure) : failure = .turns := by
  by_contra hne
  obtain ⟨choice, x', self', hmore, _⟩ := pickNextSchedulingChoice_spec
    randInt hre (max turns (self.postponed.length + 1)) h info (by omega)
  have hover : Except.error failure ≠ (.error .turns : Active (Option ThrID × Tested ρ)) :=
    fun heq => hne (Except.error.inj heq)
  rw [pickNextSchedulingChoice_mono (le_max_left _ _) hover herror] at hmore
  cases hmore

end RandomActiveTester

end Thrille
