import Thrille.FairScheduler.Theorems
import Thrille.Relaxed.Runs
import Thrille.Serializer.Exclusion

namespace Thrille

-- Every thread that can be woken has the semaphores of `initializeThreadData`.
structure ExecutionTracker.Registered (tracker : ExecutionTracker) : Prop where
  enabled : ∀ t, tracker.isEnabled t = true →
    (tracker.sem_map t).isSome = true ∧ (tracker.wait_sem_map t).isSome = true
  waiting : ∀ t ∈ tracker.cond_map, (tracker.wait_sem_map t).isSome = true

theorem ExecutionTracker.Registered.launch {tracker : ExecutionTracker} (h : tracker.Registered)
    (myself target : ThrID) (henabled : tracker.isEnabled target = true) :
    ∃ launched, (tracker.recordScheduleInfo myself target).launch target = .ok launched := by
  obtain ⟨hsem, hwait⟩ := h.enabled target henabled
  obtain ⟨posts, hposts⟩ := Option.isSome_iff_exists.mp hsem
  obtain ⟨waitPosts, hwaitPosts⟩ := Option.isSome_iff_exists.mp hwait
  obtain ⟨recorded, hrecorded⟩ : ∃ recorded, tracker.recordScheduleInfo myself target = recorded :=
    ⟨_, rfl⟩
  have hmaps : recorded.sem_map target = some posts ∧
      recorded.wait_sem_map target = some waitPosts := by
    rw [← hrecorded, recordScheduleInfo]
    split
    · exact ⟨hposts, hwaitPosts⟩
    · split
      · exact ⟨hposts, hwaitPosts⟩
      · exact ⟨hposts, hwaitPosts⟩
  rw [hrecorded, ExecutionTracker.launch]
  split
  · exact ⟨_, by rw [waitWakeThread, setSignalled_wait_sem_map, hmaps.2]⟩
  · exact ⟨_, by rw [wakeThread, hmaps.1]⟩

-- It holds throughout the runs of the serializer.
theorem System.Reachable.registered {σ : Type} {v : Virtual σ}
    {asks : System σ → ThrID → Addr → Op → Prop} {s : System σ} (h : Reachable v asks s)
    (hrunning : s.stopped = none) : s.tracker.Registered := by
  rcases h.serial with ⟨c, hserial⟩ | hhalted
  · -- A thread that is not there yet has no entry in any map.
    have hborn (t : ThrID) (hentry : s.tracker.isEnabled t = true ∨ t ∈ s.tracker.cond_map) :
        s.pcs t ≠ .unborn := by
      intro hunborn
      have hfits := hserial.consistent.fits t
      rw [hunborn] at hfits
      have hentries : s.tracker.entries t = { enabled := false } := hfits
      rcases hentry with henabled | hmem
      · have hoff : s.tracker.enable_map.getD t false = false := congrArg Entries.enabled hentries
        rw [ExecutionTracker.isEnabled, hoff] at henabled
        cases henabled
      · have hnone : s.tracker.cond_map[t]? = none := congrArg Entries.cond hentries
        rw [← Std.TreeMap.isSome_getElem?_iff_mem, hnone] at hmem
        cases hmem
    refine ⟨fun t henabled => ?_, fun t hmem => ?_⟩
    · rw [hserial.controlled.sem t (hborn t (Or.inl henabled)),
        hserial.controlled.waitSem t (hborn t (Or.inl henabled))]
      exact ⟨rfl, rfl⟩
    · rw [hserial.controlled.waitSem t (hborn t (Or.inr hmem))]
      rfl
  · exact absurd hrunning hhalted.stopped

namespace RelaxedTracker

variable {σ : Type}

-- `schedule` with the tracker that it belongs to: the choice is recorded and launched.
def scheduleThread (v : RelaxedVirtual σ) (turns : Nat) (self : RelaxedTracker σ)
    (tracker : ExecutionTracker) (s : SchedPointInfo) :
    Option (ThrID × ExecutionTracker × RelaxedTracker σ) := do
  let (current, self) ← schedule v turns self s
  let tracker := tracker.recordScheduleInfo s.thread current.toNat
  let tracker ← (tracker.launch current.toNat).toOption
  return (current.toNat, tracker, self)

end RelaxedTracker

namespace AddrTracker

variable {ρ : Type} (randInt : ρ → Nat × ρ)

-- `s->cond_map[target] == s->cond`; a missing entry reads as NULL, which `cond` is not.
def isWaitingOn (s : SignalPointInfo) (target : Int) : Bool :=
  decide (0 ≤ target) && s.cond_map[target.toNat]? == some s.cond

def selectThreadWaitingOnCond (myrand : ρ) (s : SignalPointInfo) : Option (Int × ρ) := do
  let threadIsOnCond := s.cond_map.keys.foldl
    (fun m thread => m.insert thread (isWaitingOn s thread)) (∅ : ThrMap Bool)
  let (thread, myrand) ← chooseRandomThread randInt myrand threadIsOnCond
  guard (thread = INVALID_THREAD ∨ isWaitingOn s thread)
  return (thread, myrand)

-- The loop of `scheduleThreadWaitingOnCond`, which is left with `INVALID_THREAD` where nobody
-- waits; `none` also where it is not over after so many turns.
def choiceLoop (s : SignalPointInfo) :
    Nat → Int → RelaxedTracker (AddrTracker ρ) → Option (Int × RelaxedTracker (AddrTracker ρ))
  | 0, _, _ => none
  | turns + 1, tosched, self =>
      if isWaitingOn s tosched then some (tosched, self)
      else if self.getNextSignalChoice.1 ≠ INVALID_THREAD then
        choiceLoop s turns self.getNextSignalChoice.1 self.getNextSignalChoice.2
      else do
        let (tosched, myrand) ← selectThreadWaitingOnCond randInt self.ext.myrand s
        let self := { self.getNextSignalChoice.2 with ext := { self.ext with myrand } }
        if tosched = INVALID_THREAD then return (tosched, self)
        choiceLoop s turns tosched self

def scheduleThreadWaitingOnCond (turns : Nat) (target : Int) (self : RelaxedTracker (AddrTracker ρ))
    (tracker : ExecutionTracker) (s : SignalPointInfo) :
    Option (Option ThrID × ExecutionTracker × RelaxedTracker (AddrTracker ρ)) := do
  let (tosched, self) ← choiceLoop randInt s turns target self
  if tosched = INVALID_THREAD then return (none, tracker, self)
  let tracker := tracker.setWaitReady tosched.toNat false
  let tracker ← (tracker.waitWakeThread tosched.toNat).toOption
  return (some tosched.toNat, tracker, self)

-- What `wakeThreadWaitingOnCond` does for a signal that is no broadcast.
def wakeThreadWaitingOnCond (turns : Nat) (self : RelaxedTracker (AddrTracker ρ))
    (tracker : ExecutionTracker) (s : SignalPointInfo) :
    Option (Option ThrID × ExecutionTracker × RelaxedTracker (AddrTracker ρ)) :=
  if ExecutionTracker.isSignalMissed s then some (none, tracker, self)
  else
    let (nextchoice, self) := self.getNextSignalChoice
    if nextchoice = INVALID_THREAD then do
      let (newchoice, myrand) ← selectThreadWaitingOnCond randInt self.ext.myrand s
      guard (newchoice ≠ INVALID_THREAD)
      scheduleThreadWaitingOnCond randInt turns newchoice
        { self with ext := { self.ext with myrand } } tracker s
    else scheduleThreadWaitingOnCond randInt turns nextchoice self tracker s

-- Where the tracker can come to: from any blocks, any number of schedule points and of signals,
-- also of those that a broadcast sends, which need no more than a random choice.
inductive Reached : RelaxedTracker (AddrTracker ρ) → Prop
  | init (relaxed_schedule : List RelaxedSchedStruct) (myrand : ρ) :
      Reached (init relaxed_schedule { fairscheduler := {}, myrand })
  | schedule (self self' : RelaxedTracker (AddrTracker ρ)) (turns : Nat) (s : SchedPointInfo)
      (current : Int) (hreached : Reached self) (hcaller : s.thread ∈ s.enabled)
      (hstep : RelaxedTracker.schedule (virtual randInt) turns self s = some (current, self')) :
      Reached self'
  | signal (self self' : RelaxedTracker (AddrTracker ρ)) (turns : Nat) (s : SignalPointInfo)
      (tracker tracker' : ExecutionTracker) (woken : Option ThrID) (hreached : Reached self)
      (hstep : wakeThreadWaitingOnCond randInt turns self tracker s =
        some (woken, tracker', self')) : Reached self'
  | broadcast (self : RelaxedTracker (AddrTracker ρ)) (myrand : ρ) (hreached : Reached self) :
      Reached { self with ext := { self.ext with myrand } }

-- A choice is made among the threads of the map, if there are any.
theorem chooseRandomThread_spec (myrand : ρ) (threads : ThrMap Bool) (thread : ThrID)
    (h : threads.getD thread false = true) :
    ∃ chosen myrand', chooseRandomThread randInt myrand threads = some (Int.ofNat chosen, myrand') ∧
      threads.getD chosen false = true := by
  obtain ⟨choices, hchoices⟩ : ∃ choices,
      (threads.toList.filter fun entry => entry.2).map Prod.fst = choices := ⟨_, rfl⟩
  have hmem (k : ThrID) : k ∈ choices ↔ threads.getD k false = true := by
    rw [← hchoices, List.mem_map]
    constructor
    · rintro ⟨⟨k', b⟩, hentry, rfl⟩
      obtain ⟨hentry, hb⟩ := List.mem_filter.mp hentry
      obtain rfl : b = true := hb
      exact OrderedMap.mem_toList_getD threads k' true false hentry
    · intro hk
      have hkey : k ∈ threads := OrderedMap.mem_of_getD_ne threads k false (by simp [hk])
      have hentry := OrderedMap.getD_mem_toList threads k false hkey
      rw [hk] at hentry
      exact ⟨(k, true), List.mem_filter.mpr ⟨hentry, rfl⟩, rfl⟩
  have hpos : 0 < choices.length := List.length_pos_of_mem ((hmem thread).mpr h)
  rw [chooseRandomThread, hchoices]
  simp only [Nat.ne_of_gt hpos, if_false]
  by_cases hmany : 1 < choices.length
  · obtain ⟨number, hnumber⟩ : ∃ number, getRandomNumber (randInt myrand).1 = number := ⟨_, rfl⟩
    have hlt : (number.tmod choices.length).toNat < choices.length := by
      have hbound := Int.tmod_lt_of_pos number (Int.natCast_pos.mpr hpos)
      omega
    simp only [if_pos hmany, hnumber, List.getElem?_eq_getElem hlt]
    exact ⟨_, _, rfl, (hmem _).mp (List.getElem_mem hlt)⟩
  · simp only [if_neg hmany, Int.toNat_zero, List.getElem?_eq_getElem hpos]
    exact ⟨_, _, rfl, (hmem _).mp (List.getElem_mem hpos)⟩

-- The order of the fair scheduler, which no cycle may come into.
def Ordered (self : RelaxedTracker (AddrTracker ρ)) : Prop :=
  Digraph.Acyclic self.ext.fairscheduler.Below

theorem isEnabled_ofNat (enable_map : ThrMap Bool) (thread : ThrID) :
    isEnabled enable_map (Int.ofNat thread) = enable_map.getD thread false := by
  simp [isEnabled]

-- A block that is loaded leaves the fair scheduler alone.
theorem Ordered.regenerate {self : RelaxedTracker (AddrTracker ρ)} (h : Ordered self) :
    Ordered self.regenerateRelaxedSchedule := by
  unfold RelaxedTracker.regenerateRelaxedSchedule
  split
  · exact h
  · exact h

-- Without a block the fair scheduler names an enabled thread.
theorem noScheduleToFollow_spec (self : RelaxedTracker (AddrTracker ρ)) (s : SchedPointInfo)
    (hordered : Ordered self) (hcaller : s.thread ∈ s.enabled) (thread : ThrID)
    (henabled : s.enabled.getD thread false = true) :
    ∃ self', noScheduleToFollow randInt self s = some self' ∧ Ordered self' ∧
      ∃ chosen : ThrID, self'.currentThreadToSchedule = Int.ofNat chosen ∧
        s.enabled.getD chosen false = true := by
  have hnext := FairScheduler.updateDataStructures_acyclic self.ext.fairscheduler s hcaller hordered
  have hfair (t : ThrID)
      (ht : (self.ext.fairscheduler.fairMapOf s).getD t false = true) :
      s.enabled.getD t false = true :=
    ((FairScheduler.fairMapOf_getD self.ext.fairscheduler s t).mp ht).1
  by_cases hstay : (self.ext.fairscheduler.fairMapOf s).getD s.thread false = true
  · refine ⟨{ self with
      currentThreadToSchedule := (s.thread : Int)
      timesToSchedule := 1
      timesScheduled := 0
      ext := { fairscheduler := self.ext.fairscheduler.afterCall s, myrand := self.ext.myrand } },
      ?_, hnext, s.thread, rfl, hfair s.thread hstay⟩
    rw [FairScheduler.fairMapOf] at hstay
    simp only [noScheduleToFollow, hstay, if_true]
    rfl
  · obtain ⟨first, hfirst⟩ := FairScheduler.exists_fairEnabled _ hnext s.enabled thread henabled
    rw [← FairScheduler.getFairEnabledMap_getD] at hfirst
    obtain ⟨chosen, myrand, hchoice, hchosen⟩ :=
      chooseRandomThread_spec randInt self.ext.myrand
        (self.ext.fairscheduler.fairMapOf s) first hfirst
    refine ⟨{ self with
      currentThreadToSchedule := Int.ofNat chosen
      timesToSchedule := 1
      timesScheduled := 0
      ext := { fairscheduler := self.ext.fairscheduler.afterCall s, myrand } },
      ?_, hnext, chosen, rfl, hfair chosen hchosen⟩
    rw [FairScheduler.fairMapOf] at hstay hchoice
    simp only [noScheduleToFollow, hstay, hchoice]
    rfl

-- Every turn of the loop takes a block, and the one that finds none ends it.
theorem regenerateLoop_spec (s : SchedPointInfo) (hcaller : s.thread ∈ s.enabled)
    (thread : ThrID) (henabled : s.enabled.getD thread false = true) (turns : Nat)
    (self : RelaxedTracker (AddrTracker ρ)) (hordered : Ordered self)
    (hturns : self.relaxed_schedule.length < turns) :
    ∃ self', RelaxedTracker.regenerateLoop (virtual randInt) s turns self = some self' ∧
      Ordered self' ∧ isEnabled s.enabled self'.currentThreadToSchedule = true := by
  have hdeadlock := RelaxedTracker.deadlockCheck_of_enabled s thread henabled
  induction turns generalizing self with
  | zero => omega
  | succ turns ih =>
      have hloaded := hordered.regenerate
      simp only [RelaxedTracker.regenerateLoop, hdeadlock, guard_true, Option.bind_eq_bind,
        Option.pure_def, Option.bind_some]
      by_cases hinvalid : self.regenerateRelaxedSchedule.currentThreadToSchedule = INVALID_THREAD
      · obtain ⟨self', hnext, hordered', chosen, hcurrent, hchosen⟩ :=
          noScheduleToFollow_spec randInt self.regenerateRelaxedSchedule s hloaded
            hcaller thread henabled
        have hgood : isEnabled s.enabled self'.currentThreadToSchedule = true := by
          rw [hcurrent, isEnabled_ofNat]
          exact hchosen
        refine ⟨self', ?_, hordered', hgood⟩
        rw [if_pos hinvalid]
        simp [virtual, hnext, hgood]
      · rw [if_neg hinvalid]
        by_cases hgood :
            isEnabled s.enabled self.regenerateRelaxedSchedule.currentThreadToSchedule = true
        · exact ⟨_, by rw [if_pos hgood], hloaded, hgood⟩
        · rw [if_neg hgood]
          refine ih self.regenerateRelaxedSchedule hloaded ?_
          cases hblocks : self.relaxed_schedule with
          | nil =>
              exact absurd (by simp [RelaxedTracker.regenerateRelaxedSchedule, hblocks]) hinvalid
          | cons r rest =>
              have hrest : self.regenerateRelaxedSchedule.relaxed_schedule = rest := by
                simp [RelaxedTracker.regenerateRelaxedSchedule, hblocks]
              rw [hrest]
              rw [hblocks, List.length_cons] at hturns
              omega

theorem mustRegenerateSchedule_spec (self : RelaxedTracker (AddrTracker ρ)) (s : SchedPointInfo) :
    (RelaxedTracker.mustRegenerateSchedule (virtual randInt) self s).2.ext = self.ext ∧
      (RelaxedTracker.mustRegenerateSchedule (virtual randInt) self s).2.relaxed_schedule =
        self.relaxed_schedule ∧
      ((RelaxedTracker.mustRegenerateSchedule (virtual randInt) self s).1 = false →
        isEnabled s.enabled
          (RelaxedTracker.mustRegenerateSchedule (virtual randInt) self s).2.currentThreadToSchedule =
            true) := by
  simp only [RelaxedTracker.mustRegenerateSchedule, virtual,
    RelaxedTracker.checkAddressOfContextSwitch]
  refine ⟨?_, ?_, fun hstay => ?_⟩
  · split
    · rfl
    · rfl
  · split
    · rfl
    · rfl
  · simp only [Bool.or_eq_false_iff, Bool.not_eq_false'] at hstay
    exact hstay.2

theorem regenerateRelaxedSchedule_length (self : RelaxedTracker (AddrTracker ρ)) :
    self.regenerateRelaxedSchedule.relaxed_schedule.length ≤ self.relaxed_schedule.length := by
  unfold RelaxedTracker.regenerateRelaxedSchedule
  split
  · exact Nat.le_refl _
  · rename_i hblocks
    rw [hblocks, List.length_cons]
    exact Nat.le_succ _

-- A schedule point ends with an enabled thread, whatever blocks are left.
theorem schedule_spec (s : SchedPointInfo) (hcaller : s.thread ∈ s.enabled) (thread : ThrID)
    (henabled : s.enabled.getD thread false = true) (turns : Nat)
    (self : RelaxedTracker (AddrTracker ρ)) (hordered : Ordered self)
    (hturns : self.relaxed_schedule.length < turns) :
    ∃ current self', RelaxedTracker.schedule (virtual randInt) turns self s =
      some (current, self') ∧ isEnabled s.enabled current = true := by
  have hdeadlock := RelaxedTracker.deadlockCheck_of_enabled s thread henabled
  -- What is left to do once a first block is loaded.
  have hrest (loaded : RelaxedTracker (AddrTracker ρ)) (hordered' : Ordered loaded)
      (hlength : loaded.relaxed_schedule.length < turns) :
      ∃ next, (if (RelaxedTracker.mustRegenerateSchedule (virtual randInt) loaded s).1 then
          RelaxedTracker.regenerateLoop (virtual randInt) s turns
            (RelaxedTracker.mustRegenerateSchedule (virtual randInt) loaded s).2
        else some (RelaxedTracker.mustRegenerateSchedule (virtual randInt) loaded s).2) =
          some next ∧ isEnabled s.enabled next.currentThreadToSchedule = true := by
    obtain ⟨hext, hblocks, hstay⟩ := mustRegenerateSchedule_spec randInt loaded s
    by_cases hmust : (RelaxedTracker.mustRegenerateSchedule (virtual randInt) loaded s).1 = true
    · obtain ⟨next, hloop, -, hgood⟩ := regenerateLoop_spec randInt s hcaller thread
        henabled turns _ (by rw [Ordered, hext]; exact hordered') (by rw [hblocks]; exact hlength)
      exact ⟨next, by rw [if_pos hmust]; exact hloop, hgood⟩
    · rw [Bool.not_eq_true] at hmust
      exact ⟨_, by rw [hmust, if_neg Bool.false_ne_true], hstay hmust⟩
  have hloaded := hordered.regenerate
  have hlength := regenerateRelaxedSchedule_length self
  by_cases hunknown : self.currentThreadToSchedule = UNKNOWN_THREAD
  · obtain ⟨next, hnext, hgood⟩ := hrest self.regenerateRelaxedSchedule hloaded (by omega)
    exact ⟨_, _, RelaxedTracker.schedule_eq _ turns s _ (if_pos hunknown) next hnext hdeadlock rfl
      hgood, hgood⟩
  · obtain ⟨next, hnext, hgood⟩ := hrest self hordered hturns
    exact ⟨_, _, RelaxedTracker.schedule_eq _ turns s _ (if_neg hunknown) next hnext hdeadlock rfl
      hgood, hgood⟩

theorem getNextSignalChoice_threads (self : RelaxedTracker (AddrTracker ρ)) :
    self.getNextSignalChoice.2.threadsToSignal = self.threadsToSignal.tail := by
  cases hthreads : self.threadsToSignal with
  | nil => simp [RelaxedTracker.getNextSignalChoice, hthreads]
  | cons result rest => simp [RelaxedTracker.getNextSignalChoice, hthreads]

theorem getNextSignalChoice_ext (self : RelaxedTracker (AddrTracker ρ)) :
    self.getNextSignalChoice.2.ext = self.ext := by
  unfold RelaxedTracker.getNextSignalChoice
  split
  · rfl
  · rfl

-- A random choice for a signal is among the threads that wait.
theorem selectThreadWaitingOnCond_spec (myrand : ρ) (s : SignalPointInfo) (waiter : ThrID)
    (hwaits : s.cond_map[waiter]? = some s.cond) :
    ∃ chosen myrand', selectThreadWaitingOnCond randInt myrand s =
      some (Int.ofNat chosen, myrand') ∧ isWaitingOn s (Int.ofNat chosen) = true := by
  obtain ⟨threadIsOnCond, hmap⟩ : ∃ m, s.cond_map.keys.foldl
      (fun m thread => m.insert thread (isWaitingOn s thread)) (∅ : ThrMap Bool) = m := ⟨_, rfl⟩
  have hget (k : ThrID) : threadIsOnCond.getD k false =
      if k ∈ s.cond_map.keys then isWaitingOn s (Int.ofNat k) else false := by
    rw [← hmap, OrderedMap.getD_foldl_insert, OrderedMap.getD_empty]
    rfl
  have hkey : waiter ∈ s.cond_map.keys := by
    rw [Std.TreeMap.mem_keys, ← Std.TreeMap.isSome_getElem?_iff_mem, hwaits]
    rfl
  have hwaiter : threadIsOnCond.getD waiter false = true := by
    rw [hget, if_pos hkey]
    simp [isWaitingOn, hwaits]
  obtain ⟨chosen, myrand', hchoice, hchosen⟩ :=
    chooseRandomThread_spec randInt myrand threadIsOnCond waiter hwaiter
  have hwaiting : isWaitingOn s (Int.ofNat chosen) = true := by
    rw [hget] at hchosen
    split at hchosen
    · exact hchosen
    · cases hchosen
  refine ⟨chosen, myrand', ?_, hwaiting⟩
  rw [selectThreadWaitingOnCond, hmap, hchoice]
  simp only [Option.bind_eq_bind, Option.bind_some, hwaiting, or_true, guard_true, Option.pure_def]

-- The loop takes the listed threads one by one, and then the random one, which waits.
theorem choiceLoop_spec (s : SignalPointInfo) (waiter : ThrID)
    (hwaits : s.cond_map[waiter]? = some s.cond) (turns : Nat) (tosched : Int)
    (self : RelaxedTracker (AddrTracker ρ))
    (hturns : self.threadsToSignal.length + 1 < turns) :
    ∃ chosen self', choiceLoop randInt s turns tosched self = some (Int.ofNat chosen, self') ∧
      isWaitingOn s (Int.ofNat chosen) = true := by
  induction turns generalizing tosched self with
  | zero => omega
  | succ turns ih =>
      rw [choiceLoop]
      by_cases hwaiting : isWaitingOn s tosched = true
      · obtain ⟨chosen, rfl⟩ : ∃ chosen : ThrID, tosched = Int.ofNat chosen := by
          simp only [isWaitingOn, Bool.and_eq_true, decide_eq_true_eq] at hwaiting
          exact ⟨tosched.toNat, (Int.toNat_of_nonneg hwaiting.1).symm⟩
        exact ⟨chosen, self, by rw [if_pos hwaiting], hwaiting⟩
      · rw [if_neg hwaiting]
        by_cases hlisted : self.getNextSignalChoice.1 ≠ INVALID_THREAD
        · rw [if_pos hlisted]
          refine ih _ _ ?_
          have hsome : self.threadsToSignal ≠ [] := fun hnil =>
            hlisted (by simp [RelaxedTracker.getNextSignalChoice, hnil])
          have hpos := List.length_pos_of_ne_nil hsome
          rw [getNextSignalChoice_threads, List.length_tail]
          omega
        · obtain ⟨chosen, myrand, hchoice, hchosen⟩ :=
            selectThreadWaitingOnCond_spec randInt self.ext.myrand s waiter hwaits
          have hne : Int.ofNat chosen ≠ INVALID_THREAD :=
            RelaxedTracker.ofNat_ne chosen INVALID_THREAD (by decide)
          rw [if_neg hlisted, hchoice]
          simp only [Option.bind_eq_bind, Option.bind_some, if_neg hne]
          obtain ⟨left, rfl⟩ : ∃ left, turns = left + 1 := ⟨turns - 1, by omega⟩
          exact ⟨chosen, _, by rw [choiceLoop, if_pos hchosen], hchosen⟩

theorem scheduleThreadWaitingOnCond_spec (s : SignalPointInfo) (waiter : ThrID)
    (hwaits : s.cond_map[waiter]? = some s.cond) (turns : Nat) (target : Int)
    (self : RelaxedTracker (AddrTracker ρ)) (tracker : ExecutionTracker)
    (hthreads : ∀ t, s.cond_map[t]? = some s.cond → (tracker.wait_sem_map t).isSome = true)
    (hturns : self.threadsToSignal.length + 1 < turns) :
    ∃ woken tracker' self', scheduleThreadWaitingOnCond randInt turns target self tracker s =
        some (some woken, tracker', self') ∧ s.cond_map[woken]? = some s.cond ∧
      (tracker.setWaitReady woken false).waitWakeThread woken = .ok tracker' := by
  obtain ⟨chosen, self', hloop, hchosen⟩ := choiceLoop_spec randInt s waiter hwaits
    turns target self hturns
  have hne : Int.ofNat chosen ≠ INVALID_THREAD :=
    RelaxedTracker.ofNat_ne chosen INVALID_THREAD (by decide)
  have hwaiting : s.cond_map[chosen]? = some s.cond := by
    simp only [isWaitingOn, Bool.and_eq_true, beq_iff_eq] at hchosen
    exact hchosen.2
  obtain ⟨posts, hposts⟩ := Option.isSome_iff_exists.mp (hthreads chosen hwaiting)
  have hwake : (tracker.setWaitReady chosen false).waitWakeThread chosen =
      .ok ((tracker.setWaitReady chosen false).setWaitSem chosen (posts + 1)) := by
    simp [ExecutionTracker.waitWakeThread, hposts]
  refine ⟨chosen, _, self', ?_, hwaiting, hwake⟩
  rw [scheduleThreadWaitingOnCond, hloop]
  simp only [Option.bind_eq_bind, Option.bind_some, if_neg hne]
  rw [show (Int.ofNat chosen).toNat = chosen from rfl, hwake]
  rfl

-- A signal wakes a thread that waits, whatever threads are listed.
theorem wakeThreadWaitingOnCond_spec (s : SignalPointInfo) (waiter : ThrID)
    (hwaits : s.cond_map[waiter]? = some s.cond) (turns : Nat)
    (self : RelaxedTracker (AddrTracker ρ)) (tracker : ExecutionTracker)
    (hthreads : ∀ t, s.cond_map[t]? = some s.cond → (tracker.wait_sem_map t).isSome = true)
    (hturns : self.threadsToSignal.length + 1 < turns) :
    ∃ woken tracker' self', wakeThreadWaitingOnCond randInt turns self tracker s =
        some (some woken, tracker', self') ∧ s.cond_map[woken]? = some s.cond ∧
      (tracker.setWaitReady woken false).waitWakeThread woken = .ok tracker' := by
  have hmissed : ExecutionTracker.isSignalMissed s = false := by
    rw [ExecutionTracker.isSignalMissed, List.isEmpty_eq_false_iff_exists_mem]
    exact ⟨waiter, (PtrMap.mem_threadsAt _ _ waiter).mpr hwaits⟩
  have hleft : self.getNextSignalChoice.2.threadsToSignal.length + 1 < turns := by
    rw [getNextSignalChoice_threads, List.length_tail]
    omega
  rw [wakeThreadWaitingOnCond, hmissed, if_neg Bool.false_ne_true]
  by_cases hinvalid : self.getNextSignalChoice.1 = INVALID_THREAD
  · obtain ⟨chosen, myrand, hchoice, -⟩ := selectThreadWaitingOnCond_spec randInt
      self.getNextSignalChoice.2.ext.myrand s waiter hwaits
    have hne : Int.ofNat chosen ≠ INVALID_THREAD :=
      RelaxedTracker.ofNat_ne chosen INVALID_THREAD (by decide)
    simp only [if_pos hinvalid, hchoice, Option.bind_eq_bind, Option.bind_some, guard_true, hne,
      ne_eq, not_false_eq_true]
    exact scheduleThreadWaitingOnCond_spec randInt s waiter hwaits turns _ _ tracker hthreads hleft
  · simp only [if_neg hinvalid]
    exact scheduleThreadWaitingOnCond_spec randInt s waiter hwaits turns _ _ tracker hthreads hleft

section Kept

variable {randInt}

theorem noScheduleToFollow_ordered {self self' : RelaxedTracker (AddrTracker ρ)}
    {s : SchedPointInfo} (hordered : Ordered self) (hcaller : s.thread ∈ s.enabled)
    (h : noScheduleToFollow randInt self s = some self') : Ordered self' := by
  have hnext := FairScheduler.updateDataStructures_acyclic self.ext.fairscheduler s hcaller hordered
  unfold noScheduleToFollow at h
  dsimp only at h
  split at h
  · cases h
    exact hnext
  · obtain ⟨choice, -, hchoice⟩ := Option.bind_eq_some_iff.mp h
    cases hchoice
    exact hnext

theorem regenerateLoop_ordered {self self' : RelaxedTracker (AddrTracker ρ)} {s : SchedPointInfo}
    {turns : Nat} (hordered : Ordered self) (hcaller : s.thread ∈ s.enabled)
    (h : RelaxedTracker.regenerateLoop (virtual randInt) s turns self = some self') :
    Ordered self' := by
  induction turns generalizing self with
  | zero => cases h
  | succ turns ih =>
      have hloaded := hordered.regenerate
      -- A thread is named, by a block or by the fair scheduler.
      have hnamed (next : RelaxedTracker (AddrTracker ρ)) (hordered' : Ordered next)
          (h : (if isEnabled s.enabled next.currentThreadToSchedule = true then some next
            else RelaxedTracker.regenerateLoop (virtual randInt) s turns next) = some self') :
          Ordered self' := by
        split at h
        · exact Option.some.inj h ▸ hordered'
        · exact ih hordered' h
      obtain ⟨-, -, h⟩ := Option.bind_eq_some_iff.mp h
      dsimp only at h
      split at h
      · obtain ⟨next, hnext, h⟩ := Option.bind_eq_some_iff.mp h
        exact hnamed next (noScheduleToFollow_ordered hloaded hcaller hnext) h
      · exact hnamed _ hloaded h

theorem schedule_ordered {self self' : RelaxedTracker (AddrTracker ρ)} {s : SchedPointInfo}
    {turns : Nat} {current : Int} (hordered : Ordered self) (hcaller : s.thread ∈ s.enabled)
    (h : RelaxedTracker.schedule (virtual randInt) turns self s = some (current, self')) :
    Ordered self' := by
  obtain ⟨start, hstart⟩ : ∃ start, (if self.currentThreadToSchedule = UNKNOWN_THREAD then
      self.regenerateRelaxedSchedule else self) = start := ⟨_, rfl⟩
  have hordered' : Ordered start := by
    rw [← hstart]
    split
    · exact hordered.regenerate
    · exact hordered
  obtain ⟨hext, -, -⟩ := mustRegenerateSchedule_spec randInt start s
  have hmust : Ordered (RelaxedTracker.mustRegenerateSchedule (virtual randInt) start s).2 := by
    rw [Ordered, hext]
    exact hordered'
  rw [RelaxedTracker.schedule, hstart] at h
  obtain ⟨next, hnext, h⟩ : ∃ next, Ordered next ∧
      { next with timesScheduled := next.timesScheduled + 1 } = self' := by
    dsimp only at h
    split at h
    · obtain ⟨next, hloop, h⟩ := Option.bind_eq_some_iff.mp h
      obtain ⟨-, -, h⟩ := Option.bind_eq_some_iff.mp h
      obtain ⟨-, -, h⟩ := Option.bind_eq_some_iff.mp h
      obtain ⟨-, -, h⟩ := Option.bind_eq_some_iff.mp h
      exact ⟨next, regenerateLoop_ordered hmust hcaller hloop,
        (Prod.mk.inj (Option.some.inj h)).2⟩
    · obtain ⟨next, hnext, h⟩ := Option.bind_eq_some_iff.mp h
      obtain ⟨-, -, h⟩ := Option.bind_eq_some_iff.mp h
      obtain ⟨-, -, h⟩ := Option.bind_eq_some_iff.mp h
      obtain ⟨-, -, h⟩ := Option.bind_eq_some_iff.mp h
      exact ⟨next, Option.some.inj hnext ▸ hmust, (Prod.mk.inj (Option.some.inj h)).2⟩
  rw [← h]
  exact hnext

theorem choiceLoop_ordered {self self' : RelaxedTracker (AddrTracker ρ)} {s : SignalPointInfo}
    {turns : Nat} {target tosched : Int} (hordered : Ordered self)
    (h : choiceLoop randInt s turns target self = some (tosched, self')) : Ordered self' := by
  induction turns generalizing target self with
  | zero => cases h
  | succ turns ih =>
      have hkept : Ordered self.getNextSignalChoice.2 := by
        rw [Ordered, getNextSignalChoice_ext]
        exact hordered
      rw [choiceLoop] at h
      split at h
      · exact (Prod.mk.inj (Option.some.inj h)).2 ▸ hordered
      · split at h
        · exact ih hkept h
        · have hdrawn (myrand : ρ) : Ordered { self.getNextSignalChoice.2 with
              ext := { self.ext with myrand } } := hordered
          obtain ⟨⟨choice, myrand⟩, -, h⟩ := Option.bind_eq_some_iff.mp h
          dsimp only at h
          split at h
          · cases h
            exact hdrawn myrand
          · exact ih (hdrawn myrand) h

theorem wakeThreadWaitingOnCond_ordered {self self' : RelaxedTracker (AddrTracker ρ)}
    {s : SignalPointInfo} {turns : Nat} {tracker tracker' : ExecutionTracker}
    {woken : Option ThrID} (hordered : Ordered self)
    (h : wakeThreadWaitingOnCond randInt turns self tracker s = some (woken, tracker', self')) :
    Ordered self' := by
  have hscheduled (target : Int) (next : RelaxedTracker (AddrTracker ρ)) (hnext : Ordered next)
      (hstep : scheduleThreadWaitingOnCond randInt turns target next tracker s =
        some (woken, tracker', self')) : Ordered self' := by
    obtain ⟨⟨tosched, last⟩, hloop, hstep⟩ := Option.bind_eq_some_iff.mp hstep
    have hlast := choiceLoop_ordered hnext hloop
    dsimp only at hstep
    split at hstep
    · cases hstep
      exact hlast
    · obtain ⟨woke, -, hwoke⟩ := Option.bind_eq_some_iff.mp hstep
      cases hwoke
      exact hlast
  have hkept : Ordered self.getNextSignalChoice.2 := by
    rw [Ordered, getNextSignalChoice_ext]
    exact hordered
  rw [wakeThreadWaitingOnCond] at h
  split at h
  · cases h
    exact hordered
  · dsimp only at h
    split at h
    · obtain ⟨⟨newchoice, myrand⟩, -, h⟩ := Option.bind_eq_some_iff.mp h
      obtain ⟨-, -, h⟩ := Option.bind_eq_some_iff.mp h
      have hdrawn : Ordered { self.getNextSignalChoice.2 with
          ext := { self.getNextSignalChoice.2.ext with myrand } } := hkept
      exact hscheduled _ _ hdrawn h
    · exact hscheduled _ _ hkept h

-- At every point of a run the fair scheduler is without a cycle, although only the points at
-- which no block was left have changed it.
theorem Reached.ordered {self : RelaxedTracker (AddrTracker ρ)} (h : Reached randInt self) :
    Ordered self := by
  induction h with
  | init relaxed_schedule myrand =>
      exact Ordered.regenerate FairScheduler.empty_acyclic
  | schedule self self' turns s current _ hcaller hstep ih =>
      exact schedule_ordered ih hcaller hstep
  | signal self self' turns s tracker tracker' woken _ hstep ih =>
      exact wakeThreadWaitingOnCond_ordered ih hstep
  | broadcast self myrand _ ih => exact ih

end Kept

-- At every point of a run, with whatever blocks: a schedule point launches an enabled thread, and
-- a signal wakes a thread that waits for it.
theorem schedule_and_signal (self : RelaxedTracker (AddrTracker ρ))
    (hreached : Reached randInt self) (tracker : ExecutionTracker)
    (hregistered : tracker.Registered) :
    (∀ (s : SchedPointInfo) (turns : Nat), s.enabled = tracker.enable_map →
      s.thread ∈ tracker.enable_map → (∃ t, tracker.isEnabled t = true) →
      self.relaxed_schedule.length < turns →
      ∃ t tracker' self', RelaxedTracker.scheduleThread (virtual randInt) turns self tracker s =
          some (t, tracker', self') ∧ tracker.isEnabled t = true ∧
        (tracker.recordScheduleInfo s.thread t).launch t = .ok tracker') ∧
    ∀ (s : SignalPointInfo) (turns : Nat), s.isBroadcast = false → s.cond_map = tracker.cond_map →
      (∃ t : ThrID, s.cond_map[t]? = some s.cond) → self.threadsToSignal.length + 1 < turns →
      ∃ (t : ThrID) (tracker' : ExecutionTracker) (self' : RelaxedTracker (AddrTracker ρ)),
        wakeThreadWaitingOnCond randInt turns self tracker s = some (some t, tracker', self') ∧
          s.cond_map[t]? = some s.cond ∧
          (tracker.setWaitReady t false).waitWakeThread t = .ok tracker' := by
  constructor
  · rintro s turns hpoint hcaller ⟨thread, henabled⟩ hturns
    rw [ExecutionTracker.isEnabled, ← hpoint] at henabled
    obtain ⟨current, self', hschedule, hcurrent⟩ := schedule_spec randInt s
      (by rw [hpoint]; exact hcaller) thread henabled turns self hreached.ordered hturns
    have hchosen : tracker.isEnabled current.toNat = true := by
      rw [isEnabled, Bool.and_eq_true, hpoint] at hcurrent
      exact hcurrent.2
    obtain ⟨tracker', hlaunch⟩ := hregistered.launch s.thread current.toNat hchosen
    refine ⟨current.toNat, tracker', self', ?_, hchosen, hlaunch⟩
    rw [RelaxedTracker.scheduleThread, hschedule]
    simp only [Option.bind_eq_bind, Option.bind_some, hlaunch]
    rfl
  · intro s turns _ hpoint hwaiters hturns
    obtain ⟨waiter, hwaits⟩ := hwaiters
    refine wakeThreadWaitingOnCond_spec randInt s waiter hwaits turns self tracker ?_ hturns
    intro t ht
    refine hregistered.waiting t ?_
    rw [← hpoint, ← Std.TreeMap.isSome_getElem?_iff_mem, ht]
    rfl

-- Thread 1 waits on a condition variable, and the only block is for a thread that does not exist.
def oneWaits : ExecutionTracker :=
  { ((ExecutionTracker.new.initializeThreadData 1).disableThread 1) with
    cond_map := (∅ : PtrMap).insert 1 8 }

def strangeBlock : RelaxedSchedStruct where
  current := 7
  max := 1
  addr := 4
  pass := 0
  signals := [-2, 9]

theorem schedule_and_signal_strangeBlock :
    (∃ t tracker' self', RelaxedTracker.scheduleThread (virtual fun n => (n, n + 1)) 1
          (init [strangeBlock] { fairscheduler := {}, myrand := 5 }) oneWaits
          { ret_addr := 4, type := "Before Generic Schedule Point", thread := 0
            enabled := oneWaits.enable_map, isYield := false } = some (t, tracker', self') ∧
        oneWaits.isEnabled t = true ∧
        (oneWaits.recordScheduleInfo 0 t).launch t = .ok tracker') ∧
      ∃ (t : ThrID) (tracker' : ExecutionTracker) (self' : RelaxedTracker (AddrTracker Nat)),
        wakeThreadWaitingOnCond (fun n => (n, n + 1)) 4
            (init [strangeBlock] { fairscheduler := {}, myrand := 5 }) oneWaits
            { ret_addr := 4, isBroadcast := false, thread := 0, cond := 8
              cond_map := oneWaits.cond_map } = some (some t, tracker', self') ∧
          oneWaits.cond_map[t]? = some 8 ∧
          (oneWaits.setWaitReady t false).waitWakeThread t = .ok tracker' := by
  have hregistered : oneWaits.Registered := by
    refine ⟨fun t ht => ?_, fun t ht => ?_⟩
    · by_cases hone : t = 1
      · subst hone
        exact ⟨rfl, rfl⟩
      · by_cases hzero : t = 0
        · subst hzero
          exact ⟨rfl, rfl⟩
        · have hoff : oneWaits.isEnabled t = false := by
            simp [oneWaits, ExecutionTracker.new, ExecutionTracker.isEnabled,
              ExecutionTracker.initializeThreadData, ExecutionTracker.enableThread,
              ExecutionTracker.disableThread, OrderedMap.getD_insert_eq,
              Ne.symm hone, Ne.symm hzero]
          rw [hoff] at ht
          cases ht
    · have hone : compare 1 t = .eq := by simpa [oneWaits, eq_comm] using ht
      rw [← Std.compare_eq_iff_eq.mp hone]
      rfl
  obtain ⟨hschedule, hsignal⟩ := schedule_and_signal (fun n => (n, n + 1))
    (init [strangeBlock] { fairscheduler := {}, myrand := 5 }) (Reached.init _ _) oneWaits
    hregistered
  refine ⟨hschedule _ 1 rfl (by decide +kernel) ⟨0, by decide +kernel⟩ (by decide), ?_⟩
  exact hsignal _ 4 rfl rfl ⟨1, by decide +kernel⟩ (by decide)

end AddrTracker

end Thrille
