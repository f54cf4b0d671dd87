import Thrille.Randact.Runs
import Thrille.Serializer.Proceeds

namespace Thrille

open ExecutionTracker

variable {ρ : Type} {isLockRace : Bool} {randInt : ρ → Nat × ρ}

-- At the start nothing is postponed.
theorem Sim.initial (target1 target2 : Addr) (myrand : ρ) (read_schedule : List DecisionInfo) :
    Sim isLockRace (System.initial { target1, target2, myrand } [])
      (System.initial { target1, target2, myrand } read_schedule) (.running 0) where
  serial := Serial.initial _ _
  tracked := System.Tracked.initial _ _
  running := rfl
  failed := rfl
  read := rfl
  lock := rfl
  barriers := rfl
  pcs _ := Or.inl rfl
  covers := by
    have hnobody (u : ThrID) : ¬(RandomActiveTester.isPaused
        { target1, target2, myrand : RandomActiveTester ρ } u = true) := nofun
    exact ⟨⟨rfl, fun _ _ => rfl, fun u hu => absurd hu (hnobody u),
      fun u hu => absurd hu (hnobody u), fun u hu => absurd hu (hnobody u),
      fun _ u hu => absurd hu (hnobody u)⟩, fun u hu => absurd hu (hnobody u)⟩
  posted _ _ _ := rfl

namespace RandomActiveTester

variable {x x' : System (RandomActiveTester ρ)} {t : ThrID} {turns : Nat} {ret_addr addr : Addr}
  {op : Op} {xtr : ExecutionTracker} {info : SchedPointInfo} {r : Rest}

-- Every state of a run that goes on stands over a state of the base class.
theorem Reachable.sim (h : Reachable (RandactHandler.getNewExecutionTracker isLockRace) randInt
      System.Posix x) (hrunning : x.stopped = none) (hfailed : x.scheduler.failed = none) :
    ∃ s c, Sim isLockRace s x c := by
  obtain ⟨target1, target2, myrand, read_schedule, hrun⟩ := h
  induction hrun with
  | refl => exact ⟨_, _, Sim.initial target1 target2 myrand read_schedule⟩
  | tail hbefore hstep ih =>
      obtain ⟨turns, t, ret_addr, op, addr, hasks, hstep⟩ := hstep
      obtain ⟨hrunning', hfailed'⟩ := Sim.runs_of_step hstep
      obtain ⟨s, c, hsim⟩ := ih hrunning' hfailed'
      exact hsim.step (fun _ => hasks) hstep hrunning hfailed

-- What the rules ask of an operation that initialises and destroys nothing, as a test.
def permits {σ : Type} (s : System σ) (op : Op) : Bool :=
  (match op.mutex with
    | some m => s.tracker.mutexes m != .destroyed
    | none => true) &&
  match op with
  | .mutexInit _ => false
  | .mutexDestroy _ => false
  | .semInit .. => false
  | .barrierInit .. => false
  | .create ret_val => ret_val == OPERATION_SUCCESSFUL
  | _ => true

theorem posix_of_permits {σ : Type} {s : System σ} {op : Op} (h : permits s op = true) :
    s.Posix t ret_addr op := by
  obtain ⟨halive, hrest⟩ := Bool.and_eq_true_iff.mp h
  refine ⟨fun m hm => ?_, ?_⟩
  · rw [hm] at halive
    simpa using halive
  · cases op with
    | mutexInit lock => cases hrest
    | mutexDestroy lock => cases hrest
    | semInit sem value => cases hrest
    | barrierInit barrier count => cases hrest
    | create ret_val => simpa using hrest
    | _ => trivial

theorem reachable_of_run {v : ActiveVirtual ρ} {target1 target2 : Addr} {myrand : ρ}
    (steps : List (ThrID × Addr × Op × Addr))
    (hrun : steps.foldlM (fun s (thr, ret_addr, op, addr) =>
      if permits s op then step v randInt turns s thr ret_addr op addr else none)
      (System.initial { target1, target2, myrand } []) = some x) :
    Reachable v randInt System.Posix x := by
  refine ⟨target1, target2, myrand, [], ?_⟩
  generalize System.initial { target1, target2, myrand : RandomActiveTester ρ } [] = start at hrun ⊢
  induction steps generalizing start with
  | nil =>
      cases hrun
      exact .refl
  | cons next steps ih =>
      obtain ⟨thr, ret_addr, op, addr⟩ := next
      simp only [List.foldlM_cons, Option.bind_eq_bind, Option.bind_eq_some_iff] at hrun
      obtain ⟨middle, hstep, hrest⟩ := hrun
      split at hstep
      · rename_i hpermits
        exact .head ⟨turns, thr, ret_addr, op, addr, posix_of_permits hpermits, hstep⟩
          (ih middle hrest)
      · cases hstep

-- The main thread creates a thread, and both take mutex 5 at address 7.
def lockRace : List (ThrID × Addr × Op × Addr) :=
  [(0, 1, .create 0, 0), (0, 0, .exit, 0), (0, 0, .exit, 0), (0, 0, .exit, 0), (0, 0, .exit, 0),
    (0, 0, .exit, 0), (0, 0, .exit, 0), (1, 0, .exit, 0), (1, 0, .exit, 0), (1, 0, .exit, 0),
    (1, 0, .exit, 0), (1, 7, .mutexLock 5, 0), (1, 0, .exit, 0), (0, 0, .exit, 0),
    (0, 0, .exit, 0), (0, 7, .mutexLock 5, 0), (1, 0, .exit, 0), (0, 0, .exit, 0)]

-- A run of the random lock tester with target 7 and the same random number at every draw.
def lockRun (steps : List (ThrID × Addr × Op × Addr)) : Option (System (RandomActiveTester Unit)) :=
  steps.foldlM (fun s (thr, ret_addr, op, addr) =>
    if permits s op then step (RandactHandler.getNewExecutionTracker true) (fun _ => (2, ())) 9 s
      thr ret_addr op addr else none)
    (System.initial { target1 := 7, target2 := 7, myrand := () } [])

-- No assertion of a tester fails in any run. The threads still take turns, who is postponed is
-- disabled with its operation pending, and who is launched finds its mutex free or its semaphore
-- posted.
theorem testers_keep_serial (isLockRace : Bool) (randInt : ρ → Nat × ρ)
    (x : System (RandomActiveTester ρ))
    (h : Reachable (RandactHandler.getNewExecutionTracker isLockRace) randInt System.Posix x) :
    (x.scheduler.failed = none ∨ x.scheduler.failed = some .turns) ∧
    (x.stopped = none → x.scheduler.failed = none →
      (∀ t u, (x.pcs t).inProgram = true → (x.pcs u).inProgram = true → t = u) ∧
      (∀ u, x.scheduler.isPaused u = true →
        x.tracker.isEnabled u = false ∧ ∃ k, (x.pcs u).stage = .pending k) ∧
      (∀ t lock, (x.pcs t = .resume (.lock lock) ∨
          ∃ w timedOut, x.pcs t = .resume (.relock w timedOut) ∧ w.lock = lock) →
        (x.tracker.simulateMutexLock t lock).1 = OPERATION_SUCCESSFUL ∧
        (x.tracker.simulateMutexLock t lock).2.mutexes lock = .held t) ∧
      ∀ t sem, x.pcs t = .resume (.semWait sem) → 0 < x.tracker.semaphores sem) := by
  refine ⟨?_, fun hrunning hfailed => ?_⟩
  · obtain ⟨target1, target2, myrand, read_schedule, hrun⟩ := h
    rcases Relation.ReflTransGen.cases_tail hrun with heq | ⟨y, hbefore, hstep⟩
    · rw [heq]
      exact Or.inl rfl
    · obtain ⟨turns, t, ret_addr, op, addr, hasks, hstep⟩ := hstep
      obtain ⟨hrunning, hfailed⟩ := Sim.runs_of_step hstep
      obtain ⟨s, c, hsim⟩ := Reachable.sim ⟨target1, target2, myrand, read_schedule, hbefore⟩
        hrunning hfailed
      exact (hsim.step_kept hstep).1
  · obtain ⟨s, c, hsim⟩ := h.sim hrunning hfailed
    have hshade : s.tracker.shade x.tracker = x.tracker := hsim.covers.shadow.same
    refine ⟨fun t u ht hu => ?_, fun u hu => ⟨hsim.covers.shadow.down trivial u hu, ?_⟩,
      fun t lock hpc => ?_, fun t sem hpc => ?_⟩
    · have hturn (u : ThrID) (hu : (x.pcs u).inProgram = true) : c = .running u := by
        obtain ⟨ret_val, hat⟩ := Pc.program_of_inProgram hu
        have hpc := hsim.pcs_eq hat rfl
        exact hsim.serial.controlled.runner (by rw [hpc]; rfl) (by rw [hpc]; rfl)
          (by rw [hpc]; exact fun _ _ => nofun)
      exact Control.running.inj ((hturn t ht).symm.trans (hturn u hu))
    · obtain ⟨k, hk, _⟩ := hsim.stage_of_paused hu
      rcases hsim.pcs u with heq | heq
      · exact ⟨k, by rw [← heq, hk]⟩
      · rcases (x.pcs u).stage_locked with hsame | ⟨m, ⟨hx, _⟩ | ⟨_, hs⟩⟩
        · exact ⟨k, by rw [← hsame, ← heq, hk]⟩
        · exact ⟨_, hx⟩
        · rw [← heq, hk] at hs
          cases hs
    · obtain ⟨k, hst, hk⟩ : ∃ k, (s.pcs t).stage = .resumed k ∧
          (k = .lock lock ∨ ∃ w timedOut, k = .relock w timedOut ∧ w.lock = lock) := by
        rcases hpc with hpc | ⟨w, timedOut, hpc, hw⟩
        · exact ⟨_, by rw [hsim.pcs_eq hpc rfl]; rfl, Or.inl rfl⟩
        · exact ⟨_, by rw [hsim.pcs_eq hpc rfl]; rfl, Or.inr ⟨w, timedOut, rfl, hw⟩⟩
      have hready := hsim.serial.consistent.ready_of_resumed hst hk
      have halive := hsim.tracked.alive t lock (hsim.serial.consistent.mutex_of_entry (Or.inl hready))
      obtain ⟨late, hmaps, _⟩ := hsim.tracked.locks
      have hfree : x.tracker.mutexes lock = .free := by
        rw [← hshade, shade_mutexes]
        cases hmutex : s.tracker.mutexes lock with
        | free => rfl
        | held o => exact absurd hmutex (hmaps.ready t lock hready o)
        | destroyed => exact absurd hmutex halive
      have hacquired : (x.tracker.threadHasAcquiredLock t lock).mutexes lock = .free := hfree
      unfold ExecutionTracker.simulateMutexLock ExecutionTracker.mutexTrylock
      rw [hacquired]
      exact ⟨rfl, Function.update_self _ _ _⟩
    · have hst : (s.pcs t).stage = .resumed (.semWait sem) := by
        rw [hsim.pcs_eq hpc rfl]
        rfl
      rw [← hshade, shade_semaphores]
      exact hsim.tracked.sems.ready t sem (hsim.serial.consistent.semReady sem hst)

-- After 13 steps thread 1 is postponed.
theorem testers_keep_serial_postponed :
    ∃ x, lockRun (lockRace.take 13) = some x ∧ x.stopped = none ∧ x.scheduler.failed = none ∧
      x.scheduler.isPaused 1 = true ∧ x.tracker.isEnabled 1 = false := by
  have hany : (lockRun (lockRace.take 13)).any (fun x => x.stopped.isNone &&
      x.scheduler.failed.isNone && x.scheduler.isPaused 1) = true := by
    decide +kernel
  obtain ⟨x, hx, hstate⟩ := Option.any_eq_true _ _ |>.mp hany
  simp only [Bool.and_eq_true, Option.isNone_iff_eq_none] at hstate
  obtain ⟨⟨hrunning, hfailed⟩, hpaused⟩ := hstate
  obtain ⟨_, hserial⟩ := testers_keep_serial true (fun _ => (2, ())) x (reachable_of_run _ hx)
  exact ⟨x, hx, hrunning, hfailed, hpaused, ((hserial hrunning hfailed).2.1 1 hpaused).1⟩

-- When `schedule` has been called and the handler has run, whoever is postponed is disabled. The
-- picker comes to an end, none of its assertions fails, and it finds somebody who is enabled and
-- not postponed, if anybody is enabled or can be enabled again.
theorem pickNextSchedulingChoice_finds (isLockRace : Bool) (randInt : ρ → Nat × ρ)
    (h : Reachable (RandactHandler.getNewExecutionTracker isLockRace) randInt System.Posix x)
    (hstep : step (RandactHandler.getNewExecutionTracker isLockRace) randInt turns x t ret_addr op
      addr = some x')
    (hrun : x.tracker.runSection t (x.pcs t) = .ok (xtr, .schedule info r)) :
    ∃ tracker te, x.scheduler.handle (RandactHandler.getNewExecutionTracker isLockRace) xtr t
        (x.pcs t) = .ok (tracker, te) ∧
      (∀ u, te.isPaused u = true → tracker.isEnabled u = false) ∧
      ∀ more point, te.postponed.length < more → ∃ choice tracker' te',
        te.pickNextSchedulingChoice
          (RandactHandler.getNewExecutionTracker isLockRace).reenableThreadIfLegal randInt more
          tracker point = .ok (choice, tracker', te') ∧
        (∀ u, choice = some u → tracker'.isEnabled u = true ∧ te'.isPaused u = false) ∧
        ((∃ u, tracker.isEnabled u = true) ∨ (∃ u tracker'' te'', te.isPaused u = true ∧
          (RandactHandler.getNewExecutionTracker isLockRace).reenableThreadIfLegal te tracker u =
            .ok (true, tracker'', te'')) → choice ≠ none) := by
  obtain ⟨hrunning, hfailed⟩ := Sim.runs_of_step hstep
  obtain ⟨s, c, hsim⟩ := h.sim hrunning hfailed
  obtain ⟨s', str, seff, ⟨tracker, te⟩, hhandled, hhalfway⟩ := hsim.calls hstep hrun
  have hcovers := hhalfway.covers
  have hre : Reenables isLockRace _ (fun u => s'.pcs u ≠ x.pcs u) _
      (RandactHandler.getNewExecutionTracker isLockRace).reenableThreadIfLegal :=
    reenables (ρ := ρ) (hhalfway.settled rfl)
  refine ⟨tracker, te, hhandled, fun u hu => hcovers.shadow.down trivial u hu,
    fun more point hmore => ?_⟩
  obtain ⟨choice, tracker', te', hpick, hpicks⟩ :=
    pickNextSchedulingChoice_spec randInt hre more hcovers point hmore
  refine ⟨choice, tracker', te', hpick, hpicks.chosen, ?_⟩
  rintro (⟨u, henabled⟩ | ⟨u, tracker'', te'', hpaused, hreenabled⟩) hnone
  · have hbase := ((isEnabled_iff hcovers u).mp henabled).1
    rw [(hpicks.nobody hnone u).2] at hbase
    cases hbase
  · obtain ⟨_, hone, _⟩ := hre tracker te u hcovers hpaused
    rw [hreenabled, (hpicks.nobody hnone u).2] at hone
    cases hone

-- Thread 1 comes to the mutex first, and is postponed.
theorem pickNextSchedulingChoice_finds_first :
    ∃ x xtr info r tracker te, lockRun (lockRace.take 12) = some x ∧
      x.tracker.runSection 1 (x.pcs 1) = .ok (xtr, .schedule info r) ∧
      x.scheduler.handle (RandactHandler.getNewExecutionTracker true) xtr 1 (x.pcs 1) =
        .ok (tracker, te) ∧
      ∃ choice tracker' te', te.pickNextSchedulingChoice
          (RandactHandler.getNewExecutionTracker true).reenableThreadIfLegal (fun _ => (2, ()))
          (te.postponed.length + 1) tracker info = .ok (choice, tracker', te') ∧
        ∀ u, choice = some u → tracker'.isEnabled u = true ∧ te'.isPaused u = false := by
  have hany : (lockRun (lockRace.take 12)).any (fun x =>
      (step (RandactHandler.getNewExecutionTracker true) (fun _ => (2, ())) 9 x 1 0 .exit 0).isSome &&
      (x.tracker.runSection 1 (x.pcs 1)).toOption.any fun result => result.2.isSchedule) =
      true := by
    decide +kernel
  obtain ⟨x, hx, hstate⟩ := Option.any_eq_true _ _ |>.mp hany
  obtain ⟨hsome, hsection⟩ := Bool.and_eq_true_iff.mp hstate
  obtain ⟨x', hstep⟩ := Option.isSome_iff_exists.mp hsome
  cases hrun : x.tracker.runSection 1 (x.pcs 1) with
  | error reason =>
      rw [hrun] at hsection
      cases hsection
  | ok result =>
      obtain ⟨xtr, eff⟩ := result
      rw [hrun] at hsection
      cases eff with
      | schedule info r =>
          obtain ⟨tracker, te, hhandled, _, hpicks⟩ := pickNextSchedulingChoice_finds true
            (fun _ => (2, ())) (reachable_of_run _ hx) hstep hrun
          obtain ⟨choice, tracker', te', hpick, hchosen, _⟩ :=
            hpicks (te.postponed.length + 1) info (Nat.lt_succ_self _)
          exact ⟨x, xtr, info, r, tracker, te, hx, hrun, hhandled, choice, tracker', te', hpick,
            hchosen⟩
      | _ => cases hsection

end RandomActiveTester

-- A lock in the place of a trylock is the only difference between who can go on in the two runs.
theorem System.Proceeds.locked {σ τ : Type} {s : System σ} {x : System τ}
    (hpcs : ∀ u, s.pcs u = x.pcs u ∨ s.pcs u = (x.pcs u).locked)
    (hmutexes : s.tracker.mutexes = x.tracker.mutexes)
    (hsemaphores : s.tracker.semaphores = x.tracker.semaphores)
    (hbarriers : s.barriers = x.barriers) (u : ThrID) :
    (s.Proceeds u → x.Proceeds u) ∧ (x.Proceeds u → s.Proceeds u ∨ ∃ m,
      ((x.pcs u).stage = .pending (.trylock m) ∧ (s.pcs u).stage = .pending (.lock m) ∨
        (s.pcs u).stage = .resumed (.lock m))) := by
  have hstages (w : ThrID) : (s.pcs w).stage = (x.pcs w).stage ∨ ∃ m,
      (x.pcs w).stage = .pending (.trylock m) ∧ (s.pcs w).stage = .pending (.lock m) ∨
        (x.pcs w).stage = .resumed (.trylock m) ∧ (s.pcs w).stage = .resumed (.lock m) := by
    rcases hpcs w with heq | heq
    · rw [heq]
      exact Or.inl rfl
    · rw [heq]
      exact (x.pcs w).stage_locked
  have hcompletes (k : Pending) : s.Completes u k ↔ x.Completes u k := by
    cases k with
    | join target =>
        show (s.pcs target).stage = .finished ↔ (x.pcs target).stage = .finished
        rcases hstages target with heq | ⟨m, ⟨hx, hs⟩ | ⟨hx, hs⟩⟩
        · rw [heq]
        · rw [hx, hs]
          exact iff_of_false nofun nofun
        · rw [hx, hs]
          exact iff_of_false nofun nofun
    | _ => simp only [Completes, hmutexes, hsemaphores, hbarriers]
  rcases hstages u with heq | ⟨m, ⟨hx, hs⟩ | ⟨hx, hs⟩⟩
  · have hiff : s.Proceeds u ↔ x.Proceeds u := by
      unfold Proceeds
      rw [heq]
      cases (x.pcs u).stage with
      | pending k => exact hcompletes k
      | resumed k => exact hcompletes k
      | _ => rfl
    exact ⟨hiff.mp, fun hproceeds => Or.inl (hiff.mpr hproceeds)⟩
  · refine ⟨fun _ => ?_, fun _ => Or.inr ⟨m, Or.inl ⟨hx, hs⟩⟩⟩
    rw [Proceeds, hx]
    trivial
  · refine ⟨fun _ => ?_, fun _ => Or.inr ⟨m, Or.inr hs⟩⟩
    rw [Proceeds, hx]
    trivial

-- Who would be enabled without the tester can go on, and who can go on would be enabled or is at a
-- trylock of a mutex that is held.
theorem Halfway.proceeds {s x : System (RandomActiveTester ρ)} {c : Control} {t : ThrID}
    {str tracker : ExecutionTracker} {seff : Effect} {info : SchedPointInfo} {r : Rest}
    {te : RandomActiveTester ρ}
    (h : Halfway isLockRace s x c t str seff (.schedule info r) (tracker, te)) (u : ThrID) :
    (str.isEnabled u = true → (x.calling t tracker r).Proceeds u) ∧
      ((x.calling t tracker r).Proceeds u → str.isEnabled u = true ∨
        ∃ m o, ((x.calling t tracker r).pcs u).stage = .pending (.trylock m) ∧
          tracker.mutexes m = .held o) := by
  obtain ⟨info', r', hseff, hrest⟩ : ∃ info' r', seff = .schedule info' r' ∧
      (r' = r ∨ r' = r.locked) := by
    rcases h.ends with ⟨hlike, _⟩ | ⟨_, _, info', m, _, hseff, heff⟩
    · obtain ⟨info', hseff, _⟩ := Effect.like_schedule hlike
      exact ⟨info', r, hseff, Or.inl rfl⟩
    · cases heff
      exact ⟨info', _, hseff, Or.inr rfl⟩
  have hrun := h.run
  rw [hseff] at hrun
  obtain ⟨hsection, _, rfl⟩ :=
    System.Serial.calls h.serial (h.may (System.guide none none) 0 .exit) hrun
  obtain ⟨htracked, hc, hlate⟩ := System.Tracked.calling h.serial h.tracked hsection hrun
  have hiff := htracked.isEnabled_iff hc hlate u
  have hshade : str.shade tracker = tracker := h.covers.shadow.same
  have hpcs (w : ThrID) : (s.calling t str r').pcs w = (x.calling t tracker r).pcs w ∨
      (s.calling t str r').pcs w = ((x.calling t tracker r).pcs w).locked := by
    by_cases hwt : w = t
    · subst hwt
      have hs : (s.calling w str r').pcs w = .launched r' := Function.update_self _ _ _
      have hx : (x.calling w tracker r).pcs w = .launched r := Function.update_self _ _ _
      rw [hs, hx]
      rcases hrest with rfl | rfl
      · exact Or.inl rfl
      · exact Or.inr rfl
    · have hs : (s.calling t str r').pcs w = s.pcs w := Function.update_of_ne hwt _ _
      have hx : (x.calling t tracker r).pcs w = x.pcs w := Function.update_of_ne hwt _ _
      rw [hs, hx]
      exact h.pcs w hwt
  have hbarriers : (s.calling t str r').barriers = (x.calling t tracker r).barriers := by
    show s.barriers.observe t (s.pcs t) = x.barriers.observe t (x.pcs t)
    rw [h.alike.observe, h.barriers]
  have hmutexes : str.mutexes = tracker.mutexes := by
    rw [← hshade]
    rfl
  have hsemaphores : str.semaphores = tracker.semaphores := by
    rw [← hshade]
    rfl
  obtain ⟨hforth, hback⟩ := System.Proceeds.locked (s := s.calling t str r')
    (x := x.calling t tracker r) hpcs hmutexes hsemaphores hbarriers u
  refine ⟨fun henabled => hforth (hiff.mp henabled), fun hproceeds => ?_⟩
  by_cases henabled : str.isEnabled u = true
  · exact Or.inl henabled
  · have hblocked : ¬(s.calling t str r').Proceeds u := fun hs => henabled (hiff.mpr hs)
    rcases hback hproceeds with hs | ⟨m, ⟨hx, hs⟩ | hs⟩
    · exact absurd hs hblocked
    · right
      have halive := htracked.alive u m (by rw [hs]; rfl)
      have hfree : (s.calling t str r').tracker.mutexes m ≠ .free := by
        intro hfree
        refine hblocked ?_
        rw [System.Proceeds, hs]
        exact hfree
      rw [← hmutexes]
      have hsame : (s.calling t str r').tracker.mutexes m = str.mutexes m := rfl
      rw [hsame] at halive hfree
      cases hmutex : str.mutexes m with
      | free => exact absurd hmutex hfree
      | held o => exact ⟨m, o, hx, hmutex⟩
      | destroyed => exact absurd hmutex halive
    · -- nobody has been launched yet
      exfalso
      by_cases hut : u = t
      · subst hut
        have hat : (s.calling u str r').pcs u = .launched r' := Function.update_self _ _ _
        rw [hat] at hs
        cases r' with
        | _ => cases hs
      · have hat : (s.calling t str r').pcs u = s.pcs u := Function.update_of_ne hut _ _
        rw [hat] at hs
        exact h.serial.controlled.no_resume (fun w hwt heq => hwt (Control.running.inj heq).symm)
          u hut _ hs

-- A launch does not end the run for a deadlock.
theorem System.launchThread_stopped {σ : Type} {v : Virtual σ} (s : System σ) (target : ThrID)
    (point : SchedPointInfo) (hrunning : s.stopped = none) :
    (s.launchThread v target point).stopped ≠ some .programDeadlock := by
  unfold launchThread
  dsimp only
  split
  · nofun
  · split
    · nofun
    · split
      · rw [hrunning]
        nofun
      · rename_i reason hlaunch
        unfold ExecutionTracker.launch waitWakeThread wakeThread at hlaunch
        split at hlaunch
        · split at hlaunch <;> cases hlaunch
          nofun
        · split at hlaunch <;> cases hlaunch
          nofun

namespace RandomActiveTester

variable {x x' : System (RandomActiveTester ρ)} {t : ThrID} {turns : Nat} {ret_addr addr : Addr}
  {op : Op} {xtr : ExecutionTracker} {info : SchedPointInfo} {r : Rest}

theorem deadlockCheck_stopped (self : System (RandomActiveTester ρ)) :
    self.deadlockCheck.stopped = some .programDeadlock ↔
      ∀ u, self.tracker.isEnabled u = false := by
  have hany : (self.tracker.enable_map.toList.any fun entry => entry.2) = true ↔
      ∃ u, self.tracker.isEnabled u = true := by
    rw [List.any_eq_true]
    refine ⟨fun ⟨entry, hmem, hvalue⟩ => ⟨entry.1, ?_⟩, fun ⟨u, henabled⟩ => ⟨(u, true), ?_, rfl⟩⟩
    · exact (OrderedMap.mem_toList_getD _ entry.1 entry.2 false hmem).trans hvalue
    · have hvalue : self.tracker.enable_map.getD u false = true := henabled
      have hmem := OrderedMap.getD_mem_toList self.tracker.enable_map u false
        (OrderedMap.mem_of_getD_ne _ _ _ (by rw [hvalue]; nofun))
      rwa [hvalue] at hmem
  unfold System.deadlockCheck
  split
  · rename_i hsome
    refine iff_of_false nofun fun hnobody => ?_
    obtain ⟨u, henabled⟩ := hany.mp hsome
    rw [hnobody u] at henabled
    cases henabled
  · rename_i hnone
    refine iff_of_true rfl fun u => ?_
    by_contra henabled
    exact hnone (hany.mpr ⟨u, by simpa using henabled⟩)

-- A call of `schedule` ends the run for a deadlock where nobody has been found, and only there.
theorem perform_schedule_stopped {v : ActiveVirtual ρ} (self : System (RandomActiveTester ρ))
    (pc : Pc) (hrunning : self.stopped = none)
    (hfailed : (perform v randInt turns self t pc (.schedule info r)).scheduler.failed = none) :
    ∃ choice tracker te, choose v randInt turns self
        { info with enabled := self.tracker.enable_map } = .ok (choice, tracker, te) ∧
      ((perform v randInt turns self t pc (.schedule info r)).stopped = some .programDeadlock ↔
        self.log.getNextScheduleChoice.1 = none ∧ choice = none ∧
          ∀ u, tracker.isEnabled u = false) := by
  cases hchoose : choose v randInt turns self { info with enabled := self.tracker.enable_map } with
  | error failure =>
      rw [perform, hchoose] at hfailed
      cases hfailed
  | ok result =>
      obtain ⟨choice, tracker, te⟩ := result
      refine ⟨choice, tracker, te, rfl, ?_⟩
      have hperform : (perform v randInt turns self t pc (.schedule info r)).stopped =
          (({ self with tracker, scheduler := te }).schedule (virtual randInt choice)
            { info with enabled := self.tracker.enable_map }).stopped := by
        rw [perform, hchoose]
        simp only [System.perform]
        split
        · rfl
        · rfl
      rw [hperform]
      unfold System.schedule
      cases hnext : self.log.getNextScheduleChoice with
      | mk next log =>
          cases next with
          | some target =>
              refine iff_of_false (System.launchThread_stopped _ _ _ hrunning) fun hnone => ?_
              cases hnone.1
          | none =>
              cases choice with
              | some u =>
                  refine iff_of_false (System.launchThread_stopped _ _ _ hrunning) fun hnone => ?_
                  cases hnone.2.1
              | none =>
                  have hdeadlock := deadlockCheck_stopped
                    ({ self with tracker, scheduler := te } : System (RandomActiveTester ρ))
                  exact hdeadlock.trans ⟨fun hnobody => ⟨rfl, rfl, hnobody⟩, fun hnone => hnone.2.2⟩

-- A deadlock is reported only where every thread that can go on is at a trylock of a mutex that is
-- held, and it is reported where no thread can go on.
theorem programDeadlock_trylocks (isLockRace : Bool) (randInt : ρ → Nat × ρ)
    (h : Reachable (RandactHandler.getNewExecutionTracker isLockRace) randInt System.Posix x)
    (hstep : step (RandactHandler.getNewExecutionTracker isLockRace) randInt turns x t ret_addr op
      addr = some x')
    (hrun : x.tracker.runSection t (x.pcs t) = .ok (xtr, .schedule info r))
    (hfailed : x'.scheduler.failed = none) :
    ∃ tracker te, x.scheduler.handle (RandactHandler.getNewExecutionTracker isLockRace) xtr t
        (x.pcs t) = .ok (tracker, te) ∧
      (x'.stopped = some .programDeadlock → ∀ u, (x.calling t tracker r).Proceeds u →
        ∃ m o, ((x.calling t tracker r).pcs u).stage = .pending (.trylock m) ∧
          tracker.mutexes m = .held o) ∧
      (x.log.read_schedule = [] → (∀ u, ¬(x.calling t tracker r).Proceeds u) →
        x'.stopped = some .programDeadlock) := by
  obtain ⟨hrunning, hfailed'⟩ := Sim.runs_of_step hstep
  obtain ⟨s, c, hsim⟩ := h.sim hrunning hfailed'
  obtain ⟨s', str, seff, ⟨tracker, te⟩, hhandled, hhalfway⟩ := hsim.calls hstep hrun
  have hsection : (x.pcs t).isSection = true := by
    rw [← hhalfway.alike.isSection]
    exact hhalfway.at_section
  obtain ⟨hx', _⟩ := hsim.runs hstep hsection
  obtain ⟨called, hcalled⟩ : ∃ called : System (RandomActiveTester ρ), called = { x with
      tracker
      scheduler := te
      barriers := x.barriers.observe t (x.pcs t) } := ⟨_, rfl⟩
  have hperform : x' = perform (RandactHandler.getNewExecutionTracker isLockRace) randInt turns
      called t (x.pcs t) (.schedule info r) := by
    rw [hx', runThread, hrun, hcalled]
    simp only [hhandled]
  rw [hperform] at hfailed
  obtain ⟨choice, tracker', te', hchoose, hiff⟩ :=
    perform_schedule_stopped called _ (by rw [hcalled]; exact hrunning) hfailed
  subst hcalled
  rw [← hperform] at hiff
  -- where the choice is not in the log, it is the picker's
  have hpicks (hnext : x.log.getNextScheduleChoice.1 = none) :
      Picks isLockRace (seff.stages t fun u => (s'.pcs u).stage) (fun u => s'.pcs u ≠ x.pcs u) str
        te choice tracker' te' := by
    unfold choose at hchoose
    cases hlog : x.log.getNextScheduleChoice with
    | mk next log =>
        rw [hlog] at hnext
        obtain rfl : next = none := hnext
        simp only [hlog] at hchoose
        exact picks_of_ok (reenables (hhalfway.settled rfl)) hhalfway.covers hchoose
  refine ⟨tracker, te, hhandled, fun hdeadlock u hproceeds => ?_, fun hread hnobody => ?_⟩
  · obtain ⟨hnext, hnone, _⟩ := hiff.mp hdeadlock
    rcases (hhalfway.proceeds u).2 hproceeds with henabled | htrylock
    · rw [((hpicks hnext).nobody hnone u).2] at henabled
      cases henabled
    · exact htrylock
  · have hnext : x.log.getNextScheduleChoice.1 = none := by
      rw [Logger.getNextScheduleChoice, System.getNextChoice_of_nil hread]
    have hdisabled (u : ThrID) : tracker'.isEnabled u = false := by
      by_contra henabled
      have hboth := (isEnabled_iff (hpicks hnext).covers u).mp (by simpa using henabled)
      exact hnobody u ((hhalfway.proceeds u).1 hboth.1)
    refine hiff.mpr ⟨hnext, ?_, hdisabled⟩
    cases hchoice : choice with
    | none => rfl
    | some u =>
        have henabled := ((hpicks hnext).chosen u hchoice).1
        rw [hdisabled u] at henabled
        cases henabled

-- The main thread takes mutex 5 and comes to it again.
theorem programDeadlock_trylocks_twice :
    ∃ x x' : System (RandomActiveTester Unit), ∃ xtr info r tracker, lockRun ((0, 7, .mutexLock 5, 0) :: List.replicate 5 (0, 0, .exit, 0) ++
        [(0, 7, .mutexLock 5, 0)]) = some x ∧
      x.tracker.runSection 0 (x.pcs 0) = .ok (xtr, .schedule info r) ∧
      x'.stopped = some .programDeadlock ∧ ∀ u, (x.calling 0 tracker r).Proceeds u →
        ∃ m o, ((x.calling 0 tracker r).pcs u).stage = .pending (.trylock m) ∧
          tracker.mutexes m = .held o := by
  have hany : (lockRun ((0, 7, .mutexLock 5, 0) :: List.replicate 5 (0, 0, .exit, 0) ++
      [(0, 7, .mutexLock 5, 0)])).any (fun x =>
      ((step (RandactHandler.getNewExecutionTracker true) (fun _ => (2, ())) 9 x 0 0 .exit 0).any
        fun x' => x'.scheduler.failed.isNone && x'.stopped == some .programDeadlock) &&
      (x.tracker.runSection 0 (x.pcs 0)).toOption.any fun result => result.2.isSchedule) =
      true := by
    decide +kernel
  obtain ⟨x, hx, hstate⟩ := Option.any_eq_true _ _ |>.mp hany
  obtain ⟨hsome, hsection⟩ := Bool.and_eq_true_iff.mp hstate
  obtain ⟨x', hstep, hends⟩ := Option.any_eq_true _ _ |>.mp hsome
  simp only [Bool.and_eq_true, Option.isNone_iff_eq_none, beq_iff_eq] at hends
  obtain ⟨hfailed, hdeadlock⟩ := hends
  cases hrun : x.tracker.runSection 0 (x.pcs 0) with
  | error reason =>
      rw [hrun] at hsection
      cases hsection
  | ok result =>
      obtain ⟨xtr, eff⟩ := result
      rw [hrun] at hsection
      cases eff with
      | schedule info r =>
          obtain ⟨tracker, te, _, honly, _⟩ := programDeadlock_trylocks true (fun _ => (2, ()))
            (reachable_of_run _ hx) hstep hrun hfailed
          exact ⟨x, x', xtr, info, r, tracker, hx, hrun, hdeadlock, honly hdeadlock⟩
      | _ => cases hsection

-- A lock race is reported only where the caller and somebody else are about to take one mutex.
theorem raceFound_is_real (randInt : ρ → Nat × ρ)
    (h : Reachable (RandactHandler.getNewExecutionTracker true) randInt System.Posix x)
    (hstep : step (RandactHandler.getNewExecutionTracker true) randInt turns x t ret_addr op
      addr = some x')
    (hno : x.scheduler.raceFound = false) (hfound : x'.scheduler.raceFound = true) :
    ∃ site m u, (site = x.scheduler.target1 ∨ site = x.scheduler.target2) ∧
      (x.pcs t = .enter site (.mutexLock m) ∨ x.pcs t = .enter site (.mutexTrylock m) ∨
        ∃ w, x.pcs t = .relock w ∧ w.ret_addr = site ∧ w.lock = m) ∧
      u ≠ t ∧ x.scheduler.isPaused u = true ∧
      ∃ k, (x.pcs u).stage = .pending k ∧ k.mutex = some m := by
  obtain ⟨hrunning, hfailed⟩ := Sim.runs_of_step hstep
  obtain ⟨s, c, hsim⟩ := h.sim hrunning hfailed
  obtain ⟨site, m, iswrite, u, hwatched, htarget, hut, hpaused, haddr⟩ :=
    (hsim.step_kept hstep).2 hno hfound
  refine ⟨site, m, u, htarget, ?_, hut, hpaused, ?_⟩
  · cases hpc : x.pcs t with
    | enter site' op' =>
        rw [hpc] at hwatched
        cases op' with
        | mutexLock lock =>
            cases hwatched
            exact Or.inl rfl
        | mutexTrylock lock =>
            cases hwatched
            exact Or.inr (Or.inl rfl)
        | point p => cases p <;> cases hwatched
        | _ => cases hwatched
    | relock w =>
        rw [hpc] at hwatched
        cases hwatched
        exact Or.inr (Or.inr ⟨w, rfl, rfl, rfl⟩)
    | _ =>
        rw [hpc] at hwatched
        cases hwatched
  · obtain ⟨_, k, hst, hmutex, _⟩ : (x.scheduler.infoOf u).me = some u ∧ ∃ k : Pending,
        (s.pcs u).stage = .pending k ∧ k.mutex = some (x.scheduler.infoOf u).addr ∧
        ∀ m, k ≠ .trylock m := hsim.covers.known u hpaused
    rw [haddr] at hmutex
    rcases hsim.pcs u with heq | heq
    · exact ⟨k, by rw [← heq, hst], hmutex⟩
    · have hst' := hst
      rw [heq] at hst'
      rcases (x.pcs u).stage_locked with hsame | ⟨lock, ⟨hx, hs⟩ | ⟨_, hs⟩⟩
      · exact ⟨k, by rw [← hsame, hst'], hmutex⟩
      · rw [hs] at hst'
        cases hst'
        exact ⟨.trylock lock, hx, hmutex⟩
      · rw [hs] at hst'
        cases hst'

-- The main thread comes to the mutex for which thread 1 is postponed.
theorem raceFound_is_real_second :
    ∃ x, lockRun (lockRace.take 17) = some x ∧ ∃ site m u,
      (site = x.scheduler.target1 ∨ site = x.scheduler.target2) ∧
      (x.pcs 0 = .enter site (.mutexLock m) ∨ x.pcs 0 = .enter site (.mutexTrylock m) ∨
        ∃ w, x.pcs 0 = .relock w ∧ w.ret_addr = site ∧ w.lock = m) ∧
      u ≠ 0 ∧ x.scheduler.isPaused u = true ∧
      ∃ k, (x.pcs u).stage = .pending k ∧ k.mutex = some m := by
  have hany : (lockRun (lockRace.take 17)).any (fun x => !x.scheduler.raceFound &&
      (step (RandactHandler.getNewExecutionTracker true) (fun _ => (2, ())) 9 x 0 0 .exit 0).any
        fun x' => x'.scheduler.raceFound) = true := by
    decide +kernel
  obtain ⟨x, hx, hstate⟩ := Option.any_eq_true _ _ |>.mp hany
  obtain ⟨hno, hsome⟩ := Bool.and_eq_true_iff.mp hstate
  obtain ⟨x', hstep, hfound⟩ := Option.any_eq_true _ _ |>.mp hsome
  exact ⟨x, hx, raceFound_is_real (fun _ => (2, ())) (reachable_of_run _ hx) hstep
    (by simpa using hno) hfound⟩

end RandomActiveTester

end Thrille
