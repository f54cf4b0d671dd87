import Thrille.Serializer.Tracked

namespace Thrille

open ExecutionTracker OrderedMap

-- A picker that chooses among the enabled threads, and nobody only if there are none.
def Virtual.Chooses {σ : Type} (v : Virtual σ) : Prop :=
  ∀ scheduler info,
    match (v.pickNextSchedulingChoice scheduler info).1 with
    | some u => info.enabled.getD u false = true
    | none => ∀ u, info.enabled.getD u false = false

theorem ExecutionTracker.chooses : ExecutionTracker.virtual.Chooses := by
  intro scheduler info
  cases hfind : info.enabled.toList.find? fun entry => entry.2 with
  | none =>
      have hpick : (ExecutionTracker.virtual.pickNextSchedulingChoice scheduler info).1 = none := by
        simp only [ExecutionTracker.virtual, hfind, Option.map_none]
      rw [hpick]
      intro u
      by_contra hnot
      have hmem := getD_mem_toList info.enabled u false (mem_of_getD_ne _ _ _ hnot)
      have henabled := List.find?_eq_none.mp hfind _ hmem
      exact hnot (by simpa using henabled)
  | some entry =>
      have hpick : (ExecutionTracker.virtual.pickNextSchedulingChoice scheduler info).1 =
          some entry.1 := by
        simp only [ExecutionTracker.virtual, hfind, Option.map_some]
      rw [hpick]
      have hvalue : entry.2 = true := by simpa using List.find?_some hfind
      have hmem := mem_toList_getD info.enabled entry.1 entry.2 false (List.mem_of_find?_eq_some hfind)
      show info.enabled.getD entry.1 false = true
      rw [hmem, hvalue]

namespace System

variable {σ : Type} {v : Virtual σ} {s s' : System σ} {t : ThrID} {ret_addr : Addr} {op : Op}
  {c : Control} {tr : ExecutionTracker} {info : SchedPointInfo} {r : Rest}

-- Whether the pending operation of a thread can complete now.
def Completes (s : System σ) (u : ThrID) : Pending → Prop
  | .lock lock => s.tracker.mutexes lock = .free
  | .relock w _ => s.tracker.mutexes w.lock = .free
  | .semWait sem => 0 < s.tracker.semaphores sem
  | .join target => (s.pcs target).stage = .finished
  | .barrier barrier => s.barriers.joined u < s.barriers.generation barrier
  | _ => True

-- Whether a thread is there, has not finished and can go on; one that waits without a signal can
-- when its wait is timed.
def Proceeds (s : System σ) (u : ThrID) : Prop :=
  match (s.pcs u).stage with
  | .unborn => False
  | .active => True
  | .between w => w.timed = true
  | .waiting w => w.timed = true
  | .pending k => s.Completes u k
  | .resumed k => s.Completes u k
  | .finished => False

-- The state in which thread `t` calls `schedule`, after which it is to rest at `r`.
def calling (s : System σ) (t : ThrID) (tr : ExecutionTracker) (r : Rest) : System σ :=
  { s.goto t (.launched r) with tracker := tr, barriers := s.barriers.observe t (s.pcs t) }

-- Who is enabled can go on, and who can go on is enabled.
theorem Tracked.isEnabled_iff (h : Tracked s)
    (hc : Consistent s.tracker fun u => (s.pcs u).stage) (hlate : ∀ u, (s.pcs u).late = none)
    (u : ThrID) : s.tracker.isEnabled u = true ↔ s.Proceeds u := by
  obtain ⟨late, hmaps, hiff⟩ := h.locks
  have hnone : late = none := by
    apply Option.ext
    intro m
    rw [hiff m]
    refine ⟨fun ⟨x, hx⟩ => ?_, nofun⟩
    rw [hlate x] at hx
    cases hx
  rw [hnone] at hmaps
  have hentry : s.tracker.isEnabled u = (s.tracker.entries u).enabled := rfl
  have hfit := hc.fits u
  rw [hentry]
  unfold Proceeds
  -- a thread that is at a mutex
  have hlock (m : Addr) (hmutex : (s.pcs u).stage.mutex = some m)
      (hmutexFit : s.tracker.entries u = { enabled := true, lockReady := some m } ∨
        s.tracker.entries u = { enabled := false, lockWait := some m }) :
      (s.tracker.entries u).enabled = true ↔ s.tracker.mutexes m = .free := by
    have halive := h.alive u m hmutex
    rcases hmutexFit with hready | hwait
    · have hnot := hmaps.ready u m (by rw [hready])
      rw [hready]
      refine iff_of_true rfl ?_
      cases hm : s.tracker.mutexes m with
      | free => rfl
      | held o => exact absurd hm (hnot o)
      | destroyed => exact absurd hm halive
    · obtain ⟨o, ho⟩ := (hmaps.wait u m (by rw [hwait])).resolve_left nofun
      rw [hwait, ho]
      exact iff_of_false Bool.false_ne_true nofun
  have hpending (k : Pending) (hstage : (s.pcs u).stage = .pending k ∨
      (s.pcs u).stage = .resumed k) (hk : k.Fits s.tracker.finish_map (s.tracker.entries u)) :
      (s.tracker.entries u).enabled = true ↔ s.Completes u k := by
    have hmutex (m : Addr) (hm : k.mutex = some m) : (s.pcs u).stage.mutex = some m := by
      rcases hstage with hst | hst
      · rw [hst]
        exact hm
      · rw [hst]
        exact hm
    cases k with
    | lock m => exact hlock m (hmutex m rfl) hk
    | relock w timedOut => exact hlock w.lock (hmutex w.lock rfl) hk
    | semWait sem =>
        rcases hk with hready | hwait
        · have hpos := h.sems.ready u sem (by rw [hready])
          rw [hready]
          exact iff_of_true rfl hpos
        · have hzero := h.sems.wait u sem (by rw [hwait])
          rw [hwait]
          refine iff_of_false Bool.false_ne_true ?_
          show ¬0 < s.tracker.semaphores sem
          omega
    | join target =>
        have hdone : s.tracker.entries u = { enabled := s.tracker.finish_map target } := hk
        rw [hdone, hc.finished_eq target]
        exact decide_eq_true_iff
    | barrier b =>
        have hat : (s.pcs u).stage.At b := hstage
        obtain ⟨_, hpassed⟩ := h.meets.passed u b hat
        have hmem : u ∈ s.tracker.bt.getThreadsWaitingOnBarrier b ↔
            (s.tracker.entries u).barrier = some b := PtrMap.mem_threadsAt _ _ _
        rcases hk with hgo | hwait
        · rw [hgo] at hmem ⊢
          refine iff_of_true rfl (hpassed fun hin => ?_)
          cases hmem.mp hin
        · rw [hwait] at hmem ⊢
          have hjoined := h.meets.waiting u b (hmem.mpr rfl)
          refine iff_of_false Bool.false_ne_true ?_
          show ¬s.barriers.joined u < s.barriers.generation b
          omega
    | start =>
        rw [show s.tracker.entries u = { enabled := true } from hk]
        exact iff_of_true rfl trivial
    | simple ret_val =>
        rw [show s.tracker.entries u = { enabled := true } from hk]
        exact iff_of_true rfl trivial
    | trylock m =>
        rw [show s.tracker.entries u = { enabled := true } from hk]
        exact iff_of_true rfl trivial
  cases hst : (s.pcs u).stage with
  | unborn =>
      rw [hst] at hfit
      rw [show s.tracker.entries u = { enabled := false } from hfit]
      exact iff_of_false Bool.false_ne_true id
  | active =>
      rw [hst] at hfit
      rw [show s.tracker.entries u = { enabled := true } from hfit]
      exact iff_of_true rfl trivial
  | between w =>
      rw [hst] at hfit
      rw [show s.tracker.entries u = { enabled := w.timed } from hfit]
  | waiting w =>
      rw [hst] at hfit
      rw [show s.tracker.entries u = { enabled := w.timed, cond := some w.cond } from hfit]
  | pending k =>
      rw [hst] at hfit
      exact hpending k (Or.inl hst) hfit
  | resumed k =>
      rw [hst] at hfit
      exact hpending k (Or.inr hst) hfit.1
  | finished =>
      rw [hst] at hfit
      rw [show s.tracker.entries u = { enabled := false, finished := true } from hfit]
      exact iff_of_false Bool.false_ne_true id

-- A thread calls `schedule` only when it is its turn.
theorem Serial.calls (hserial : Serial s c) (hstep : s.step v t ret_addr op = some s')
    (hrun : s.tracker.runSection t (s.pcs t) = .ok (tr, .schedule info r)) :
    (s.pcs t).isSection = true ∧ s' = s.runThread v t (s.pcs t) ∧ c = .running t := by
  have hsection : (s.pcs t).isSection = true := by
    cases hpc : s.pcs t <;> first
      | rfl
      | rw [hpc] at hrun
        cases hrun
  obtain ⟨hrunning, htransition⟩ := step_iff.mp hstep
  have hready : s.ready (s.pcs t) = true ∧ s' = s.runThread v t (s.pcs t) := by
    rw [step_section hrunning hsection] at hstep
    split at hstep
    · rename_i hguard
      exact ⟨(Bool.and_eq_true_iff.mp hguard).2, (Option.some.inj hstep).symm⟩
    · cases hstep
  refine ⟨hsection, hready.2, ?_⟩
  rcases hserial.controlled.section_cases hsection
    (fun sig u hat => by rw [hat] at hready; exact hready.1)
    with hc | ⟨w, hat, hsignalled, _⟩ | ⟨x, w, _, hat⟩
  · exact hc
  · rw [hat] at hrun
    simp only [ExecutionTracker.runSection, ExecutionTracker.checkTimeout, if_pos hsignalled]
      at hrun
    cases hrun
  · rcases hat with hat | hat | hat
    · rw [hat] at hrun
      cases hrun
    · rw [hat] at hrun
      simp only [ExecutionTracker.runSection, ExecutionTracker.beforeMutexLockInWait,
        safe_assert_bind] at hrun
      cases hrun.2
    · rw [hat] at hrun
      cases hrun

theorem Tracked.calling (hserial : Serial s (.running t)) (h : Tracked s)
    (hsection : (s.pcs t).isSection = true)
    (hrun : s.tracker.runSection t (s.pcs t) = .ok (tr, .schedule info r)) :
    Tracked (s.calling t tr r) ∧
      Consistent tr (fun u => ((s.calling t tr r).pcs u).stage) ∧
      ∀ u, ((s.calling t tr r).pcs u).late = none := by
  have hne (u : ThrID) (hut : u ≠ t) : Control.running t ≠ .running u :=
    fun heq => hut (Control.running.inj heq).symm
  have hself : (s.calling t tr r).pcs t = .launched r := Function.update_self _ _ _
  refine ⟨?_, ?_, fun u => ?_⟩
  · refine h.runSection hserial hne hrun rfl rfl rfl rfl ?_ (fun info' r' heq => ?_) fun u hut => ?_
    · rw [hself]
      exact runSection_leads _ hsection hrun
    · cases heq
      exact hself
    · exact Or.inl (Function.update_of_ne hut _ _)
  · have hc := hserial.consistent.runSection (s.pcs t) rfl
      (fun u hu k => hserial.controlled.no_resume hne u hu k)
      (fun ra child rv heq => by rw [(hserial.controlled.child t ra child rv heq).1]; rfl) hrun
    have hstages : (fun u => ((s.calling t tr r).pcs u).stage) =
        Function.update (fun u => (s.pcs u).stage) t r.stage := Pc.stage_update _ _ _
    rw [hstages]
    exact hc
  · by_cases hut : u = t
    · rw [hut, hself]
      rfl
    · rw [show (s.calling t tr r).pcs u = s.pcs u from Function.update_of_ne hut _ _]
      cases hpc : s.pcs u with
      | afterUnlock addr lock ret_val =>
          refine absurd (hserial.controlled.runner (t := u) ?_ ?_ ?_) (hne u hut)
          · rw [hpc]
            rfl
          · rw [hpc]
            rfl
          · rw [hpc]
            exact fun _ _ => nofun
      | _ => rfl

-- The run is ended for a deadlock only where the picker has nobody to choose.
theorem programDeadlock_iff (hv : v.Chooses) (hread : s.log.read_schedule = [])
    (henabled : info.enabled = s.tracker.enable_map) (hrunning : s.stopped = none) :
    (s.schedule v info).stopped = some .programDeadlock ↔
      ∀ u, s.tracker.isEnabled u = false := by
  have hnext : s.log.getNextScheduleChoice = (none, s.log) := by
    unfold Logger.getNextScheduleChoice Logger.getNextChoice
    rw [hread]
  have hchooses := hv s.scheduler info
  have hlaunch (self : System σ) (target : ThrID) (point : SchedPointInfo)
      (hself : self.stopped = none) :
      (self.launchThread v target point).stopped ≠ some .programDeadlock := by
    unfold launchThread
    dsimp only
    split
    · nofun
    · split
      · nofun
      · split
        · rw [hself]
          nofun
        · rename_i reason herror
          unfold ExecutionTracker.launch waitWakeThread wakeThread at herror
          split at herror
          · split at herror
            · cases herror
            · cases herror
              nofun
          · split at herror
            · cases herror
            · cases herror
              nofun
  unfold schedule
  rw [hnext]
  dsimp only
  cases hpick : (v.pickNextSchedulingChoice s.scheduler info).1 with
  | none =>
      rw [hpick, henabled] at hchooses
      dsimp only at hchooses ⊢
      refine iff_of_true ?_ hchooses
      have hnobody : (s.tracker.enable_map.toList.any fun entry => entry.2) = false := by
        rw [List.any_eq_false]
        intro entry hmem henabled
        have hvalue := mem_toList_getD s.tracker.enable_map entry.1 entry.2 false hmem
        rw [hchooses entry.1] at hvalue
        rw [← hvalue] at henabled
        cases henabled
      unfold deadlockCheck
      rw [if_neg (by rw [hnobody]; nofun)]
      rfl
  | some u =>
      rw [hpick, henabled] at hchooses
      dsimp only at hchooses ⊢
      refine iff_of_false (hlaunch _ _ _ hrunning) fun hnobody => ?_
      have hfalse : s.tracker.enable_map.getD u false = false := hnobody u
      rw [hchooses] at hfalse
      cases hfalse

-- At every call of `schedule` the enabled threads are those that can go on, a deadlock is found
-- exactly where there are none, and a thread that was launched finds what it was launched for.
theorem enabled_iff_proceeds (v : Virtual σ) (hv : v.Chooses) (s : System σ)
    (h : Reachable v Posix s) (hrunning : s.stopped = none) :
    (∀ t ret_addr op s' tr info r, s.step v t ret_addr op = some s' →
      s.tracker.runSection t (s.pcs t) = .ok (tr, .schedule info r) →
      (∀ u, tr.isEnabled u = true ↔ (s.calling t tr r).Proceeds u) ∧
      (s.log.read_schedule = [] → (s'.stopped = some .programDeadlock ↔
        ∀ u, ¬(s.calling t tr r).Proceeds u))) ∧
    (∀ t lock, (s.pcs t = .resume (.lock lock) ∨
        ∃ w timedOut, s.pcs t = .resume (.relock w timedOut) ∧ w.lock = lock) →
      (s.tracker.simulateMutexLock t lock).1 = OPERATION_SUCCESSFUL ∧
      (s.tracker.simulateMutexLock t lock).2.mutexes lock = .held t) ∧
    ∀ t sem, s.pcs t = .resume (.semWait sem) → 0 < s.tracker.semaphores sem := by
  have htracked := h.tracked hrunning
  obtain ⟨c, hserial⟩ : ∃ c, Serial s c := by
    rcases h.serial with hserial | hhalted
    · exact hserial
    · exact absurd hrunning hhalted.stopped
  refine ⟨fun t ret_addr op s' tr info r hstep hrun => ?_, fun t lock hpc => ?_,
    fun t sem hpc => ?_⟩
  · obtain ⟨hsection, rfl, rfl⟩ := Serial.calls hserial hstep hrun
    obtain ⟨hcalling, hc, hlate⟩ := Tracked.calling hserial htracked hsection hrun
    have hiff (u : ThrID) : tr.isEnabled u = true ↔ (s.calling t tr r).Proceeds u :=
      hcalling.isEnabled_iff hc hlate u
    refine ⟨hiff, fun hread => ?_⟩
    obtain ⟨_, henabled, _⟩ := runSection_follows _ hrun
    have hstopped : (s.runThread v t (s.pcs t)).stopped =
        (schedule v { s with
          tracker := tr
          barriers := s.barriers.observe t (s.pcs t) } info).stopped := by
      unfold runThread
      rw [hrun]
      simp only [perform]
      split
      · rfl
      · rfl
    rw [hstopped]
    refine (programDeadlock_iff (s := { s with
      tracker := tr
      barriers := s.barriers.observe t (s.pcs t) }) hv hread henabled hrunning).trans ?_
    refine forall_congr' fun u => ?_
    rw [← hiff u, Bool.not_eq_true]
  · have hstage : ∃ k, (s.pcs t).stage = .resumed k ∧
        (k = .lock lock ∨ ∃ w timedOut, k = .relock w timedOut ∧ w.lock = lock) := by
      rcases hpc with hpc | ⟨w, timedOut, hpc, hw⟩
      · exact ⟨_, by rw [hpc]; rfl, Or.inl rfl⟩
      · exact ⟨_, by rw [hpc]; rfl, Or.inr ⟨w, timedOut, rfl, hw⟩⟩
    obtain ⟨k, hst, hk⟩ := hstage
    have hready := hserial.consistent.ready_of_resumed hst hk
    have halive := htracked.alive t lock (hserial.consistent.mutex_of_entry (Or.inl hready))
    obtain ⟨late, hmaps, _⟩ := htracked.locks
    have hfree : s.tracker.mutexes lock = .free := by
      cases hm : s.tracker.mutexes lock with
      | free => rfl
      | held o => exact absurd hm (hmaps.ready t lock hready o)
      | destroyed => exact absurd hm halive
    have hsame : (s.tracker.threadHasAcquiredLock t lock).mutexes lock = .free := hfree
    unfold ExecutionTracker.simulateMutexLock ExecutionTracker.mutexTrylock
    rw [hsame]
    exact ⟨rfl, Function.update_self _ _ _⟩
  · have hst : (s.pcs t).stage = .resumed (.semWait sem) := by
      rw [hpc]
      rfl
    exact htracked.sems.ready t sem (hserial.consistent.semReady sem hst)

-- Operations that the rules never forbid.
theorem reachable_of_run (steps : List (ThrID × Addr × Op)) (scheduler : σ)
    (hsteps : ∀ step ∈ steps, ∀ s : System σ, s.Posix step.1 step.2.1 step.2.2)
    (hrun : (initial scheduler []).run v steps = some s) : Reachable v Posix s := by
  refine ⟨scheduler, [], ?_⟩
  have hfrom (start : System σ) (hrun : start.run v steps = some s) :
      Relation.ReflTransGen (Step v Posix) start s := by
    clear * - hsteps hrun
    induction steps generalizing start with
    | nil =>
        cases hrun
        exact .refl
    | cons next steps ih =>
        obtain ⟨thr, ret_addr, op⟩ := next
        simp only [run, List.foldlM_cons, Option.bind_eq_bind, Option.bind_eq_some_iff] at hrun
        obtain ⟨middle, hstep, hrest⟩ := hrun
        refine .head ⟨thr, ret_addr, op, hsteps _ (List.mem_cons_self ..) start, hstep⟩ ?_
        exact ih (fun step hmem => hsteps step (List.mem_cons_of_mem _ hmem)) middle hrest
  exact hfrom _ hrun

end System

def Effect.isSchedule : Effect → Bool
  | .schedule .. => true
  | _ => false

namespace System

-- The main thread has created a thread and joins it.
theorem enabled_iff_proceeds_join :
    ∃ s s' : System Unit, ∃ tr info r,
      (initial () []).run ExecutionTracker.virtual (joinChild.take 10) = some s ∧
      s.step ExecutionTracker.virtual 0 1 .exit = some s' ∧
      s.tracker.runSection 0 (s.pcs 0) = .ok (tr, .schedule info r) ∧
      (∀ u, tr.isEnabled u = true ↔ (s.calling 0 tr r).Proceeds u) ∧
      (s'.stopped = some .programDeadlock ↔ ∀ u, ¬(s.calling 0 tr r).Proceeds u) := by
  have hany : ((initial () []).run ExecutionTracker.virtual (joinChild.take 10)).any (fun s =>
      s.stopped.isNone && s.log.read_schedule.isEmpty &&
        (s.step ExecutionTracker.virtual 0 1 .exit).isSome &&
        (s.tracker.runSection 0 (s.pcs 0)).toOption.any fun result => result.2.isSchedule) =
      true := by
    decide +kernel
  obtain ⟨s, hs, hstate⟩ := Option.any_eq_true _ _ |>.mp hany
  simp only [Bool.and_eq_true, Option.isNone_iff_eq_none, List.isEmpty_iff] at hstate
  obtain ⟨⟨⟨hrunning, hread⟩, hsome⟩, hsection⟩ := hstate
  obtain ⟨s', hstep⟩ := Option.isSome_iff_exists.mp hsome
  have hreachable : Reachable ExecutionTracker.virtual Posix s := by
    refine reachable_of_run (joinChild.take 10) () (fun step hmem s => ?_) hs
    have hops : step.2.2 = .create 0 ∨ step.2.2 = .exit ∨ step.2.2 = .join 1 := by
      revert step
      decide
    rcases hops with hop | hop | hop
    · rw [hop]
      exact ⟨by rintro _ ⟨⟩, rfl⟩
    · rw [hop]
      exact ⟨by rintro _ ⟨⟩, trivial⟩
    · rw [hop]
      exact ⟨by rintro _ ⟨⟩, trivial⟩
  cases hrun : s.tracker.runSection 0 (s.pcs 0) with
  | error reason =>
      rw [hrun] at hsection
      cases hsection
  | ok result =>
      obtain ⟨tr, eff⟩ := result
      rw [hrun] at hsection
      cases eff with
      | schedule info r =>
          obtain ⟨hcalls, _⟩ := enabled_iff_proceeds ExecutionTracker.virtual
            ExecutionTracker.chooses s hreachable hrunning
          obtain ⟨hiff, hdeadlock⟩ := hcalls 0 1 .exit s' tr info r hstep hrun
          exact ⟨s, s', tr, info, r, hs, hstep, hrun, hiff, hdeadlock hread⟩
      | _ => cases hsection

end System

end Thrille
