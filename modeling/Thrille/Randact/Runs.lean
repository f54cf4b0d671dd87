import Thrille.Randact.Halfway

namespace Thrille

open ExecutionTracker

variable {ρ : Type}

theorem System.Performed.stages {t : ThrID} {pc : Pc} {tr tr' : ExecutionTracker}
    {pcs pcs' : ThrID → Pc} {eff : Effect} (h : System.Performed t pc tr pcs eff tr' pcs') :
    (fun u => (pcs' u).stage) = eff.stages t fun u => (pcs u).stage := by
  cases h with
  | goto pc' => exact Pc.stage_update _ _ _
  | created child pc' =>
      rw [Pc.stage_update, Pc.stage_update]
      rfl
  | signalChoice info u => exact Pc.stage_update _ _ _
  | signalled info u tracker hwake => exact Pc.stage_update _ _ _
  | schedule info r target tracker henabled hlaunch => exact Pc.stage_update _ _ _

-- All that matters of a schedule point is who schedules.
theorem System.Performed.info {t : ThrID} {pc : Pc} {tr tr' : ExecutionTracker}
    {pcs pcs' : ThrID → Pc} {info info' : SchedPointInfo} {r : Rest}
    (h : System.Performed t pc tr pcs (.schedule info r) tr' pcs')
    (hthread : info'.thread = info.thread) :
    System.Performed t pc tr pcs (.schedule info' r) tr' pcs' := by
  cases h with
  | schedule info r target tracker henabled hlaunch =>
      rw [← hthread] at hlaunch
      exact .schedule info' r target tracker henabled hlaunch

-- Where a thread that schedules pauses makes no difference to the rest.
theorem System.Performed.rest {t : ThrID} {pc : Pc} {tr tr' : ExecutionTracker}
    {pcs pcs' : ThrID → Pc} {info : SchedPointInfo} {r : Rest}
    (h : System.Performed t pc tr pcs (.schedule info r) tr' pcs') (r' : Rest) :
    System.Performed t pc tr pcs (.schedule info r') tr'
      (Function.update pcs t (.launched r')) := by
  cases h with
  | schedule info r target tracker henabled hlaunch =>
      exact .schedule info r' target tracker henabled hlaunch

-- A postponed thread does not take part in the section of another one.
theorem System.Performed.differ {isLockRace : Bool} {H : ThrID → Prop} {t u : ThrID}
    {spc xpc : Pc} {str str' tracker xtr' : ExecutionTracker} {spcs spcs' xpcs xpcs' : ThrID → Pc}
    {seff eff : Effect} {te : RandomActiveTester ρ}
    (hs : System.Performed t spc str spcs seff str' spcs')
    (hx : System.Performed t xpc tracker xpcs eff xtr' xpcs')
    (hcovers : Covers isLockRace (seff.stages t fun u => (spcs u).stage) H str (tracker, te))
    (hut : u ≠ t) (hu : te.isPaused u = true)
    (hboth : spcs' u = spcs u ∧ xpcs' u = xpcs u ∨ spcs' u = xpcs' u) :
    spcs' u ≠ xpcs' u ↔ spcs u ≠ xpcs u := by
  have hst : (spcs' u).stage = seff.stages t (fun u => (spcs u).stage) u := congrFun hs.stages u
  have hborn : spcs' u ≠ .created := by
    intro hcreated
    obtain ⟨k, hk, hstart, _⟩ := (hcovers.known u hu).2.pending
    rw [← hst, hcreated] at hk
    cases hk
    exact hstart rfl
  rcases hboth with ⟨hsame, hsame'⟩ | heq
  · rw [hsame, hsame']
  · have hsame := (hs.others u hut).resolve_right hborn
    have hsame' := (hx.others u hut).resolve_right (heq ▸ hborn)
    rw [hsame, hsame']

theorem Effect.Like.globalLock {seff eff : Effect} (h : seff.Like eff) (t : ThrID)
    (global_lock : Option ThrID) : seff.globalLock t global_lock = eff.globalLock t global_lock := by
  cases eff with
  | schedule info r =>
      obtain ⟨info', rfl, _⟩ := Effect.like_schedule h
      rfl
  | _ =>
      obtain rfl := Effect.eq_of_like h fun _ _ => nofun
      rfl

namespace RandomActiveTester

variable {isLockRace : Bool} {st : ThrID → Stage} {H : ThrID → Prop} {str : ExecutionTracker}
  {x : System (RandomActiveTester ρ)} {randInt : ρ → Nat × ρ} {turns : Nat} {t : ThrID} {pc : Pc}
  {eff : Effect}

theorem selectThreadWaitingOnCond_some {te te' : RandomActiveTester ρ} {info : SignalPointInfo}
    {u : ThrID} (h : selectThreadWaitingOnCond randInt te info = (some u, te')) :
    ∃ myrand, te' = { te with myrand } := by
  unfold selectThreadWaitingOnCond at h
  split at h
  · cases h
  · rename_i thread myrand _
    exact ⟨myrand, (congrArg Prod.snd h).symm⟩

theorem schedule_scheduler (nextchoice : Option ThrID) (info : SchedPointInfo) :
    (x.schedule (virtual randInt nextchoice) info).scheduler = x.scheduler := by
  have hlaunch (s : System (RandomActiveTester ρ)) (target : ThrID) (info : SchedPointInfo) :
      (s.launchThread (virtual randInt nextchoice) target info).scheduler = s.scheduler := by
    unfold System.launchThread
    dsimp only
    split
    · rfl
    · split
      · rfl
      · split
        · rfl
        · rfl
  unfold System.schedule
  split
  · dsimp only
    split
    · unfold System.deadlockCheck
      split
      · rfl
      · rfl
    · exact hlaunch _ _ _
  · exact hlaunch _ _ _

-- The end of a section with a choice that has been made.
theorem perform_scheduler (nextchoice : Option ThrID) :
    ∃ myrand, (System.perform (virtual randInt nextchoice) x t pc eff).scheduler =
      { x.scheduler with myrand } := by
  cases eff with
  | goto pc' => exact ⟨x.scheduler.myrand, rfl⟩
  | created child pc' => exact ⟨x.scheduler.myrand, rfl⟩
  | signalChoice info =>
      simp only [System.perform]
      split
      · exact ⟨x.scheduler.myrand, rfl⟩
      · split
        · rename_i u te hselect
          obtain ⟨myrand, hmyrand⟩ := selectThreadWaitingOnCond_some hselect
          exact ⟨myrand, hmyrand⟩
        · exact ⟨x.scheduler.myrand, rfl⟩
  | signalled info u =>
      simp only [System.perform]
      split
      · exact ⟨x.scheduler.myrand, rfl⟩
      · exact ⟨x.scheduler.myrand, rfl⟩
  | schedule info r =>
      refine ⟨x.scheduler.myrand, ?_⟩
      simp only [System.perform]
      split
      · exact schedule_scheduler nextchoice info
      · exact schedule_scheduler nextchoice info

theorem perform_virtual {nextchoice : Option ThrID}
    (hrunning : (System.perform (virtual randInt nextchoice) x t pc eff).stopped = none) :
    (System.perform (virtual randInt nextchoice) x t pc eff).global_lock =
      eff.globalLock t x.global_lock ∧
    (System.perform (virtual randInt nextchoice) x t pc eff).barriers = x.barriers := by
  cases eff with
  | goto pc' => exact ⟨rfl, rfl⟩
  | created child pc' => exact ⟨rfl, rfl⟩
  | signalChoice info =>
      simp only [System.perform] at hrunning ⊢
      split
      · exact ⟨rfl, rfl⟩
      · split
        · exact ⟨rfl, rfl⟩
        · exact ⟨rfl, rfl⟩
  | signalled info u =>
      simp only [System.perform] at hrunning ⊢
      split
      · exact ⟨rfl, rfl⟩
      · exact ⟨rfl, rfl⟩
  | schedule info r =>
      simp only [System.perform] at hrunning ⊢
      split at hrunning
      · rename_i hstopped
        rw [hrunning] at hstopped
        cases hstopped
      · rename_i hstopped
        rw [if_neg hstopped]
        refine ⟨rfl, ?_⟩
        have hnone : (x.schedule (virtual randInt nextchoice) info).stopped = none := by
          simpa using hstopped
        obtain ⟨_, _, _, _, _, _, _, _, _, _, heq⟩ := System.schedule_cases info hnone
        show (x.schedule (virtual randInt nextchoice) info).barriers = x.barriers
        rw [heq]

-- What a section of the tester ends with where the run goes on.
structure Ends (isLockRace : Bool) (st : ThrID → Stage) (H : ThrID → Prop) (str : ExecutionTracker)
    (x x' : System (RandomActiveTester ρ)) (t : ThrID) (pc : Pc) (eff eff' : Effect)
    (tracker : ExecutionTracker) : Prop where
  performed : System.Performed t pc tracker x.pcs eff' x'.tracker x'.pcs
  covers : Covers isLockRace st H str (tracker, x'.scheduler)
  later : Later x.scheduler x'.scheduler
  lock : x'.global_lock = eff.globalLock t x.global_lock
  barriers : x'.barriers = x.barriers

theorem ends_of_perform {tracker : ExecutionTracker} {te : RandomActiveTester ρ}
    {nextchoice : Option ThrID} (hcovers : Covers isLockRace st H str (tracker, te))
    (hlater : Later x.scheduler te)
    (hrunning : (System.perform (virtual randInt nextchoice)
      { x with tracker, scheduler := te } t pc eff).stopped = none) :
    Ends isLockRace st H str x (System.perform (virtual randInt nextchoice)
      { x with tracker, scheduler := te } t pc eff) t pc eff eff tracker := by
  obtain ⟨hlock, hbarriers⟩ := perform_virtual hrunning
  obtain ⟨myrand, hte⟩ : ∃ myrand, (System.perform (virtual randInt nextchoice)
      { x with tracker, scheduler := te } t pc eff).scheduler = { te with myrand } :=
    perform_scheduler nextchoice
  obtain ⟨hcovers', hlater'⟩ := covers_myrand hcovers myrand
  refine ⟨System.perform_performed hrunning, ?_, ?_, hlock, hbarriers⟩
  · rw [hte]
    exact hcovers'
  · rw [hte]
    exact hlater.trans hlater'

-- A tester picks a thread at a schedule point, and a thread to wake for each signal of a broadcast.
theorem perform_spec (hcovers : Covers isLockRace st H str (x.tracker, x.scheduler))
    (hsettled : ∀ info r, eff = .schedule info r → Settled st str)
    (hrunning : (perform (RandactHandler.getNewExecutionTracker isLockRace) randInt turns x t pc
      eff).stopped = none)
    (hfailed : (perform (RandactHandler.getNewExecutionTracker isLockRace) randInt turns x t pc
      eff).scheduler.failed = none) :
    ∃ eff' tracker, (eff' = eff ∨ ∃ info u w, eff = .goto (.handoff info u) ∧
        eff' = .goto (.handoff info w)) ∧
      Ends isLockRace st H str x (perform (RandactHandler.getNewExecutionTracker isLockRace)
        randInt turns x t pc eff) t pc eff eff' tracker := by
  have hrefl := Later.refl x.scheduler
  cases eff with
  | schedule info r =>
      simp only [perform] at hrunning hfailed ⊢
      cases hchoose : choose (RandactHandler.getNewExecutionTracker isLockRace) randInt turns x
          { info with enabled := x.tracker.enable_map } with
      | error failure =>
          simp only [hchoose] at hfailed
          cases hfailed
      | ok result =>
          obtain ⟨nextchoice, tracker, te⟩ := result
          simp only [hchoose] at hrunning ⊢
          obtain ⟨hcovers', hlater'⟩ : Covers isLockRace st H str (tracker, te) ∧
              Later x.scheduler te := by
            unfold choose at hchoose
            split at hchoose
            · cases hchoose
              exact ⟨hcovers, hrefl⟩
            · have hpicks := picks_of_ok (reenables (hsettled info r rfl)) hcovers hchoose
              exact ⟨hpicks.covers, hpicks.later⟩
          have hends := ends_of_perform hcovers' hlater' hrunning
          exact ⟨.schedule info r, tracker, Or.inl rfl, hends.performed.info rfl, hends.covers,
            hends.later, hends.lock, hends.barriers⟩
  | goto pc' =>
      cases pc' with
      | handoff info u =>
          simp only [perform] at hrunning hfailed ⊢
          cases hselect : selectThreadWaitingOnCond randInt x.scheduler info with
          | mk choice te =>
              simp only [hselect] at hrunning ⊢
              cases choice with
              | none => cases hrunning
              | some w =>
                  obtain ⟨myrand, rfl⟩ := selectThreadWaitingOnCond_some hselect
                  obtain ⟨hcovers', hlater'⟩ := covers_myrand hcovers myrand
                  exact ⟨.goto (.handoff info w), x.tracker, Or.inr ⟨info, u, w, rfl, rfl⟩,
                    .goto _, hcovers', hlater', rfl, rfl⟩
      | _ => exact ⟨_, x.tracker, Or.inl rfl, ends_of_perform hcovers hrefl hrunning⟩
  | _ => exact ⟨_, x.tracker, Or.inl rfl, ends_of_perform hcovers hrefl hrunning⟩

-- What may go wrong is that the picker has not been given enough turns, and no race is found.
theorem perform_kept (hcovers : Covers isLockRace st H str (x.tracker, x.scheduler))
    (hsettled : ∀ info r, eff = .schedule info r → Settled st str)
    {x' : System (RandomActiveTester ρ)} (hx' : x' = perform
      (RandactHandler.getNewExecutionTracker isLockRace) randInt turns x t pc eff) :
    (x'.scheduler.failed = x.scheduler.failed ∨ x'.scheduler.failed = some .turns) ∧
      x'.scheduler.raceFound = x.scheduler.raceFound := by
  have hbase (x : System (RandomActiveTester ρ)) (nextchoice : Option ThrID) (eff : Effect) :
      (System.perform (virtual randInt nextchoice) x t pc eff).scheduler.failed =
        x.scheduler.failed ∧
      (System.perform (virtual randInt nextchoice) x t pc eff).scheduler.raceFound =
        x.scheduler.raceFound := by
    obtain ⟨myrand, hte⟩ : ∃ myrand, (System.perform (virtual randInt nextchoice) x t pc
        eff).scheduler = { x.scheduler with myrand } := perform_scheduler nextchoice
    rw [hte]
    exact ⟨rfl, rfl⟩
  subst hx'
  cases eff with
  | schedule info r =>
      simp only [perform]
      cases hchoose : choose (RandactHandler.getNewExecutionTracker isLockRace) randInt turns x
          { info with enabled := x.tracker.enable_map } with
      | error failure =>
          refine ⟨Or.inr ?_, rfl⟩
          unfold choose at hchoose
          split at hchoose
          · cases hchoose
          · rw [pickNextSchedulingChoice_error (reenables (hsettled info r rfl)) hcovers hchoose]
            rfl
      | ok result =>
          obtain ⟨nextchoice, tracker, te⟩ := result
          have hlater : Later x.scheduler te := by
            unfold choose at hchoose
            split at hchoose
            · cases hchoose
              exact .refl _
            · exact (picks_of_ok (reenables (hsettled info r rfl)) hcovers hchoose).later
          obtain ⟨hfailed, hfound⟩ := hbase { x with tracker, scheduler := te } nextchoice
            (.schedule { info with enabled := x.tracker.enable_map } r)
          exact ⟨Or.inl (hfailed.trans hlater.failed), hfound.trans hlater.found⟩
  | goto pc' =>
      cases pc' with
      | handoff info u =>
          simp only [perform]
          cases hselect : selectThreadWaitingOnCond randInt x.scheduler info with
          | mk choice te =>
              cases choice with
              | none => exact ⟨Or.inl rfl, rfl⟩
              | some w =>
                  obtain ⟨myrand, rfl⟩ := selectThreadWaitingOnCond_some hselect
                  exact ⟨Or.inl rfl, rfl⟩
      | _ =>
          obtain ⟨hfailed, hfound⟩ := hbase x none (.goto _)
          exact ⟨Or.inl hfailed, hfound⟩
  | _ =>
      obtain ⟨hfailed, hfound⟩ := hbase x none _
      exact ⟨Or.inl hfailed, hfound⟩

end RandomActiveTester

namespace Halfway

variable {isLockRace : Bool} {s s' x x' : System (RandomActiveTester ρ)} {c c' : Control} {t : ThrID}
  {str : ExecutionTracker} {seff eff : Effect} {p : Tested ρ}

-- Where the section schedules, nothing is left to be told.
theorem settled (h : Halfway isLockRace s x c t str seff eff p) {info : SchedPointInfo} {r : Rest}
    (heff : eff = .schedule info r) :
    Settled (seff.stages t fun u => (s.pcs u).stage) str := by
  obtain ⟨info', r', hseff⟩ : ∃ info' r', seff = .schedule info' r' := by
    rcases h.ends with ⟨hlike, _⟩ | ⟨_, _, info', m, _, hseff, _⟩
    · rw [heff] at hlike
      obtain ⟨info', hseff, _⟩ := Effect.like_schedule hlike
      exact ⟨info', r, hseff⟩
    · exact ⟨info', _, hseff⟩
  have hrun := h.run
  rw [hseff] at hrun ⊢
  refine h.tracked.settled_section h.serial (Control.others_of_turn h.turn) h.at_section hrun
    (fun _ _ => nofun) ?_
  cases hpc : s.pcs t with
  | enter ret_addr op =>
      cases op with
      | mutexUnlock lock =>
          rw [hpc] at hrun
          cases hrun
      | _ => rfl
  | _ => rfl

-- The step of the base class that leaves behind what the section may leave behind.
theorem base (h : Halfway isLockRace s x c t str seff eff p) {str' : ExecutionTracker}
    {spcs' : ThrID → Pc} (hperformed : System.Performed t (s.pcs t) str s.pcs seff str' spcs') :
    ∃ (s' : System (RandomActiveTester ρ)) (c' : Control), Serial s' c' ∧ s'.Tracked ∧
      s'.tracker = str' ∧ s'.pcs = spcs' ∧ s'.log.read_schedule = [] ∧
      s'.global_lock = seff.globalLock t s.global_lock ∧
      s'.barriers = s.barriers.observe t (s.pcs t) := by
  obtain ⟨v, htracker, hpcs, hrunning, hread, hlock⟩ :=
    System.exists_guided h.read h.serial.running h.run hperformed
  have hstep := h.may v 0 .exit
  have hprogram : (s.pcs t).inProgram ≠ true := by
    intro hprogram
    obtain ⟨ret_val, hpc⟩ := Pc.program_of_inProgram hprogram
    have hsection := h.at_section
    rw [hpc] at hsection
    cases hsection
  have htracked := h.tracked.step h.serial hstep hrunning fun hyes => absurd hyes hprogram
  rcases h.serial.step hstep with ⟨c', hserial⟩ | hhalted
  · exact ⟨_, c', hserial, htracked, htracker, hpcs, hread, hlock,
      System.runThread_barriers _ hrunning⟩
  · exact absurd hrunning hhalted.stopped

-- What has to be said of the places of the threads after the two steps.
theorem sim (h : Halfway isLockRace s x c t str seff eff p) (hserial : Serial s' c')
    (htracked : s'.Tracked) (hread : s'.log.read_schedule = []) (hrunning : x'.stopped = none)
    (hlock : s'.global_lock = x'.global_lock) (hbarriers : s'.barriers = x'.barriers)
    {tracker : ExecutionTracker} {H : ThrID → Prop}
    (hcovers : Covers isLockRace (seff.stages t fun u => (s.pcs u).stage) H str
      (tracker, x'.scheduler)) (hlater : RandomActiveTester.Later p.2 x'.scheduler)
    (hstages : (fun u => (s'.pcs u).stage) = seff.stages t fun u => (s.pcs u).stage)
    (hpcs : ∀ u, s'.pcs u = x'.pcs u ∨ s'.pcs u = (x'.pcs u).locked)
    (hdiffer : ∀ u, x'.scheduler.isPaused u = true → (s'.pcs u ≠ x'.pcs u ↔ s.pcs u ≠ x.pcs u))
    (hshadow : Shadow (fun u => x'.scheduler.isPaused u = true) (fun u => s.pcs u ≠ x.pcs u) True
      s'.tracker x'.tracker)
    (hposted : ∀ u n, s'.tracker.sem_map u = some (n + 1) →
      str.sem_map u = some (n + 1) ∨ ¬(x'.scheduler.isPaused u = true)) :
    Sim isLockRace s' x' c' := by
  refine ⟨hserial, htracked, hrunning, hlater.failed.trans h.failed, hread, hlock, hbarriers, hpcs,
    ⟨hshadow.congr hdiffer, ?_⟩, fun u n hu => ?_⟩
  · intro u hu
    have hst : (s'.pcs u).stage = seff.stages t (fun u => (s.pcs u).stage) u := congrFun hstages u
    rw [hst]
    exact hcovers.known u hu
  · by_contra hnot
    have hpaused : x'.scheduler.isPaused u = true := by simpa using hnot
    rcases hposted u n hu with hold | hfree
    · have hbefore := h.posted u n (sem_map_runSection h.run hold)
      rw [hlater.paused u hpaused] at hbefore
      cases hbefore
    · exact hfree hpaused

-- The end of the section in the two runs.
theorem performed (h : Halfway isLockRace s x c t str seff eff p) (randInt : ρ → Nat × ρ)
    (turns : Nat) (hx' : x' = RandomActiveTester.perform
      (RandactHandler.getNewExecutionTracker isLockRace) randInt turns
      { x with
        tracker := p.1
        scheduler := p.2
        barriers := x.barriers.observe t (x.pcs t) } t (x.pcs t) eff)
    (hrunning : x'.stopped = none) (hfailed : x'.scheduler.failed = none) :
    ∃ (s' : System (RandomActiveTester ρ)) (c' : Control), Sim isLockRace s' x' c' := by
  have hrunning' := hrunning
  have hfailed' := hfailed
  rw [hx'] at hrunning' hfailed'
  obtain ⟨eff', tracker, heff', hends⟩ := RandomActiveTester.perform_spec h.covers
    (fun info r heff => h.settled heff) hrunning' hfailed'
  rw [← hx'] at hends
  have hbarriers (s' : System (RandomActiveTester ρ))
      (hs' : s'.barriers = s.barriers.observe t (s.pcs t)) : s'.barriers = x'.barriers := by
    rw [hs', hends.barriers, h.alike.observe, h.barriers]
  have hlock (s' : System (RandomActiveTester ρ)) {seff' : Effect}
      (hlock' : s'.global_lock = seff'.globalLock t s.global_lock)
      (hsame : seff'.globalLock t s.global_lock = eff.globalLock t s.global_lock) :
      s'.global_lock = x'.global_lock := by
    rw [hlock', hends.lock, hsame, h.lock]
  have hshadow := hends.covers.shadow
  rcases h.ends with ⟨hlike, hself⟩ | ⟨hne, info, info', m, hthread, hseff, heff⟩
  · have hself' (hpaused : x'.scheduler.isPaused t = true) : s.pcs t = x.pcs t :=
      hself (hends.later.paused t hpaused)
    rcases heff' with rfl | ⟨info, u, w, heff, rfl⟩
    · obtain ⟨str', spcs', hperformed, hnext, hsame, hboth, hposted⟩ :=
        hshadow.performed s.pcs hlike (fun tr => h.alike.afterSchedule tr t) hends.performed
      obtain ⟨s', c', hserial, htracked, rfl, rfl, hread, hlock', hbarriers'⟩ := h.base hperformed
      refine ⟨s', c', h.sim hserial htracked hread hrunning
        (hlock s' hlock' (hlike.globalLock t _)) (hbarriers s' hbarriers') hends.covers hends.later
        hperformed.stages (fun u => ?_) (fun u hu => ?_) hnext hposted⟩
      · by_cases hut : u = t
        · rw [hut]
          exact Or.inl hsame
        · rcases hboth u with ⟨hs, hx⟩ | heq
          · rw [hs, hx]
            exact h.pcs u hut
          · exact Or.inl heq
      · by_cases hut : u = t
        · rw [hut] at hu ⊢
          exact ⟨fun hdiffer => absurd hsame hdiffer, fun hdiffer => absurd (hself' hu) hdiffer⟩
        · exact hperformed.differ hends.performed hends.covers hut hu (hboth u)
    · -- a broadcast chooses another thread
      subst heff
      obtain rfl := Effect.eq_of_like hlike fun _ _ => by rintro ⟨⟩
      obtain ⟨s', c', hserial, htracked, htracker, hpcs, hread, hlock', hbarriers'⟩ :=
        h.base (.goto _)
      have hat : s'.pcs t = .handoff info u := by
        rw [hpcs]
        exact Function.update_self _ _ _
      obtain ⟨hxtracker, hxpcs⟩ := hends.performed.goto_eq
      have hspcs : (s'.goto t (.handoff info w)).pcs =
          Function.update s.pcs t (.handoff info w) := by
        rw [System.goto, hpcs, Function.update_idem]
      refine ⟨s'.goto t (.handoff info w), c', h.sim (hserial.kin hat (.handoff info u w))
        (htracked.kin hat (.handoff info u w)) hread hrunning (hlock s' hlock' rfl)
        (hbarriers s' hbarriers') hends.covers hends.later ?_ (fun y => ?_) (fun y hy => ?_) ?_
        fun y n hy => Or.inl ?_⟩
      · rw [hspcs]
        exact Pc.stage_update _ _ _
      · rw [hspcs, hxpcs]
        by_cases hyt : y = t
        · rw [hyt, Function.update_self, Function.update_self]
          exact Or.inl rfl
        · rw [Function.update_of_ne hyt, Function.update_of_ne hyt]
          exact h.pcs y hyt
      · rw [hspcs, hxpcs]
        by_cases hyt : y = t
        · rw [hyt] at hy ⊢
          rw [Function.update_self, Function.update_self]
          exact ⟨fun hdiffer => absurd rfl hdiffer, fun hdiffer => absurd (hself' hy) hdiffer⟩
        · rw [Function.update_of_ne hyt, Function.update_of_ne hyt]
      · rw [hxtracker]
        have hstr : (s'.goto t (.handoff info w)).tracker = str := htracker
        rw [hstr]
        exact hshadow
      · rw [← htracker]
        exact hy
  · -- the trylock has been postponed
    subst heff hseff
    rcases heff' with rfl | ⟨_, _, _, hgoto, _⟩
    · have hlike : (Effect.schedule info' (.pause (.trylock m))).Like
          (.schedule info (.pause (.trylock m))) := ⟨hthread, rfl⟩
      obtain ⟨str', spcs', hperformed, hnext, _, _, hposted⟩ :=
        hshadow.performed s.pcs hlike (fun tr => h.alike.afterSchedule tr t) hends.performed
      have hperformed' := hperformed.rest (.pause (.lock m))
      obtain ⟨s', c', hserial, htracked, rfl, hpcs, hread, hlock', hbarriers'⟩ := h.base hperformed'
      have hxpcs := hends.performed.schedule_eq
      refine ⟨s', c', h.sim hserial htracked hread hrunning (hlock s' hlock' rfl)
        (hbarriers s' hbarriers') hends.covers hends.later ?_ (fun u => ?_) (fun u hu => ?_) hnext
        hposted⟩
      · rw [hpcs]
        exact hperformed'.stages
      · rw [hpcs, hxpcs]
        by_cases hut : u = t
        · rw [hut, Function.update_self, Function.update_self]
          exact Or.inr rfl
        · rw [Function.update_of_ne hut, Function.update_of_ne hut]
          exact h.pcs u hut
      · rw [hpcs, hxpcs]
        by_cases hut : u = t
        · rw [hut, Function.update_self, Function.update_self]
          exact ⟨fun _ => hne, fun _ => by rintro ⟨⟩⟩
        · rw [Function.update_of_ne hut, Function.update_of_ne hut]
    · cases hgoto

end Halfway

namespace Sim

variable {isLockRace : Bool} {s x x' : System (RandomActiveTester ρ)} {c : Control} {t : ThrID}
  {randInt : ρ → Nat × ρ} {turns : Nat} {ret_addr addr : Addr} {op : Op}

-- A thread that has been signalled goes on to its pause, whoever runs.
theorem signalled (h : Sim isLockRace s x c) {w : Wait} (hpc : s.pcs t = .checkTimeout w)
    (hsignalled : s.tracker.was_signalled_map t = true)
    (hxpc : x.pcs t = .checkTimeout w) (hlock : x.global_lock = none) (hx' : x' =
      RandomActiveTester.runThread (RandactHandler.getNewExecutionTracker isLockRace) randInt turns
        x t (x.pcs t)) : ∃ s' c', Sim isLockRace s' x' c' := by
  have hsame : s.tracker.shade x.tracker = x.tracker := h.covers.shadow.same
  have hsignalled' : x.tracker.was_signalled_map t = true := by
    rw [← hsame]
    exact hsignalled
  have hxrun : x.tracker.runSection t (.checkTimeout w) =
      .ok (x.tracker, .goto (.leaving (.pause (.relock w false)))) := by
    simp only [ExecutionTracker.runSection, ExecutionTracker.checkTimeout, if_pos hsignalled']
    rfl
  have hhandled : x.scheduler.handle (RandactHandler.getNewExecutionTracker isLockRace) x.tracker t
      (.checkTimeout w) = .ok (x.tracker, x.scheduler) := rfl
  have hx : x' = { x with barriers := x.barriers.observe t (.checkTimeout w) }.goto t
      (.leaving (.pause (.relock w false))) := by
    rw [hx', hxpc, RandomActiveTester.runThread, hxrun]
    simp only [hhandled]
    rfl
  have hs : s.runThread (System.guide none none) t (s.pcs t) =
      { s with barriers := s.barriers.observe t (.checkTimeout w) }.goto t
        (.leaving (.pause (.relock w false))) := by
    rw [hpc]
    simp only [System.runThread, ExecutionTracker.runSection, ExecutionTracker.checkTimeout,
      if_pos hsignalled]
    rfl
  have htransition : System.Transition (System.guide none none) s t 0 .exit
      (s.runThread (System.guide none none) t (s.pcs t)) :=
    .runs (by rw [hpc]; rfl) (Or.inr (h.lock.trans hlock)) (by rw [hpc]; rfl)
  have hprogram (hprogram : (x.pcs t).inProgram = true) : x.Posix t 0 .exit := by
    rw [hxpc] at hprogram
    cases hprogram
  rw [hs] at htransition
  rw [hx]
  refine ⟨_, h.next (h.follow hprogram htransition h.serial.running) h.running
    ⟨x.scheduler.access, rfl⟩ rfl h.lock h.barriers (h.moved_update ⟨Or.inl rfl, fun _ => ⟨?_, ?_⟩⟩)
    h.covers.shadow fun u n hu => ⟨n, hu⟩⟩
  · rw [hpc]
    rfl
  · rw [hpc, hxpc]
    exact ⟨fun hne => absurd rfl hne, fun hne => absurd rfl hne⟩

theorem runs_of_step {v : ActiveVirtual ρ}
    (hstep : RandomActiveTester.step v randInt turns x t ret_addr op addr = some x') :
    x.stopped = none ∧ x.scheduler.failed = none := by
  have hgo : ¬((x.stopped.isSome || x.scheduler.failed.isSome) = true) := by
    intro hended
    rw [RandomActiveTester.step, if_pos hended] at hstep
    cases hstep
  simpa using hgo

-- A section is run by the thread whose turn it is, or by one that has been signalled.
theorem runs (h : Sim isLockRace s x c) {v : ActiveVirtual ρ}
    (hstep : RandomActiveTester.step v randInt turns x t ret_addr op addr = some x')
    (hsection : (x.pcs t).isSection = true) :
    x' = RandomActiveTester.runThread v randInt turns x t (x.pcs t) ∧
      ((x.pcs t).unlocked = true ∨ x.global_lock = none) ∧ x.ready (x.pcs t) = true ∧
      ((c = .running t ∨ ∃ u, c = .serving t u) ∨
        ∃ w, s.pcs t = .checkTimeout w ∧ s.tracker.was_signalled_map t = true) := by
  have hgo : ¬((x.stopped.isSome || x.scheduler.failed.isSome) = true) := by
    rw [h.running, h.failed]
    nofun
  rw [RandomActiveTester.step, if_neg hgo, if_pos hsection] at hstep
  split at hstep
  · rename_i hguard
    simp only [Bool.and_eq_true, Bool.or_eq_true, Option.isNone_iff_eq_none] at hguard
    obtain ⟨hlock, hready⟩ := hguard
    have hsection' : (s.pcs t).isSection = true := by
      rw [(h.alike hsection).isSection]
      exact hsection
    have hready' := h.ready hsection hready
    refine ⟨(Option.some.inj hstep).symm, hlock, hready, ?_⟩
    rcases h.serial.controlled.section_cases hsection'
      (fun sig u hat => by rw [hat] at hready'; exact hready')
      with rfl | ⟨w, hat, hsignalled, _⟩ | ⟨u, w, rfl, _⟩
    · exact Or.inl (Or.inl rfl)
    · exact Or.inr ⟨w, hat, hsignalled⟩
    · exact Or.inl (Or.inr ⟨u, rfl⟩)
  · cases hstep

theorem checkTimeout_eq (h : Sim isLockRace s x c) (hsection : (x.pcs t).isSection = true)
    {w : Wait} (hat : s.pcs t = .checkTimeout w) : x.pcs t = .checkTimeout w := by
  rcases h.at_section hsection with heq | ⟨m, hspc, _⟩
  · rw [← heq, hat]
  · rw [hspc] at hat
    cases hat

theorem signalled_goto (h : Sim isLockRace s x c) {w : Wait} {xtr : ExecutionTracker} {eff : Effect}
    (hxpc : x.pcs t = .checkTimeout w) (hsignalled : s.tracker.was_signalled_map t = true)
    (hrun : x.tracker.runSection t (x.pcs t) = .ok (xtr, eff)) :
    eff = .goto (.leaving (.pause (.relock w false))) := by
  have hsame : s.tracker.shade x.tracker = x.tracker := h.covers.shadow.same
  have hsignalled' : x.tracker.was_signalled_map t = true := by
    rw [← hsame]
    exact hsignalled
  rw [hxpc] at hrun
  simp only [ExecutionTracker.runSection, ExecutionTracker.checkTimeout, if_pos hsignalled'] at hrun
  cases hrun
  rfl

-- A step of the tester after which the run goes on is a step of the base class.
theorem step (h : Sim isLockRace s x c)
    (hasks : (x.pcs t).inProgram = true → x.Posix t ret_addr op)
    (hstep : RandomActiveTester.step (RandactHandler.getNewExecutionTracker isLockRace) randInt turns
      x t ret_addr op addr = some x') (hrunning : x'.stopped = none)
    (hfailed : x'.scheduler.failed = none) : ∃ s' c', Sim isLockRace s' x' c' := by
  by_cases hsection : (x.pcs t).isSection = true
  · obtain ⟨hx', hlock, hready, hturn⟩ := h.runs hstep hsection
    rcases hturn with hturn | ⟨w, hat, hsignalled⟩
    · cases hrun : x.tracker.runSection t (x.pcs t) with
      | error reason =>
          rw [hx', RandomActiveTester.runThread, hrun] at hrunning
          cases hrunning
      | ok result =>
          obtain ⟨xtr, eff⟩ := result
          obtain ⟨s₁, str, seff, p, hhandled, hhalfway⟩ :=
            h.handled hturn hsection hlock hready hrun
          refine hhalfway.performed randInt turns ?_ hrunning hfailed
          rw [hx', RandomActiveTester.runThread, hrun]
          simp only [hhandled]
    · have hxpc := h.checkTimeout_eq hsection hat
      refine h.signalled hat hsignalled hxpc ?_ hx'
      rw [hxpc] at hlock
      exact hlock.resolve_left nofun
  · have hgo : ¬((x.stopped.isSome || x.scheduler.failed.isSome) = true) := by
      rw [h.running, h.failed]
      nofun
    rw [RandomActiveTester.step, if_neg hgo, if_neg hsection] at hstep
    exact h.quiet _ hasks (by simpa using hsection) hstep

-- At a call of `schedule` it is the turn of the caller.
theorem calls (h : Sim isLockRace s x c) {xtr : ExecutionTracker} {info : SchedPointInfo} {r : Rest}
    (hstep : RandomActiveTester.step (RandactHandler.getNewExecutionTracker isLockRace) randInt turns
      x t ret_addr op addr = some x')
    (hrun : x.tracker.runSection t (x.pcs t) = .ok (xtr, .schedule info r)) :
    ∃ s' str seff p, x.scheduler.handle (RandactHandler.getNewExecutionTracker isLockRace) xtr t
      (x.pcs t) = .ok p ∧ Halfway isLockRace s' x c t str seff (.schedule info r) p := by
  have hsection : (x.pcs t).isSection = true := by
    cases hpc : x.pcs t <;> first
      | rfl
      | rw [hpc] at hrun
        cases hrun
  obtain ⟨_, hlock, hready, hturn⟩ := h.runs hstep hsection
  rcases hturn with hturn | ⟨w, hat, hsignalled⟩
  · exact h.handled hturn hsection hlock hready hrun
  · cases h.signalled_goto (h.checkTimeout_eq hsection hat) hsignalled hrun

-- No step fails, but for a lack of turns, and a race is found only by a handler.
theorem step_kept (h : Sim isLockRace s x c)
    (hstep : RandomActiveTester.step (RandactHandler.getNewExecutionTracker isLockRace) randInt turns
      x t ret_addr op addr = some x') :
    (x'.scheduler.failed = none ∨ x'.scheduler.failed = some .turns) ∧
      (x.scheduler.raceFound = false → x'.scheduler.raceFound = true →
        ∃ ret_addr addr iswrite u,
          x.scheduler.watched isLockRace t (x.pcs t) = some (ret_addr, addr, iswrite) ∧
          (ret_addr = x.scheduler.target1 ∨ ret_addr = x.scheduler.target2) ∧ u ≠ t ∧
          x.scheduler.isPaused u = true ∧ (x.scheduler.infoOf u).addr = addr) := by
  have hkept (hfailed : x'.scheduler.failed = x.scheduler.failed)
      (hfound : x'.scheduler.raceFound = x.scheduler.raceFound) :
      (x'.scheduler.failed = none ∨ x'.scheduler.failed = some .turns) ∧
        (x.scheduler.raceFound = false → ¬(x'.scheduler.raceFound = true)) := by
    rw [hfailed, hfound]
    refine ⟨Or.inl h.failed, fun hno => ?_⟩
    rw [hno]
    nofun
  by_cases hsection : (x.pcs t).isSection = true
  · obtain ⟨hx', hlock, hready, hturn⟩ := h.runs hstep hsection
    rw [RandomActiveTester.runThread] at hx'
    cases hrun : x.tracker.runSection t (x.pcs t) with
    | error reason =>
        rw [hrun] at hx'
        obtain ⟨hfailed, hnot⟩ := hkept (by rw [hx']; rfl) (by rw [hx']; rfl)
        exact ⟨hfailed, fun hno hfound => absurd hfound (hnot hno)⟩
    | ok result =>
        obtain ⟨xtr, eff⟩ := result
        simp only [hrun] at hx'
        rcases hturn with hturn | ⟨w, hat, hsignalled⟩
        · obtain ⟨s₁, str, seff, p, hhandled, hhalfway⟩ :=
            h.handled hturn hsection hlock hready hrun
          simp only [hhandled] at hx'
          obtain ⟨hfailed, hfound⟩ := RandomActiveTester.perform_kept hhalfway.covers
            (fun info r heff => hhalfway.settled heff) hx'
          have hbefore : p.2.failed = none := hhalfway.failed
          refine ⟨hbefore ▸ hfailed, fun hno hyes => ?_⟩
          exact h.handled_found hturn hsection hrun hhandled hno (hfound.symm.trans hyes)
        · have hxpc := h.checkTimeout_eq hsection hat
          have hhandled : x.scheduler.handle (RandactHandler.getNewExecutionTracker isLockRace) xtr
              t (x.pcs t) = .ok (xtr, x.scheduler) := by
            rw [hxpc]
            rfl
          have heff := h.signalled_goto hxpc hsignalled hrun
          simp only [hhandled, heff] at hx'
          obtain ⟨hfailed, hnot⟩ := hkept (by rw [hx']; rfl) (by rw [hx']; rfl)
          exact ⟨hfailed, fun hno hfound => absurd hfound (hnot hno)⟩
  · have hgo : ¬((x.stopped.isSome || x.scheduler.failed.isSome) = true) := by
      rw [h.running, h.failed]
      nofun
    rw [RandomActiveTester.step, if_neg hgo, if_neg hsection] at hstep
    obtain ⟨_, htransition⟩ := System.step_iff.mp hstep
    have hscheduler : x'.scheduler.failed = x.scheduler.failed ∧
        x'.scheduler.raceFound = x.scheduler.raceFound := by
      cases htransition with
      | runs hpc hlock hready => exact absurd hpc hsection
      | _ => exact ⟨rfl, rfl⟩
    obtain ⟨hfailed, hnot⟩ := hkept hscheduler.1 hscheduler.2
    exact ⟨hfailed, fun hno hfound => absurd hfound (hnot hno)⟩

end Sim

end Thrille
