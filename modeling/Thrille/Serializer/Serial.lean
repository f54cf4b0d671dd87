import Thrille.Serializer.Turns

namespace Thrille

namespace DecisionInfo

-- The thread that is left to run by a log before which `first` runs.
def turn (first : ThrID) : List DecisionInfo → ThrID
  | [] => first
  | sched chosen _ _ _ _ :: rest => turn chosen rest
  | signal .. :: rest => turn first rest

-- The caller of every SCHED entry is the thread that the SCHED entry before it chose.
def Chain (first : ThrID) : List DecisionInfo → Prop
  | [] => True
  | sched chosen caller _ _ _ :: rest => caller = first ∧ Chain chosen rest
  | signal .. :: rest => Chain first rest

theorem turn_append (first : ThrID) (front back : List DecisionInfo) :
    turn first (front ++ back) = turn (turn first front) back := by
  induction front generalizing first with
  | nil => rfl
  | cons d front ih =>
      cases d with
      | sched chosen caller desc addr enabled => exact ih chosen
      | signal chosen caller addr cond oncond => exact ih first

theorem chain_append (first : ThrID) (front back : List DecisionInfo) :
    Chain first (front ++ back) ↔ Chain first front ∧ Chain (turn first front) back := by
  induction front generalizing first with
  | nil => simp [Chain, turn]
  | cons d front ih =>
      cases d with
      | sched chosen caller desc addr enabled =>
          simp only [List.cons_append, Chain, turn]
          rw [ih chosen, and_assoc]
      | signal chosen caller addr cond oncond =>
          simp only [List.cons_append, Chain, turn]
          exact ih first

end DecisionInfo

namespace ExecutionTracker

variable {tr tr' : ExecutionTracker} {t target : ThrID}

theorem launch_setSignalled (hcond : t ∉ tr.cond_map) (hlaunch : tr.launch target = .ok tr') :
    (tr.setSignalled t true).launch target = .ok (tr'.setSignalled t true) := by
  by_cases hmem : target ∈ tr.cond_map
  · have hne : target ≠ t := by
      rintro rfl
      exact hcond hmem
    have hmem' : target ∈ (tr.setSignalled t true).cond_map := hmem
    simp only [launch, if_pos hmem, waitWakeThread] at hlaunch
    simp only [launch, if_pos hmem', waitWakeThread, setSignalled_wait_sem_map] at hlaunch ⊢
    split at hlaunch
    · cases hlaunch
      simp only [setSignalled, setWaitSem, Function.update_comm hne]
    · cases hlaunch
  · have hmem' : target ∉ (tr.setSignalled t true).cond_map := hmem
    simp only [launch, if_neg hmem, wakeThread] at hlaunch
    simp only [launch, if_neg hmem', wakeThread, setSignalled_sem_map] at hlaunch ⊢
    split at hlaunch
    · cases hlaunch
      rfl
    · cases hlaunch

-- A launch posts, and changes nothing else that the maps say.
theorem launch_keeps (hlaunch : tr.launch target = .ok tr') :
    tr'.finish_map = tr.finish_map ∧ tr'.join_map = tr.join_map ∧
      tr'.enable_map = tr.enable_map ∧
      (∀ u, (tr'.sem_map u).isSome = (tr.sem_map u).isSome) ∧
      ∀ u, tr'.entries u = tr.entries u := by
  by_cases hmem : target ∈ tr.cond_map
  · simp only [launch, if_pos hmem, waitWakeThread] at hlaunch
    split at hlaunch
    · cases hlaunch
      exact ⟨rfl, rfl, rfl, fun _ => rfl, fun _ => rfl⟩
    · cases hlaunch
  · simp only [launch, if_neg hmem, wakeThread] at hlaunch
    split at hlaunch
    · rename_i n hsem
      cases hlaunch
      refine ⟨rfl, rfl, rfl, fun u => ?_, fun _ => rfl⟩
      by_cases hu : u = target
      · rw [hu, hsem]
        simp
      · simp [hu]
    · cases hlaunch

end ExecutionTracker

theorem Pc.stage_update (pcs : ThrID → Pc) (t : ThrID) (pc : Pc) :
    (fun u => (Function.update pcs t pc u).stage) =
      Function.update (fun u => (pcs u).stage) t pc.stage := by
  funext u
  by_cases hu : u = t
  · subst hu
    simp
  · simp [hu]

namespace ExecutionTracker

variable (self : ExecutionTracker) (t target : ThrID)

-- The counters are of no account.
theorem recordScheduleInfo_keeps :
    (self.recordScheduleInfo t target).posts = self.posts ∧
      (self.recordScheduleInfo t target).finish_map = self.finish_map ∧
      (self.recordScheduleInfo t target).join_map = self.join_map ∧
      (self.recordScheduleInfo t target).enable_map = self.enable_map ∧
      ∀ u, (self.recordScheduleInfo t target).entries u = self.entries u := by
  unfold recordScheduleInfo
  split
  · exact ⟨rfl, rfl, rfl, rfl, fun _ => rfl⟩
  · split
    · exact ⟨rfl, rfl, rfl, rfl, fun _ => rfl⟩
    · exact ⟨rfl, rfl, rfl, rfl, fun _ => rfl⟩

end ExecutionTracker

namespace Controlled

variable {tr tr' tracker : ExecutionTracker} {pcs : ThrID → Pc} {t target : ThrID}
  {info : SchedPointInfo} {r : Rest}

-- A runner that schedules passes its turn to the thread that it launches.
theorem schedule (h : Controlled tr pcs (.running t)) (hpc : (pcs t).isSection = true)
    (hrun : tr.runSection t (pcs t) = .ok (tr', .schedule info r))
    (hc : Consistent tr' (Function.update (fun u => (pcs u).stage) t r.stage))
    (henabled : tr'.isEnabled target = true)
    (hlaunch : (tr'.recordScheduleInfo t target).launch target = .ok tracker) :
    (∃ c', Controlled (tracker.afterSchedule t (pcs t)) (Function.update pcs t (.launched r)) c' ∧
        (c' = .posted target ∨ c' = .timeout target)) ∧
      Consistent (tracker.afterSchedule t (pcs t))
        (fun u => (Function.update pcs t (.launched r) u).stage) ∧
      (tracker.afterSchedule t (pcs t)).isEnabled target = true := by
  obtain ⟨_, _, hnoposts, hwakes⟩ := ExecutionTracker.runSection_follows _ hrun
  have hposts : tr'.posts = tr.posts := ExecutionTracker.posts_runSection _ hnoposts hrun
  have hcounted := tr'.recordScheduleInfo_keeps t target
  generalize tr'.recordScheduleInfo t target = tr2 at hcounted hlaunch
  obtain ⟨hposts', hfinish, hjoin, henable, hentries⟩ := hcounted
  rw [hposts] at hposts'
  have hborn : pcs t ≠ .unborn := by
    intro hnew
    rw [hnew] at hpc
    cases hpc
  have hspecial : (pcs t).special = false := by
    cases hat : pcs t with
    | created => rw [hat] at hpc; cases hpc
    | spawn addr child ret_val => rw [hat] at hpc; cases hpc
    | handoff sig u => rw [hat] at hnoposts; cases hnoposts
    | beforeCreate addr child ret_val => rw [hat] at hnoposts; cases hnoposts
    | _ => rfl
  have hconsistent : Consistent tr2 fun u => (Function.update pcs t (.launched r) u).stage := by
    rw [Pc.stage_update]
    exact hc.same hfinish hjoin ((congrArg Posts.sem hposts').trans
      (congrArg Posts.sem hposts).symm) hentries
  have henabled2 : tr2.isEnabled target = true := by
    rw [ExecutionTracker.isEnabled, henable]
    exact henabled
  -- a thread that times out is no longer on its condition
  have hlaunch' : (tr2.afterSchedule t (pcs t)).launch target =
      .ok (tracker.afterSchedule t (pcs t)) := by
    cases hat : pcs t with
    | checkTimeout w =>
        have hfit := hconsistent.fits t
        rw [Function.update_self] at hfit
        have hrelock : r = .pause (.relock w true) := by
          rw [hat] at hrun
          simp only [ExecutionTracker.runSection, ExecutionTracker.checkTimeout] at hrun
          split at hrun <;> cases hrun
          rfl
        have hmem : t ∉ tr2.cond_map := by
          intro hmem
          obtain ⟨cond, hcond⟩ := Option.isSome_iff_exists.mp
            (Std.TreeMap.mem_iff_isSome_getElem?.mp hmem)
          obtain ⟨w', hw', _⟩ := hfit.cond cond hcond
          rw [hrelock] at hw'
          cases hw'
        exact ExecutionTracker.launch_setSignalled hmem hlaunch
    | _ => exact hlaunch
  have hsignalled : (tr2.afterSchedule t (pcs t)).was_signalled_map =
      Function.update tr.was_signalled_map t true := by
    have hmap : tr2.was_signalled_map = tr.was_signalled_map := congrArg Posts.signalled hposts'
    by_cases hcheck : ∃ w, pcs t = .checkTimeout w
    · obtain ⟨w, hw⟩ := hcheck
      rw [hw, ← hmap]
      rfl
    · have hnone : (pcs t).wakes = none := by
        by_contra hsome
        obtain ⟨w, hw⟩ := Option.ne_none_iff_exists'.mp hsome
        exact hcheck ⟨w, (hwakes w hw).1⟩
      have htrue : tr.was_signalled_map t = true := by
        rw [h.signalled t hborn]
        simp [Control.timedOut, hnone]
      have hsame : tr2.afterSchedule t (pcs t) = tr2 := by
        cases hat : pcs t with
        | checkTimeout w => exact absurd ⟨w, hat⟩ hcheck
        | _ => rfl
      rw [hsame, hmap, ← htrue, Function.update_eq_self]
  have hkeeps : (tr2.afterSchedule t (pcs t)).sem_map = tr2.sem_map ∧
      (tr2.afterSchedule t (pcs t)).wait_sem_map = tr2.wait_sem_map ∧
      (tr2.afterSchedule t (pcs t)).wait_ready_map = tr2.wait_ready_map ∧
      (tr2.afterSchedule t (pcs t)).next_id = tr2.next_id ∧
      (tr2.afterSchedule t (pcs t)).isEnabled = tr2.isEnabled ∧
      ((Consistent tr2 fun u => (Function.update pcs t (.launched r) u).stage) →
        Consistent (tr2.afterSchedule t (pcs t))
          fun u => (Function.update pcs t (.launched r) u).stage) := by
    cases pcs t <;> exact ⟨rfl, rfl, rfl, rfl, rfl, fun hc => hc.same rfl rfl rfl fun _ => rfl⟩
  obtain ⟨hsem, hwait, hready, hnext, hisEnabled, hagrees⟩ := hkeeps
  have hgiven : Controlled (tr2.afterSchedule t (pcs t)) (Function.update pcs t (.launched r))
      .nobody :=
    h.giveUp r hspecial hborn (hsem.trans (congrArg Posts.sem hposts'))
      (hwait.trans (congrArg Posts.waitSem hposts'))
      (hready.trans (congrArg Posts.ready hposts')) hsignalled
      (hnext.trans (congrArg Posts.nextId hposts'))
  obtain ⟨hfinish', hjoin', henable', hsem', hentries'⟩ := ExecutionTracker.launch_keeps hlaunch'
  have hstart : (tr2.afterSchedule t (pcs t)).isEnabled target = true := by
    rw [hisEnabled]
    exact henabled2
  refine ⟨hgiven.launch (hagrees hconsistent) target hstart hlaunch',
    (hagrees hconsistent).reposted hfinish' hjoin' hsem' hentries', ?_⟩
  rw [ExecutionTracker.isEnabled, henable']
  exact hstart

end Controlled

variable {σ : Type}

-- The state of a run that goes on.
structure Serial (s : System σ) (c : Control) : Prop where
  running : s.stopped = none
  controlled : Controlled s.tracker s.pcs c
  consistent : Consistent s.tracker fun t => (s.pcs t).stage
  posted : ∀ t, c = .posted t → s.tracker.isEnabled t = true
  chain : DecisionInfo.Chain 0 s.log.schedule
  holder : c.holder = some (DecisionInfo.turn 0 s.log.schedule)

-- The state of a run that has been ended.
structure Halted (s : System σ) : Prop where
  stopped : s.stopped ≠ none
  outside : ∀ t ret_val, s.pcs t ≠ .program ret_val
  chain : DecisionInfo.Chain 0 s.log.schedule

namespace Serial

variable {v : Virtual σ} {s s' : System σ} {c : Control} {t x : ThrID} {ret_addr : Addr} {op : Op}

-- While a thread runs a section no thread is in the program.
theorem outside (h : Serial s c) (hpc : (s.pcs t).isSection = true)
    (hne : ∀ u, u ≠ t → c ≠ .running u) (u : ThrID) (ret_val : Int) :
    s.pcs u ≠ .program ret_val := by
  intro hat
  by_cases hu : u = t
  · subst hu
    rw [hat] at hpc
    cases hpc
  · exact hne u hu (h.controlled.runner (by rw [hat]; rfl) (by rw [hat]; rfl) (by simp [hat]))

-- What the end of a schedule point does to the control.
theorem schedule (h : Serial s (.running t)) (hpc : (s.pcs t).isSection = true)
    {tr' : ExecutionTracker} {info : SchedPointInfo} {r : Rest} (barriers : Barriers)
    (hrun : s.tracker.runSection t (s.pcs t) = .ok (tr', .schedule info r))
    (hc : Consistent tr' (Function.update (fun u => (s.pcs u).stage) t r.stage)) :
    (∃ c', Serial ({ s with tracker := tr', barriers }.perform v t (s.pcs t) (.schedule info r))
      c') ∨
      Halted ({ s with tracker := tr', barriers }.perform v t (s.pcs t) (.schedule info r)) := by
  obtain ⟨hthread, _⟩ := ExecutionTracker.runSection_follows _ hrun
  have hturn : DecisionInfo.turn 0 s.log.schedule = t := (Option.some.inj h.holder).symm
  simp only [System.perform]
  generalize hs1 : ({ s with tracker := tr', barriers } : System σ) = s1
  have hlog1 : s1.log = s.log := by rw [← hs1]
  have hpcs1 : s1.pcs = s.pcs := by rw [← hs1]
  have htr1 : s1.tracker = tr' := by rw [← hs1]
  by_cases hstopped : (s1.schedule v info).stopped = none
  · rw [if_neg (by simp [hstopped])]
    left
    obtain ⟨target, fenmap, fromLog, log, scheduler, tracker, henabled, _, hlaunch, hlog, heq⟩ :=
      System.schedule_cases info hstopped
    rw [htr1] at henabled hlaunch
    rw [hthread] at hlaunch
    obtain ⟨⟨c', hcontrolled, hc'⟩, hconsistent, hstill⟩ :=
      h.controlled.schedule hpc hrun hc henabled hlaunch
    rw [heq]
    refine ⟨c', ?_, ?_, ?_, fun u hu => ?_, ?_, ?_⟩
    · rw [← hs1]
      exact h.running
    · rw [← hpcs1] at hcontrolled ⊢
      exact hcontrolled
    · rw [← hpcs1] at hconsistent ⊢
      exact hconsistent
    · rw [← hpcs1] at hstill ⊢
      rcases hc' with rfl | rfl
      · cases hu
        exact hstill
      · cases hu
    · show DecisionInfo.Chain 0 log.schedule
      rw [hlog, hlog1, DecisionInfo.chain_append, hturn]
      exact ⟨h.chain, hthread, trivial⟩
    · show c'.holder = some (DecisionInfo.turn 0 log.schedule)
      rw [hlog, hlog1, DecisionInfo.turn_append]
      rcases hc' with rfl | rfl <;> rfl
  · rw [if_pos (by simpa [Option.isSome_iff_ne_none] using hstopped)]
    right
    refine ⟨hstopped, fun u ret_val => ?_, ?_⟩
    · rw [System.schedule_pcs, hpcs1]
      exact h.outside hpc (fun v hv heq => hv (Control.running.inj heq).symm) u ret_val
    · rcases System.schedule_log (v := v) (s := s1) info with hlog | ⟨target, desc, enabled, hlog⟩
      · rw [hlog, hlog1]
        exact h.chain
      · rw [hlog, hlog1, DecisionInfo.chain_append, hturn]
        exact ⟨h.chain, hthread, trivial⟩

-- A step after which nothing was logged.
theorem goOn (h : Serial s c) {tr' : ExecutionTracker} {pc' : Pc} {c' : Control}
    (log : Logger) (scheduler : σ) (issued : Nat) (barriers : Barriers)
    (global_lock : Option ThrID)
    (hcontrolled : Controlled tr' (Function.update s.pcs t pc') c')
    (hconsistent : Consistent tr' (Function.update (fun u => (s.pcs u).stage) t pc'.stage))
    (hposted : ∀ u, c' = .posted u → tr'.isEnabled u = true) (hlog : log.schedule = s.log.schedule)
    (hholder : c'.holder = c.holder) :
    Serial { s.goto t pc' with
      tracker := tr', log, scheduler, issued, barriers, global_lock } c' := by
  refine ⟨h.running, hcontrolled, ?_, hposted, ?_, ?_⟩
  · rw [← Pc.stage_update] at hconsistent
    exact hconsistent
  · show DecisionInfo.Chain 0 log.schedule
    rw [hlog]
    exact h.chain
  · show c'.holder = some (DecisionInfo.turn 0 log.schedule)
    rw [hlog, hholder]
    exact h.holder

-- Where the stage of the thread stays the same.
theorem stay (h : Serial s c) {pc' : Pc} {c' : Control} (issued : Nat)
    (global_lock : Option ThrID) (hstage : pc'.stage = (s.pcs t).stage)
    (hcontrolled : Controlled s.tracker (Function.update s.pcs t pc') c')
    (hposted : ∀ u, c' = .posted u → c = .posted u) (hholder : c'.holder = c.holder) :
    Serial { s.goto t pc' with issued, global_lock } c' := by
  have hconsistent := h.consistent
  rw [← Function.update_eq_self t fun u => (s.pcs u).stage, ← hstage] at hconsistent
  exact h.goOn s.log s.scheduler issued s.barriers global_lock hcontrolled hconsistent
    (fun u hu => h.posted u (hposted u hu)) rfl hholder

-- A section that hands the condition over.
theorem signalled (h : Serial s (.running t)) {tr' tracker : ExecutionTracker}
    {sig : SignalPointInfo} {u : ThrID} (log : Logger) (barriers : Barriers)
    (hrun : s.tracker.runSection t (s.pcs t) = .ok (tr', .signalled sig u))
    (hc : Consistent tr' (Function.update (fun u => (s.pcs u).stage) t .active))
    (hwake : tr'.waitWakeThread u = .ok tracker) (hlog : log.schedule = s.log.schedule ∨
      ∃ caller addr cond oncond,
        log.schedule = s.log.schedule ++ [.signal u caller addr cond oncond]) :
    Serial { s.goto t (.waitReady sig u) with tracker, log, barriers } (.handed u t) := by
  obtain ⟨hpc, hcond⟩ := ExecutionTracker.runSection_follows _ hrun
  have hcopy : sig.cond_map = s.tracker.cond_map := h.controlled.copy t sig u hpc
  rw [hcopy] at hcond
  obtain ⟨w, hw, _⟩ := (h.consistent.fits u).cond sig.cond hcond
  have hut : u ≠ t := by
    rintro rfl
    rw [hpc] at hw
    cases hw
  have hheading := (h.controlled.others u hut).heading_wait w hw
  have htr' : tr' = s.tracker.setWaitReady u false := by
    rw [hpc] at hrun
    simp only [ExecutionTracker.runSection, ExecutionTracker.scheduleThreadWaitingOnCond,
      safe_assert_bind] at hrun
    cases hrun.2
    rfl
  rw [htr'] at hwake
  have hkeeps : Consistent tracker (Function.update (fun u => (s.pcs u).stage) t .active) := by
    rw [htr'] at hc
    simp only [ExecutionTracker.waitWakeThread] at hwake
    split at hwake
    · cases hwake
      exact hc.reposted rfl rfl (fun _ => rfl) fun _ => rfl
    · cases hwake
  refine ⟨h.running, h.controlled.handOver sig u hpc hut w hheading hwake, ?_, by rintro _ ⟨⟩, ?_,
    ?_⟩
  · rw [show Stage.active = (Pc.waitReady sig u).stage from rfl, ← Pc.stage_update] at hkeeps
    exact hkeeps
  · show DecisionInfo.Chain 0 log.schedule
    rcases hlog with hlog | ⟨caller, addr, cond, oncond, hlog⟩
    · rw [hlog]
      exact h.chain
    · rw [hlog, DecisionInfo.chain_append]
      exact ⟨h.chain, trivial⟩
  · show some t = some (DecisionInfo.turn 0 log.schedule)
    rcases hlog with hlog | ⟨caller, addr, cond, oncond, hlog⟩
    · rw [hlog]
      exact h.holder
    · rw [hlog, DecisionInfo.turn_append]
      exact h.holder

-- The section of a thread that runs.
theorem runner (h : Serial s (.running t)) (hpc : (s.pcs t).isSection = true) :
    (∃ c', Serial (s.runThread v t (s.pcs t)) c') ∨ Halted (s.runThread v t (s.pcs t)) := by
  have hne (u : ThrID) (hu : u ≠ t) : Control.running t ≠ .running u := by
    intro heq
    exact hu (Control.running.inj heq).symm
  have houtside := h.outside hpc hne
  unfold System.runThread
  cases hrun : s.tracker.runSection t (s.pcs t) with
  | error reason => exact Or.inr ⟨nofun, houtside, h.chain⟩
  | ok result =>
      obtain ⟨tr', eff⟩ := result
      have hc := h.consistent.runSection (s.pcs t) rfl
        (fun u hu k => h.controlled.no_resume hne u hu k)
        (fun ra child rv heq => by rw [(h.controlled.child t ra child rv heq).1]; rfl) hrun
      cases eff with
      | goto pc' =>
          left
          refine ⟨.running t, h.goOn s.log s.scheduler s.issued _ s.global_lock
            (h.controlled.section_goto_running pc' hpc hrun) hc nofun rfl rfl⟩
      | created child pc' =>
          left
          obtain ⟨ra, rv, hat, rfl⟩ := ExecutionTracker.runSection_follows _ hrun
          have htr' : tr' = s.tracker.initializeThreadData child := by
            rw [hat] at hrun
            cases hrun
            rfl
          subst htr'
          refine ⟨.running t, h.running, h.controlled.createChild ra child rv hat, ?_, nofun,
            h.chain, h.holder⟩
          have hstages : Consistent (s.tracker.initializeThreadData child) fun u =>
              (Function.update (Function.update s.pcs child .created) t
                (.spawn ra child rv) u).stage := by
            rw [Pc.stage_update, Pc.stage_update]
            exact hc
          exact hstages
      | signalChoice sig =>
          have hgo (u : ThrID) := h.controlled.section_signalChoice sig u hpc hrun
          simp only [System.perform]
          split
          · rename_i u log hnext
            have hlog : log.schedule = s.log.schedule := by
              have hread := System.getNextChoice_schedule s.log
              rw [show s.log.getNextChoice = (some u, log) from hnext] at hread
              exact hread
            exact Or.inl ⟨.running t, h.goOn log s.scheduler s.issued _ s.global_lock (hgo u) hc
              nofun hlog rfl⟩
          · split
            · rename_i u scheduler _
              exact Or.inl ⟨.running t, h.goOn s.log scheduler s.issued _ s.global_lock (hgo u) hc
                nofun rfl rfl⟩
            · exact Or.inr ⟨nofun, houtside, h.chain⟩
      | signalled sig u =>
          simp only [System.perform]
          have hlog : (s.log.signalScheduling u sig).schedule = s.log.schedule ∨
              ∃ caller addr cond oncond, (s.log.signalScheduling u sig).schedule =
                s.log.schedule ++ [.signal u caller addr cond oncond] := by
            unfold Logger.signalScheduling
            split
            · exact Or.inl rfl
            · exact Or.inr ⟨_, _, _, _, rfl⟩
          split
          · rename_i tracker hwake
            exact Or.inl ⟨_, h.signalled _ _ hrun hc hwake hlog⟩
          · refine Or.inr ⟨nofun, houtside, ?_⟩
            show DecisionInfo.Chain 0 (s.log.signalScheduling u sig).schedule
            rcases hlog with hlog | ⟨caller, addr, cond, oncond, hlog⟩
            · rw [hlog]
              exact h.chain
            · rw [hlog, DecisionInfo.chain_append]
              exact ⟨h.chain, trivial⟩
      | schedule info r => exact h.schedule hpc _ hrun hc

-- The section of a thread that has been woken while its signaller waits.
theorem server (h : Serial s (.serving t x)) (w : Wait)
    (hpc : s.pcs t = .woken w ∨ s.pcs t = .relock w ∨ s.pcs t = .signalReady w) :
    (∃ c', Serial (s.runThread v t (s.pcs t)) c') ∨ Halted (s.runThread v t (s.pcs t)) := by
  have hsection : (s.pcs t).isSection = true := by
    rcases hpc with hpc | hpc | hpc <;> rw [hpc] <;> rfl
  have hne (u : ThrID) (hu : u ≠ t) : Control.serving t x ≠ .running u := by rintro ⟨⟩
  unfold System.runThread
  cases hrun : s.tracker.runSection t (s.pcs t) with
  | error reason => exact Or.inr ⟨by rintro ⟨⟩, h.outside hsection hne, h.chain⟩
  | ok result =>
      obtain ⟨tr', eff⟩ := result
      have hc := h.consistent.runSection (s.pcs t) rfl
        (fun u hu k => h.controlled.no_resume hne u hu k)
        (fun ra child rv heq => by rw [(h.controlled.child t ra child rv heq).1]; rfl) hrun
      have hgoto : ∃ pc', eff = .goto pc' := by
        rcases hpc with hpc | hpc | hpc
        · rw [hpc] at hrun
          cases hrun
          exact ⟨_, rfl⟩
        · rw [hpc] at hrun
          simp only [ExecutionTracker.runSection, ExecutionTracker.beforeMutexLockInWait,
            safe_assert_bind] at hrun
          cases hrun.2
          exact ⟨_, rfl⟩
        · rw [hpc] at hrun
          cases hrun
          exact ⟨_, rfl⟩
      obtain ⟨pc', rfl⟩ := hgoto
      obtain ⟨c', hcontrolled, hc'⟩ := h.controlled.section_goto_serving w pc' hpc hrun
      left
      refine ⟨c', h.goOn s.log s.scheduler s.issued _ s.global_lock hcontrolled hc ?_ rfl ?_⟩
      · rcases hc' with rfl | rfl <;> rintro _ ⟨⟩
      · rcases hc' with rfl | rfl <;> rfl

theorem runThread (h : Serial s c) (hpc : (s.pcs t).isSection = true)
    (hready : s.ready (s.pcs t) = true) :
    (∃ c', Serial (s.runThread v t (s.pcs t)) c') ∨ Halted (s.runThread v t (s.pcs t)) := by
  rcases h.controlled.section_cases hpc (fun sig u hat => by rw [hat] at hready; exact hready)
    with rfl | ⟨w, hat, hsignalled, hne⟩ | ⟨x, w, rfl, hat⟩
  · exact h.runner hpc
  · left
    refine ⟨c, ?_⟩
    have hrun : s.tracker.runSection t (s.pcs t) =
        .ok (s.tracker, .goto (.leaving (.pause (.relock w false)))) := by
      rw [hat]
      simp [ExecutionTracker.runSection, ExecutionTracker.checkTimeout, hsignalled,
        ExecutionTracker.goto]
    unfold System.runThread
    rw [hrun]
    have hcontrolled := h.controlled.keepResting (.leaving (.pause (.relock w false)))
      (.pause (.relock w false)) (by rw [hat, hsignalled]; rfl) rfl hne
    refine h.goOn s.log s.scheduler s.issued _ s.global_lock hcontrolled ?_ h.posted rfl rfl
    have hstage : (Pc.leaving (.pause (.relock w false))).stage = (s.pcs t).stage := by
      rw [hat]
      rfl
    rw [hstage, Function.update_eq_self]
    exact h.consistent
  · exact h.server w hat

-- A step of any thread keeps the order, or ends the run.
theorem step (h : Serial s c) (hstep : s.step v t ret_addr op = some s') :
    (∃ c', Serial s' c') ∨ Halted s' := by
  obtain ⟨_, htransition⟩ := System.step_iff.mp hstep
  have hnot (hruns : (s.pcs t).runs = false) : c ≠ .running t := by
    rintro rfl
    have hrole := h.controlled.role t
    simp only [Control.Role, if_true] at hrole
    rw [hruns] at hrole
    cases hrole.1
  cases htransition with
  | asks ret_val hpc =>
      left
      have hc : c = .running t :=
        h.controlled.runner (by rw [hpc]; rfl) (by rw [hpc]; rfl) (by simp [hpc])
      subst hc
      refine ⟨.running t, h.stay _ s.global_lock (by rw [hpc]; rfl) ?_ (by rintro _ ⟨⟩) rfl⟩
      exact h.controlled.goto _ rfl rfl rfl rfl (Nat.le_refl _) (by simp [hpc])
        (by rintro ⟨⟩) (by rintro ⟨⟩)
        (by simp [Control.timedOut, hpc, Pc.wakes]) (by simp [Control.Role, Pc.runs, Pc.wakes])
        (by simp [hpc]) (by simp [hpc]) (by rintro _ _ _ ⟨⟩) (by rintro _ _ _ ⟨⟩)
        (by rintro _ _ ⟨⟩) fun _ _ _ _ _ => rfl
  | spawns addr child hpc =>
      left
      have hc : c = .running t :=
        h.controlled.runner (by rw [hpc]; rfl) (by rw [hpc]; rfl) (by simp [hpc])
      subst hc
      refine ⟨.running t, h.running, h.controlled.start addr child _ hpc, ?_, by rintro _ ⟨⟩,
        h.chain,
        h.holder⟩
      have hcreated : s.pcs child = .created := h.controlled.spawn t addr child _ hpc
      have hstages : (fun u => (Function.update (Function.update s.pcs child .threadStart) t
          (.afterCreate addr OPERATION_SUCCESSFUL) u).stage) = fun u => (s.pcs u).stage := by
        have hself : (Pc.afterCreate addr OPERATION_SUCCESSFUL).stage = (s.pcs t).stage := by
          rw [hpc]
          rfl
        have hchild : Pc.threadStart.stage = (s.pcs child).stage := by
          rw [hcreated]
          rfl
        rw [Pc.stage_update, Pc.stage_update, hchild, Function.update_eq_self, hself,
          Function.update_eq_self]
      have hconsistent := h.consistent
      rw [← hstages] at hconsistent
      exact hconsistent
  | starts hpc hlock =>
      left
      exact ⟨c, h.stay s.issued s.global_lock (by rw [hpc]; rfl)
        (h.controlled.keepResting _ (.pause .start) (by rw [hpc]; rfl) rfl
          (hnot (by rw [hpc]; rfl))) (fun _ => id) rfl⟩
  | unlocks r hpc =>
      left
      exact ⟨c, h.stay s.issued none (by rw [hpc]; rfl)
        (h.controlled.keepResting _ r (by rw [hpc]; rfl) rfl (hnot (by rw [hpc]; rfl)))
          (fun _ => id) rfl⟩
  | leaves r hpc hlock =>
      left
      exact ⟨c, h.stay s.issued s.global_lock (by rw [hpc]; rfl)
        (h.controlled.keepResting _ r (by rw [hpc]; rfl) rfl (hnot (by rw [hpc]; rfl)))
          (fun _ => id) rfl⟩
  | resumes k n hpc hsem =>
      left
      obtain ⟨rfl, hcontrolled⟩ := h.controlled.takeSem k n hpc hsem
      have hc := h.consistent.takeTurn k (by rw [hpc]; rfl) (h.posted t rfl)
      refine ⟨_, h.goOn s.log s.scheduler s.issued s.barriers s.global_lock hcontrolled
        (hc.reposted rfl rfl (fun u => ?_) fun _ => rfl) (by rintro _ ⟨⟩) rfl rfl⟩
      by_cases hu : u = t
      · rw [hu, hsem]
        simp
      · simp [hu]
  | wakes w n hpc hsem =>
      left
      obtain ⟨c', hcontrolled, hc'⟩ := h.controlled.takeWaitSem w n hpc hsem
      have hstage : (Pc.woken w).stage = (s.pcs t).stage := by
        rw [hpc]
        rfl
      refine ⟨c', h.goOn s.log s.scheduler s.issued s.barriers s.global_lock hcontrolled ?_ ?_ rfl ?_⟩
      · rw [hstage, Function.update_eq_self]
        exact h.consistent.reposted rfl rfl (fun _ => rfl) fun _ => rfl
      · rcases hc' with ⟨_, rfl⟩ | ⟨x, _, rfl⟩ <;> rintro _ ⟨⟩
      · rcases hc' with ⟨rfl, rfl⟩ | ⟨x, rfl, rfl⟩ <;> rfl
  | runs hpc hlock hready => exact h.runThread hpc hready

end Serial

end Thrille
