import Thrille.Replay.Mirrored

namespace Thrille

open Relation Lockstep ExecutionTracker

namespace DecisionInfo

-- The threads that there were to choose from.
def listed : DecisionInfo → List ThrID
  | sched _ _ _ _ enabled => enabled
  | signal _ _ _ _ oncond => oncond

-- The same decision with another choice.
def choosing (thr : ThrID) : DecisionInfo → DecisionInfo
  | sched _ caller description idaddr enabled => .sched thr caller description idaddr enabled
  | signal _ caller idaddr cond oncond => .signal thr caller idaddr cond oncond

end DecisionInfo

-- The entries of the log for the ends of a section that choose.
def SchedPointInfo.entry (info : SchedPointInfo) (target : ThrID) (enabled : List ThrID) :
    DecisionInfo :=
  .sched target info.thread (DecisionInfo.changeSpacesToUnderscores info.type) info.ret_addr enabled

def SignalPointInfo.entry (info : SignalPointInfo) (target : ThrID) : DecisionInfo :=
  .signal target info.thread info.ret_addr info.cond (info.cond_map.threadsAt info.cond)

namespace System

variable {σ : Type} {v : Virtual σ} {s s' : System σ} {t u alt : ThrID} {ret_addr : Addr} {op : Op}
  {c : Control} {tr : ExecutionTracker} {made : List ThrID}

-- A thread that is enabled at the end of a section can be launched there.
theorem launch_isOk {info : SchedPointInfo} {r : Rest} (hserial : Serial s c)
    (hadvances : s.Advances t) (hstep : s.step v t ret_addr op = some s')
    (hrun : s.tracker.runSection t (s.pcs t) = .ok (tr, .schedule info r))
    (henabled : tr.enable_map.getD alt false = true) :
    ∃ tracker, (tr.recordScheduleInfo info.thread alt).launch alt = .ok tracker := by
  have hborn : s.pcs alt ≠ .unborn := by
    intro hunborn
    have hfit := (consistent_ended hserial hadvances hstep hrun).fits alt
    have hne : alt ≠ t := by
      rintro rfl
      rw [Advances, hunborn] at hadvances
      cases hadvances
    rw [Effect.stages, Function.update_of_ne hne, hunborn] at hfit
    have hentries : tr.entries alt = { enabled := false } := hfit
    have hoff : tr.enable_map.getD alt false = false := congrArg Entries.enabled hentries
    rw [henabled] at hoff
    cases hoff
  have hposts : (tr.recordScheduleInfo info.thread alt).posts = s.tracker.posts := by
    rw [(tr.recordScheduleInfo_keeps info.thread alt).1]
    exact posts_runSection _ (runSection_follows _ hrun).2.2.1 hrun
  have hsem := congrArg (fun posts => posts.sem alt) hposts
  have hwait := congrArg (fun posts => posts.waitSem alt) hposts
  change (tr.recordScheduleInfo info.thread alt).sem_map alt = s.tracker.sem_map alt at hsem
  change (tr.recordScheduleInfo info.thread alt).wait_sem_map alt = s.tracker.wait_sem_map alt
    at hwait
  unfold launch
  split
  · refine (waitWakeThread_isOk _ alt).mpr ?_
    rw [setSignalled_wait_sem_map, hwait, hserial.controlled.waitSem alt hborn]
    rfl
  · refine (wakeThread_isOk _ alt).mpr ?_
    rw [hsem, hserial.controlled.sem alt hborn]
    rfl

-- A thread that waits for the condition can be signalled.
theorem signalled_isOk {info : SignalPointInfo} (hserial : Serial s c)
    (hpc : s.pcs t = .handoff info alt) (halt : alt ∈ info.cond_map.threadsAt info.cond) :
    ∃ tr tracker, s.tracker.runSection t (s.pcs t) = .ok (tr, .signalled info alt) ∧
      tr.waitWakeThread alt = .ok tracker := by
  have hcond : info.cond_map[alt]? = some info.cond := (PtrMap.mem_threadsAt _ _ _).mp halt
  have hcopy : info.cond_map = s.tracker.cond_map := hserial.controlled.copy t info alt hpc
  have hborn : s.pcs alt ≠ .unborn := by
    intro hunborn
    have hfit := hserial.consistent.fits alt
    rw [hunborn] at hfit
    rw [hcopy] at hcond
    obtain ⟨w, hw, _⟩ := hfit.cond info.cond hcond
    cases hw
  have hsome : ((s.tracker.setWaitReady alt false).wait_sem_map alt).isSome = true := by
    rw [setWaitReady_wait_sem_map, hserial.controlled.waitSem alt hborn]
    rfl
  obtain ⟨tracker, hwake⟩ := (waitWakeThread_isOk _ alt).mpr hsome
  refine ⟨s.tracker.setWaitReady alt false, tracker, ?_, hwake⟩
  rw [hpc]
  simp only [runSection, scheduleThreadWaitingOnCond, safe_assert_bind]
  exact ⟨by simp [hcond], rfl⟩

-- What the signaller logs.
theorem advanced_handoff {info : SignalPointInfo} (h : Advanced v s t ret_addr op s' made)
    (hpc : s.pcs t = .handoff info u) (hbroadcast : info.isBroadcast = false) :
    s'.log.schedule = s.log.schedule ++ [info.entry u] := by
  cases h with
  | asks ret_val hat hview hlog hscheduler => rw [hpc] at hat; cases hat
  | spawns addr child hat hview hlog hscheduler => rw [hpc] at hat; cases hat
  | runs tr eff choice enabled hat hrun hdecides hview =>
      rw [hpc] at hrun
      simp only [runSection, scheduleThreadWaitingOnCond, safe_assert_bind] at hrun
      cases hrun.2
      have hschedule := congrArg View.schedule hview
      simp only [View.perform, Logger.signalScheduling, hbroadcast] at hschedule
      exact hschedule

end System

section Decision

variable {σ : Type} {v : Virtual σ} {prog : Program} {a a₁ a₂ last : Run σ} {t : ThrID}

-- Where a run makes a decision that it logs later on.
theorem exists_decision (hon : ReflTransGen (Run.Step v prog) a last)
    (hserial : ∃ c, Serial a.system c) (hrunning : last.system.stopped = none)
    {choices : List ThrID} (hchosen : a.system.view.Chosen choices) {n : Nat}
    (hle : choices.length ≤ n) (hlt : n < last.system.log.schedule.length) :
    ∃ a₁ a₂ t x, ReflTransGen (Run.Step v prog) a a₁ ∧ (∃ c, Serial a₁.system c) ∧
      Run.step v prog a₁ t = some a₂ ∧ a₁.system.Advances t ∧
      ReflTransGen (Run.Step v prog) a₂ last ∧
      System.Advanced v a₁.system t (prog (a₁.turn t)).1 (prog (a₁.turn t)).2 a₂.system [x] ∧
      a₁.system.log.schedule.length = n ∧
      a₁.system.view.Chosen (a₁.system.log.schedule.map DecisionInfo.getChosen) := by
  induction hon using ReflTransGen.head_induction_on generalizing choices with
  | refl =>
      obtain ⟨u, _, rfl⟩ := hchosen
      rw [List.length_append, List.length_map] at hle
      have hschedule : last.system.view.schedule = last.system.log.schedule := rfl
      rw [hschedule] at hle
      omega
  | @head a a' hstep hrest ih =>
      have hrunning' := Run.running_of_steps hrest hrunning
      have hserial' := Run.serial_of_step hstep hserial hrunning'
      obtain ⟨t, hstep⟩ := hstep
      obtain ⟨hsystem, _⟩ := Run.step_iff.mp hstep
      obtain ⟨c, hserial⟩ := hserial
      have hagain {more : List ThrID} (hchosen' : a'.system.view.Chosen more)
          (hmore : more.length ≤ n) := ih hserial' hchosen' hmore
      by_cases hadvances : a.system.Advances t
      · obtain ⟨made, hadvanced⟩ := System.advanced_of_step hserial hadvances hsystem hrunning'
        have hmoves := System.moves_of_step hsystem hadvances
        have hchosen' := hadvanced.chosen hserial hadvances hmoves hchosen
        by_cases hmore : (choices ++ made).length ≤ n
        · obtain ⟨a₁, a₂, t, x, hto, hrest⟩ := hagain hchosen' hmore
          exact ⟨a₁, a₂, t, x, .head ⟨_, hstep⟩ hto, hrest⟩
        · rcases hadvanced.made_cases with rfl | ⟨x, rfl, hpending⟩
          · rw [List.append_nil] at hmore
            omega
          · rw [List.length_append, List.length_singleton] at hmore
            have hchoices : choices = a.system.log.schedule.map DecisionInfo.getChosen := by
              rw [(System.chosen_at hserial hmoves hchosen).2]
              show a.system.log.schedule.map _ ++ (a.system.place t).pending = _
              rw [hadvances.place_eq, hpending, List.append_nil]
            have hlength := congrArg List.length hchoices
            rw [List.length_map] at hlength
            rw [hchoices] at hchosen
            exact ⟨a, a', t, x, .refl, ⟨c, hserial⟩, hstep, hadvances, hrest, hadvanced, by omega,
              hchosen⟩
      · rw [← (System.view_of_quiet hsystem hadvances).1] at hchosen
        obtain ⟨a₁, a₂, t, x, hto, hrest⟩ := hagain hchosen hle
        exact ⟨a₁, a₂, t, x, .head ⟨_, hstep⟩ hto, hrest⟩

-- A signaller that has chosen a thread logs it before anything else is logged.
theorem logs_handoff (hon : ReflTransGen (Run.Step v prog) a last)
    (hserial : ∃ c, Serial a.system c) (hrunning : last.system.stopped = none)
    {info : SignalPointInfo} {x : ThrID} (hplace : a.system.view.places t = .handoff info x)
    (hbroadcast : info.isBroadcast = false)
    (hlt : a.system.log.schedule.length < last.system.log.schedule.length) :
    a.system.log.schedule ++ [info.entry x] <+: last.system.log.schedule := by
  induction hon using ReflTransGen.head_induction_on with
  | refl => omega
  | @head a a' hstep hrest ih =>
      have hrunning' := Run.running_of_steps hrest hrunning
      have hserial' := Run.serial_of_step hstep hserial hrunning'
      obtain ⟨u, hstep⟩ := hstep
      obtain ⟨hsystem, _⟩ := Run.step_iff.mp hstep
      obtain ⟨c, hserial⟩ := hserial
      by_cases hadvances : a.system.Advances u
      · have hmoves := System.moves_of_step hsystem hadvances
        have hpending : (a.system.view.places t).pending ≠ [] := by
          rw [hplace, Pc.pending, hbroadcast]
          rintro ⟨⟩
        have hsame : t = u :=
          System.moves_unique hserial (View.moves_of_pending hpending) hmoves
        subst hsame
        obtain ⟨made, hadvanced⟩ := System.advanced_of_step hserial hadvances hsystem hrunning'
        have hpc : a.system.pcs t = .handoff info x := hadvances.place_eq.symm.trans hplace
        rw [← System.advanced_handoff hadvanced hpc hbroadcast]
        exact Run.grows_of_steps hrest
      · obtain ⟨hview, _, _, hlog, _⟩ := System.view_of_quiet hsystem hadvances
        rw [← hlog]
        refine ih hserial' ?_ ?_
        · rw [hview]
          exact hplace
        · rw [hlog]
          exact hlt

end Decision

namespace System

variable {σ τ : Type} {v : Virtual σ} {w : Virtual τ} {rel : σ → τ → Prop} {a : System σ}
  {b b' : System τ} {t x alt : ThrID} {ret_addr : Addr} {op : Op} {c : Control}
  {tr : ExecutionTracker} {enabled more : List ThrID} {rest : List DecisionInfo} {scheduler : σ}

-- At the end of a section where one run has chosen a thread, the other one launches another one
-- that the log shows.
theorem branch_schedule {info : SchedPointInfo} {r : Rest} (hbranches : Branches v w rel)
    (hview : a.view = b.view) (hpc : a.pcs t = b.pcs t) (hrel : rel a.scheduler b.scheduler)
    (hserial : Serial b c) (hadvances : b.Advances t) (hsection : (b.pcs t).isSection = true)
    (hstep : b.step w t ret_addr op = some b')
    (hrun : a.tracker.runSection t (a.pcs t) = .ok (tr, .schedule info r))
    (hdecides : Decides v (a.ended t tr) (.schedule info r) x enabled rest scheduler)
    (halt : alt ∈ enabled)
    (hread : b.log.read_schedule.map DecisionInfo.getChosen = alt :: more) :
    b'.stopped = none ∧ b'.log.schedule = b.log.schedule ++ [info.entry alt enabled] := by
  obtain ⟨tr', hrun', htracker⟩ := runSection_of_view hview hpc hrun
  have hmap : tr'.settled.enable_map = tr.settled.enable_map := by rw [htracker]
  change tr'.enable_map = tr.enable_map at hmap
  obtain ⟨_, hcopy, _⟩ := runSection_follows _ hrun
  obtain ⟨d, read, hb, hd, _⟩ := exists_read hread
  cases hdecides with
  | schedule info r fromLog x fenmap rest scheduler tracker hfollows hdecides henabled hadmits
      hlaunch =>
      have hinfo : ({ info with fenmap, fromLog, enabled := tr.enable_map } : SchedPointInfo) =
          { info with fenmap, fromLog } := by rw [← hcopy]
      change alt ∈ Logger.enabledThreads
        (v.logged { info with fenmap, fromLog, enabled := tr.enable_map }) at halt
      change _ ∧ b'.log.schedule = b.log.schedule ++ [info.entry alt (Logger.enabledThreads
        (v.logged { info with fenmap, fromLog, enabled := tr.enable_map }))]
      rw [hinfo] at halt ⊢
      obtain ⟨fenmap', y', hfollow, hlogged, hadmits', henabled'⟩ :=
        hbranches _ _ _ _ _ _ _ _ (runSection_fresh _ hrun).1 hrel hdecides halt
      rw [← hlogged]
      rw [hcopy, ← hmap] at henabled'
      obtain ⟨tracker', hlaunch'⟩ := launch_isOk hserial hadvances hstep hrun' henabled'
      have hinfo' : ({ info with fenmap := fenmap', fromLog := true, enabled := tr'.enable_map } :
          SchedPointInfo) = { info with fenmap := fenmap', fromLog := true } := by
        rw [hmap, ← hcopy]
      rw [← hinfo'] at hadmits' ⊢
      obtain ⟨hrunning, hview', _⟩ := runThread_of_decides hserial hadvances hstep hrun'
        (.schedule info r true alt fenmap' read y' tracker' ⟨d, hb, hd⟩ hfollow henabled' hadmits'
          hlaunch')
      obtain ⟨_, htransition⟩ := step_iff.mp hstep
      cases htransition with
      | runs _ hlock hready => exact ⟨hrunning, congrArg View.schedule hview'⟩
      | _ => simp_all [Pc.isSection]

-- The same for a signal, which is logged in the step after.
theorem branch_signal {info : SignalPointInfo} (hview : a.view = b.view)
    (hpc : a.pcs t = b.pcs t) (hserial : Serial b c) (hadvances : b.Advances t)
    (hsection : (b.pcs t).isSection = true) (hstep : b.step w t ret_addr op = some b')
    (hrun : a.tracker.runSection t (a.pcs t) = .ok (tr, .signalChoice info))
    (hread : b.log.read_schedule.map DecisionInfo.getChosen = alt :: more) :
    b'.stopped = none ∧ b'.log.schedule = b.log.schedule ∧
      b'.view.places t = .handoff info alt := by
  obtain ⟨tr', hrun', _⟩ := runSection_of_view hview hpc hrun
  obtain ⟨d, read, hb, hd, _⟩ := exists_read hread
  obtain ⟨hrunning, hview', _⟩ := runThread_of_decides hserial hadvances hstep hrun'
    (.signalChoice info true alt [] read b.scheduler ⟨d, hb, hd⟩ rfl)
  obtain ⟨_, htransition⟩ := step_iff.mp hstep
  cases htransition with
  | runs _ hlock hready =>
      refine ⟨hrunning, congrArg View.schedule hview', ?_⟩
      rw [hview']
      exact Function.update_self _ _ _
  | _ => simp_all [Pc.isSection]

end System

end Thrille
