import Thrille.Serializer.Exclusion

namespace Thrille

namespace System

variable {σ : Type} {v : Virtual σ} {s s' : System σ} {t : ThrID} {ret_addr : Addr} {op : Op}

-- What a step of a thread at `pc` makes of the program counters.
inductive Moves (t : ThrID) (pc : Pc) : ((ThrID → Pc) → ThrID → Pc) → Prop
  | stays : Moves t pc id
  | goes (pc' : Pc) (hborn : pc' ≠ .unborn) (hcreated : pc' ≠ .created)
      (hspawn : ∀ addr child ret_val, pc' ≠ .spawn addr child ret_val) :
      Moves t pc fun pcs => Function.update pcs t pc'
  | creates (addr : Addr) (child : ThrID) (ret_val : Int)
      (hpc : pc = .beforeCreate addr child ret_val) :
      Moves t pc fun pcs =>
        Function.update (Function.update pcs child .created) t (.spawn addr child ret_val)

def withPcs (self : System σ) (pcs : ThrID → Pc) : System σ := { self with pcs }

-- Scheduling does not look at the program counters.
theorem launchThread_withPcs (pcs : ThrID → Pc) (target : ThrID) (info : SchedPointInfo) :
    (s.withPcs pcs).launchThread v target info =
      (s.launchThread v target info).withPcs pcs := by
  unfold launchThread withPcs
  dsimp only
  split
  · rfl
  · split
    · rfl
    · split <;> rfl

theorem deadlockCheck_withPcs (pcs : ThrID → Pc) :
    (s.withPcs pcs).deadlockCheck = s.deadlockCheck.withPcs pcs := by
  unfold deadlockCheck withPcs
  dsimp only
  split <;> rfl

theorem schedule_withPcs (pcs : ThrID → Pc) (info : SchedPointInfo) :
    (s.withPcs pcs).schedule v info = (s.schedule v info).withPcs pcs := by
  have hlog : (s.withPcs pcs).log = s.log := rfl
  have hscheduler : (s.withPcs pcs).scheduler = s.scheduler := rfl
  unfold schedule
  rw [hlog, hscheduler]
  split
  · dsimp only
    split
    · exact deadlockCheck_withPcs (s := { s with
        scheduler := (v.pickNextSchedulingChoice s.scheduler info).2.2 }) pcs
    · rename_i target _
      exact launchThread_withPcs (s := { s with
        scheduler := (v.pickNextSchedulingChoice s.scheduler info).2.2
        tracker := s.tracker.recordScheduleInfo info.thread target }) pcs _ _
  · rename_i target log _
    exact launchThread_withPcs (s := { s with
      log
      scheduler := (v.followingChoiceFromLog s.scheduler info).2
      tracker := s.tracker.recordScheduleInfo info.thread target }) pcs _ _

theorem follows_goto {tr tr' : ExecutionTracker} {pc pc' : Pc}
    (hfollows : (Effect.goto pc').Follows tr tr' t pc) (hsection : pc.isSection = true) :
    pc' ≠ .unborn ∧ pc' ≠ .created ∧ ∀ addr child ret_val, pc' ≠ .spawn addr child ret_val := by
  have hruns : pc.runs = true := by
    cases pc <;> first
      | rfl
      | cases hsection
  cases pc with
  | signalReady w =>
      rw [show pc' = if w.timed then .checkTimeout w else .leaving (.pause (.relock w false))
        from hfollows]
      split <;> exact ⟨nofun, nofun, nofun⟩
  | checkTimeout w =>
      rw [hfollows.1]
      exact ⟨nofun, nofun, nofun⟩
  | _ =>
      obtain ⟨_, hnext, _, _, hspawn⟩ := hfollows
      refine ⟨?_, ?_, fun addr child ret_val heq => ?_⟩
      · rintro rfl
        cases hnext hruns
      · rintro rfl
        cases hnext hruns
      · rw [hspawn addr child ret_val heq, heq] at hsection
        cases hsection

theorem runThread_withPcs (hsection : (s.pcs t).isSection = true) :
    ∃ moves, Moves t (s.pcs t) moves ∧ (s.runThread v t (s.pcs t)).pcs = moves s.pcs ∧
      ∀ pcs, (s.withPcs pcs).runThread v t (s.pcs t) =
        (s.runThread v t (s.pcs t)).withPcs (moves pcs) := by
  have hgoes (pc' : Pc) (hborn : pc' ≠ .unborn) (hcreated : pc' ≠ .created)
      (hspawn : ∀ addr child ret_val, pc' ≠ .spawn addr child ret_val) :
      Moves t (s.pcs t) _ := .goes pc' hborn hcreated hspawn
  have htracker (pcs : ThrID → Pc) : (s.withPcs pcs).tracker = s.tracker := rfl
  unfold runThread
  simp only [htracker]
  cases hrun : s.tracker.runSection t (s.pcs t) with
  | error reason => exact ⟨id, .stays, rfl, fun _ => rfl⟩
  | ok result =>
      obtain ⟨tr, eff⟩ := result
      have hfollows := ExecutionTracker.runSection_follows _ hrun
      cases eff with
      | goto pc' =>
          obtain ⟨hborn, hcreated, hspawn⟩ := follows_goto hfollows hsection
          exact ⟨_, hgoes pc' hborn hcreated hspawn, rfl, fun _ => rfl⟩
      | created child pc' =>
          obtain ⟨addr, ret_val, hpc, rfl⟩ := hfollows
          exact ⟨_, .creates addr child ret_val hpc, rfl, fun _ => rfl⟩
      | signalChoice info =>
          simp only [perform]
          have hlog (pcs : ThrID → Pc) : (s.withPcs pcs).log = s.log := rfl
          have hscheduler (pcs : ThrID → Pc) : (s.withPcs pcs).scheduler = s.scheduler := rfl
          simp only [hlog, hscheduler]
          split
          · rename_i u log _
            exact ⟨_, hgoes (.handoff info u) (by rintro ⟨⟩) (by rintro ⟨⟩) (by rintro _ _ _ ⟨⟩),
              rfl, fun _ => rfl⟩
          · split
            · rename_i u scheduler _
              exact ⟨_, hgoes (.handoff info u) (by rintro ⟨⟩) (by rintro ⟨⟩) (by rintro _ _ _ ⟨⟩),
                rfl, fun _ => rfl⟩
            · exact ⟨id, .stays, rfl, fun _ => rfl⟩
      | signalled info u =>
          simp only [perform]
          split
          · exact ⟨_, hgoes (.waitReady info u) (by rintro ⟨⟩) (by rintro ⟨⟩) (by rintro _ _ _ ⟨⟩),
              rfl, fun _ => rfl⟩
          · exact ⟨id, .stays, rfl, fun _ => rfl⟩
      | schedule info r =>
          simp only [perform]
          have hschedule (pcs : ThrID → Pc) := schedule_withPcs (v := v) (s := { s with
            tracker := tr
            barriers := s.barriers.observe t (s.pcs t) }) pcs info
          have hpcs := schedule_pcs (v := v) (s := { s with
            tracker := tr
            barriers := s.barriers.observe t (s.pcs t) }) info
          split
          · rename_i hstopped
            refine ⟨id, .stays, hpcs, fun pcs => ?_⟩
            rw [if_pos]
            · exact hschedule pcs
            · rw [← hstopped]
              exact congrArg (fun s => s.stopped.isSome) (hschedule pcs)
          · rename_i hrunning
            refine ⟨_, hgoes (.launched r) (by rintro ⟨⟩) (by rintro ⟨⟩) (by rintro _ _ _ ⟨⟩), ?_,
              fun pcs => ?_⟩
            · exact congrArg (fun pcs => Function.update pcs t (.launched r)) hpcs
            · rw [if_neg]
              · exact congrArg (fun next => { System.goto next t (.launched r) with
                  tracker := next.tracker.afterSchedule t (s.pcs t)
                  global_lock := some t }) (hschedule pcs)
              · intro hsome
                apply hrunning
                rw [← hsome]
                exact (congrArg (fun next => next.stopped.isSome) (hschedule pcs)).symm

-- A step looks at no other program counter than that of a thread to join.
theorem step_withPcs (hstep : s.step v t ret_addr op = some s')
    (hspawn : ∀ addr child ret_val, s.pcs t ≠ .spawn addr child ret_val) :
    ∃ moves, Moves t (s.pcs t) moves ∧ s'.pcs = moves s.pcs ∧
      ∀ pcs, pcs t = s.pcs t → (∀ u, s.pcs u = .blocked .exit → pcs u = .blocked .exit) →
        (s.withPcs pcs).step v t ret_addr op = some (s'.withPcs (moves pcs)) := by
  obtain ⟨hrunning, htransition⟩ := step_iff.mp hstep
  have hgoes (pc' : Pc) (hborn : pc' ≠ .unborn) (hcreated : pc' ≠ .created)
      (hspawn : ∀ addr child ret_val, pc' ≠ .spawn addr child ret_val) :
      Moves t (s.pcs t) _ := .goes pc' hborn hcreated hspawn
  have hback (pcs : ThrID → Pc) (next : System σ)
      (h : Transition v (s.withPcs pcs) t ret_addr op next) :
      (s.withPcs pcs).step v t ret_addr op = some next := step_iff.mpr ⟨hrunning, h⟩
  cases htransition with
  | asks ret_val hpc =>
      exact ⟨_, hgoes (.enter ret_addr op) nofun nofun nofun, rfl, fun pcs hself _ =>
        hback pcs _ (.asks ret_val (hself.trans hpc))⟩
  | spawns addr child hpc => exact absurd hpc (hspawn _ _ _)
  | starts hpc hlock =>
      exact ⟨_, hgoes (.leaving (.pause .start)) nofun nofun nofun, rfl, fun pcs hself _ =>
        hback pcs _ (.starts (hself.trans hpc) hlock)⟩
  | unlocks r hpc =>
      exact ⟨_, hgoes (.leaving r) nofun nofun nofun, rfl, fun pcs hself _ =>
        hback pcs _ (.unlocks r (hself.trans hpc))⟩
  | leaves r hpc hlock =>
      exact ⟨_, hgoes (.blocked r) nofun nofun nofun, rfl, fun pcs hself _ =>
        hback pcs _ (.leaves r (hself.trans hpc) hlock)⟩
  | resumes k n hpc hsem =>
      exact ⟨_, hgoes (.resume k) nofun nofun nofun, rfl, fun pcs hself _ =>
        hback pcs _ (.resumes k n (hself.trans hpc) hsem)⟩
  | wakes w n hpc hsem =>
      exact ⟨_, hgoes (.woken w) nofun nofun nofun, rfl, fun pcs hself _ =>
        hback pcs _ (.wakes w n (hself.trans hpc) hsem)⟩
  | runs hsection hlock hready =>
      obtain ⟨moves, hmoves, hpcs, hrun⟩ := runThread_withPcs (v := v) hsection
      refine ⟨moves, hmoves, hpcs, fun pcs hself hexit => ?_⟩
      rw [← hrun pcs, ← hself]
      refine hback pcs _ (.runs (by rwa [← hself] at hsection) (by rwa [← hself] at hlock) ?_)
      have hself' : (s.withPcs pcs).pcs t = s.pcs t := hself
      rw [hself']
      cases hat : s.pcs t with
      | resume k =>
          cases k with
          | join target =>
              rw [hat] at hready
              simp only [ready] at hready
              split at hready
              · rename_i hblocked
                simp only [ready, withPcs, hexit target hblocked]
              · cases hready
          | _ => rfl
      | originalLock lock => rwa [hat] at hready
      | waitReady info target => rwa [hat] at hready
      | _ => rfl

end System

end Thrille
