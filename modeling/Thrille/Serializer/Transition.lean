import Thrille.Serializer.System

namespace Thrille

-- The places where a thread has a section of code to run.
def Pc.isSection : Pc → Bool
  | unborn => false
  | created => false
  | threadStart => false
  | launched _ => false
  | leaving _ => false
  | blocked _ => false
  | program _ => false
  | spawn .. => false
  | _ => true

namespace System

variable {σ : Type}

-- What a step of thread `t` does, by where the thread is.
inductive Transition (v : Virtual σ) (s : System σ) (t : ThrID) (ret_addr : Addr) (op : Op) :
    System σ → Prop
  | asks (ret_val : Int) (hpc : s.pcs t = .program ret_val) :
      Transition v s t ret_addr op
        { s.goto t (.enter ret_addr op) with issued := s.issued + 1 }
  | spawns (addr : Addr) (child : ThrID)
      (hpc : s.pcs t = .spawn addr child OPERATION_SUCCESSFUL) :
      Transition v s t ret_addr op
        ((s.goto child .threadStart).goto t (.afterCreate addr OPERATION_SUCCESSFUL))
  | starts (hpc : s.pcs t = .threadStart) (hlock : s.global_lock = none) :
      Transition v s t ret_addr op (s.goto t (.leaving (.pause .start)))
  | unlocks (r : Rest) (hpc : s.pcs t = .launched r) :
      Transition v s t ret_addr op { s.goto t (.leaving r) with global_lock := none }
  | leaves (r : Rest) (hpc : s.pcs t = .leaving r) (hlock : s.global_lock = none) :
      Transition v s t ret_addr op (s.goto t (.blocked r))
  | resumes (k : Pending) (n : Nat) (hpc : s.pcs t = .blocked (.pause k))
      (hsem : s.tracker.sem_map t = some (n + 1)) :
      Transition v s t ret_addr op
        ({ s with tracker := s.tracker.setSem t n }.goto t (.resume k))
  | wakes (w : Wait) (n : Nat) (hpc : s.pcs t = .blocked (.wait w))
      (hsem : s.tracker.wait_sem_map t = some (n + 1)) :
      Transition v s t ret_addr op
        ({ s with tracker := s.tracker.setWaitSem t n }.goto t (.woken w))
  | runs (hpc : (s.pcs t).isSection = true)
      (hlock : (s.pcs t).unlocked = true ∨ s.global_lock = none)
      (hready : s.ready (s.pcs t) = true) :
      Transition v s t ret_addr op (s.runThread v t (s.pcs t))

variable {v : Virtual σ} {s s' : System σ} {t : ThrID} {ret_addr : Addr} {op : Op}

theorem step_section (hstopped : s.stopped = none) (hpc : (s.pcs t).isSection = true) :
    s.step v t ret_addr op =
      if ((s.pcs t).unlocked || s.global_lock.isNone) && s.ready (s.pcs t) then
        some (s.runThread v t (s.pcs t))
      else none := by
  unfold step
  rw [hstopped]
  cases h : s.pcs t <;> first
    | rfl
    | rw [h] at hpc
      cases hpc

theorem step_iff :
    s.step v t ret_addr op = some s' ↔ s.stopped = none ∧ Transition v s t ret_addr op s' := by
  cases hstopped : s.stopped with
  | some stop => simp [step, hstopped]
  | none =>
      refine ⟨fun h => ⟨rfl, ?_⟩, fun ⟨_, h⟩ => ?_⟩
      · by_cases hsection : (s.pcs t).isSection = true
        · rw [step_section hstopped hsection] at h
          split at h
          · rename_i hguard
            simp only [Bool.and_eq_true, Bool.or_eq_true, Option.isNone_iff_eq_none] at hguard
            cases h
            exact .runs hsection hguard.1 hguard.2
          · cases h
        · have hrun : ¬ s.stopped.isSome = true := by simp [hstopped]
          simp only [step, if_neg hrun] at h
          cases hpc : s.pcs t with
          | unborn => simp [hpc] at h
          | created => simp [hpc] at h
          | program ret_val =>
              simp only [hpc] at h
              cases h
              exact .asks ret_val hpc
          | threadStart =>
              simp only [hpc, Option.isNone_iff_eq_none] at h
              split at h
              · rename_i hlock
                cases h
                exact .starts hpc hlock
              · cases h
          | launched r =>
              simp only [hpc] at h
              cases h
              exact .unlocks r hpc
          | leaving r =>
              simp only [hpc, Option.isNone_iff_eq_none] at h
              split at h
              · rename_i hlock
                cases h
                exact .leaves r hpc hlock
              · cases h
          | blocked r =>
              cases r with
              | exit => simp [hpc] at h
              | pause k =>
                  simp only [hpc] at h
                  split at h
                  · rename_i n hsem
                    cases h
                    exact .resumes k n hpc hsem
                  · cases h
              | wait w =>
                  simp only [hpc] at h
                  split at h
                  · rename_i n hsem
                    cases h
                    exact .wakes w n hpc hsem
                  · cases h
          | spawn addr child ret_val =>
              simp only [hpc] at h
              split at h
              · rename_i hret
                cases h
                cases hret
                exact .spawns addr child hpc
              · cases h
          | _ =>
              rw [hpc] at hsection
              exact absurd rfl hsection
      · cases h with
        | asks ret_val hpc => simp [step, hstopped, hpc]
        | spawns addr child hpc => simp [step, hstopped, hpc]
        | starts hpc hlock => simp [step, hstopped, hpc, hlock]
        | unlocks r hpc => simp [step, hstopped, hpc]
        | leaves r hpc hlock => simp [step, hstopped, hpc, hlock]
        | resumes k n hpc hsem => simp [step, hstopped, hpc, hsem]
        | wakes w n hpc hsem => simp [step, hstopped, hpc, hsem]
        | runs hpc hlock hready =>
            rw [step_section hstopped hpc, hready]
            rcases hlock with hlock | hlock
            · simp [hlock]
            · simp [hlock]

-- What scheduling does.

variable (target : ThrID) (info : SchedPointInfo)

theorem launchThread_pcs : (s.launchThread v target info).pcs = s.pcs := by
  unfold launchThread
  dsimp only
  split
  · rfl
  · split
    · rfl
    · split <;> rfl

theorem launchThread_log :
    (s.launchThread v target info).log =
      s.log.scheduling target { info with enabled := v.logged info } := by
  unfold launchThread
  dsimp only
  split
  · rfl
  · split
    · rfl
    · split <;> rfl

theorem launchThread_cases (h : (s.launchThread v target info).stopped = none) :
    s.tracker.isEnabled target = true ∧ v.admits info target = true ∧
      ∃ tracker, s.tracker.launch target = .ok tracker ∧
        s.launchThread v target info = { s with
          tracker
          log := s.log.scheduling target { info with enabled := v.logged info } } := by
  unfold launchThread at h ⊢
  dsimp only at h ⊢
  split at h
  · cases h
  · rename_i henabled
    split at h
    · cases h
    · rename_i hadmits
      rw [if_neg henabled, if_neg hadmits]
      simp only [Bool.not_eq_true', Bool.not_eq_false] at henabled hadmits
      refine ⟨henabled, hadmits, ?_⟩
      split at h
      · rename_i tracker hlaunch
        exact ⟨tracker, hlaunch, rfl⟩
      · cases h

theorem deadlockCheck_stopped : s.deadlockCheck.stopped ≠ none := by
  unfold deadlockCheck
  split <;> nofun

theorem deadlockCheck_pcs : s.deadlockCheck.pcs = s.pcs := by
  unfold deadlockCheck
  split <;> rfl

theorem deadlockCheck_log : s.deadlockCheck.log = s.log := by
  unfold deadlockCheck
  split <;> rfl

theorem schedule_pcs : (s.schedule v info).pcs = s.pcs := by
  unfold schedule
  split
  · dsimp only
    split
    · exact deadlockCheck_pcs
    · exact launchThread_pcs _ _
  · exact launchThread_pcs _ _

theorem getNextChoice_schedule (log : Logger) : log.getNextChoice.2.schedule = log.schedule := by
  unfold Logger.getNextChoice
  split <;> rfl

-- A schedule point logs at most one entry, by the thread that schedules.
theorem schedule_log :
    (s.schedule v info).log.schedule = s.log.schedule ∨
      ∃ target desc enabled, (s.schedule v info).log.schedule =
        s.log.schedule ++ [.sched target info.thread desc info.ret_addr enabled] := by
  unfold schedule
  split
  · dsimp only
    split
    · rw [deadlockCheck_log]
      exact Or.inl rfl
    · rw [launchThread_log]
      exact Or.inr ⟨_, _, _, rfl⟩
  · rename_i target log hnext
    rw [launchThread_log]
    have hlog : log.schedule = s.log.schedule := by
      have heq := getNextChoice_schedule s.log
      rw [show s.log.getNextChoice = (some target, log) from hnext] at heq
      exact heq
    rw [← hlog]
    exact Or.inr ⟨target, _, _, rfl⟩

theorem schedule_cases (h : (s.schedule v info).stopped = none) :
    ∃ target fenmap fromLog log scheduler tracker,
      s.tracker.isEnabled target = true ∧
      v.admits { info with fenmap, fromLog, enabled := s.tracker.enable_map } target = true ∧
      (s.tracker.recordScheduleInfo info.thread target).launch target = .ok tracker ∧
      log.schedule = s.log.schedule ++ [.sched target info.thread
        (DecisionInfo.changeSpacesToUnderscores info.type) info.ret_addr
        (Logger.enabledThreads
          (v.logged { info with fenmap, fromLog, enabled := s.tracker.enable_map }))] ∧
      s.schedule v info = { s with tracker, log, scheduler } := by
  have henabled (target : ThrID) :
      (s.tracker.recordScheduleInfo info.thread target).isEnabled = s.tracker.isEnabled := by
    unfold ExecutionTracker.recordScheduleInfo
    split
    · rfl
    · split <;> rfl
  unfold schedule at h ⊢
  split at h
  · rename_i hnext
    dsimp only at h ⊢
    split at h
    · exact absurd h deadlockCheck_stopped
    · rename_i target hpick
      obtain ⟨hen, hadmits, tracker, hlaunch, heq⟩ := launchThread_cases _ _ h
      rw [henabled] at hen
      refine ⟨target, _, _, _, _, tracker, hen, hadmits, hlaunch, ?_, heq⟩
      rfl
  · rename_i target log hnext
    dsimp only at h ⊢
    obtain ⟨hen, hadmits, tracker, hlaunch, heq⟩ := launchThread_cases _ _ h
    rw [henabled] at hen
    have hlog : log.schedule = s.log.schedule := by
      have hread := getNextChoice_schedule s.log
      rw [show s.log.getNextChoice = (some target, log) from hnext] at hread
      exact hread
    refine ⟨target, _, _, _, _, tracker, hen, hadmits, hlaunch, ?_, heq⟩
    simp only [Logger.scheduling, hlog]

end System

end Thrille
