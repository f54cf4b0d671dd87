import Thrille.Serializer.Serial
import Thrille.Serializer.Trackers

namespace Thrille

-- Before the constructor runs there is no thread.
theorem Consistent.empty : Consistent {} fun _ => .unborn := by
  refine ⟨fun u => ?_, fun t u _ => ?_, fun u => ?_, fun t u h => ?_⟩
  · simp [Stage.Fits, ExecutionTracker.entries]
  · simp
  · simp
  · cases h

-- The main thread starts as if it had come out of its first pause.
theorem Consistent.initial :
    Consistent ExecutionTracker.new (Function.update (fun _ => .unborn) 0 .active) := by
  have hborn := Consistent.empty.initializeThreadData 0 rfl
  have henabled : ExecutionTracker.new.isEnabled 0 = true := by
    simp [ExecutionTracker.new, ExecutionTracker.isEnabled, ExecutionTracker.initializeThreadData,
      ExecutionTracker.enableThread]
  have hresumed := hborn.takeTurn .start (Function.update_self 0 _ _) henabled
  rw [Function.update_idem] at hresumed
  have hactive := hresumed.resume (t := 0) .start (Function.update_self 0 _ _)
    (fun u hu k h => by rw [Function.update_of_ne hu] at h; cases h) rfl
  rwa [Effect.stages, Function.update_idem] at hactive

variable {σ : Type} {v : Virtual σ}

theorem initial_pcs (scheduler : σ) (read_schedule : List DecisionInfo) (u : ThrID) :
    (System.initial scheduler read_schedule).pcs u =
      if u = 0 then .program OPERATION_SUCCESSFUL else .unborn := by
  by_cases hu : u = 0
  · simp [System.initial, hu]
  · simp [System.initial, hu]

theorem Serial.initial (scheduler : σ) (read_schedule : List DecisionInfo) :
    Serial (System.initial scheduler read_schedule) (.running 0) := by
  have hmain (u : ThrID) (hu : (System.initial scheduler read_schedule).pcs u ≠ .unborn) :
      u = 0 := by
    by_contra hne
    rw [initial_pcs, if_neg hne] at hu
    exact hu rfl
  refine ⟨rfl, Controlled.of_not_special (fun u => ?_) (fun u hu => ?_) (fun u hu => ?_)
    (fun u hu => ?_) (fun u hu => ?_) (fun u => ?_) (fun u hu => ?_), ?_, nofun, trivial, rfl⟩
  · rw [initial_pcs]
    split <;> rfl
  · rw [hmain u hu]
    rfl
  · rw [hmain u hu]
    rfl
  · rw [hmain u hu]
    rfl
  · rw [hmain u hu]
    rfl
  · rw [initial_pcs]
    by_cases hu : u = 0
    · simp [hu, Control.Role, Pc.runs, Pc.wakes]
    · simp [hu, Control.Role, Pc.Rests]
  · have hne : u ≠ 0 := Nat.ne_of_gt hu
    rw [initial_pcs, if_neg hne]
  · have hc := Consistent.initial
    rw [show Stage.active = (Pc.program OPERATION_SUCCESSFUL).stage from rfl,
      show (fun _ => Stage.unborn) = (fun u => ((fun _ => Pc.unborn) u).stage) from rfl,
      ← Pc.stage_update] at hc
    exact hc

-- Every state of a run is in order, or the run has been ended.
theorem System.Reachable.serial {asks : System σ → ThrID → Addr → Op → Prop} {s : System σ}
    (h : System.Reachable v asks s) : (∃ c, Serial s c) ∨ Halted s := by
  obtain ⟨scheduler, read_schedule, hrun⟩ := h
  induction hrun with
  | refl => exact Or.inl ⟨_, Serial.initial scheduler read_schedule⟩
  | tail _ hstep ih =>
      obtain ⟨t, ret_addr, op, _, hstep⟩ := hstep
      rcases ih with ⟨c, hserial⟩ | hhalted
      · exact hserial.step hstep
      · rw [System.step_iff] at hstep
        exact absurd hstep.1 hhalted.stopped

-- A thread is in the program only while every other live thread is blocked on a semaphore of its
-- own that holds no post, or is on its way to one, or is finishing.
theorem program_is_serial (s : System σ) (h : System.Reachable v (fun _ _ _ _ => True) s) :
    (∀ t, (s.pcs t).inProgram = true → ∀ u, u ≠ t → s.pcs u ≠ .unborn →
      s.tracker.sem_map u = some 0 ∧ s.tracker.wait_sem_map u = some 0 ∧
      ∃ r, s.pcs u = .blocked r ∨ s.pcs u = .leaving r ∨ s.pcs u = .launched r ∨
        s.pcs u = .threadStart ∧ r = .pause .start ∨
        ∃ w, s.pcs u = .checkTimeout w ∧ s.tracker.was_signalled_map u = true ∧
          r = .pause (.relock w false)) ∧
    DecisionInfo.Chain 0 s.log.schedule := by
  rcases h.serial with ⟨c, hserial⟩ | hhalted
  · refine ⟨fun t hprogram u hu hborn => ?_, hserial.chain⟩
    obtain ⟨ret_val, hpc⟩ := Pc.program_of_inProgram hprogram
    have hcontrolled := hserial.controlled
    have hc : c = .running t :=
      hcontrolled.runner (by rw [hpc]; rfl) (by rw [hpc]; rfl) (by simp [hpc])
    subst hc
    refine ⟨hcontrolled.sem u hborn, hcontrolled.waitSem u hborn, ?_⟩
    rcases hcontrolled.others u hu with hnew | hcreated | hsome
    · exact absurd hnew hborn
    · -- the creator would still be in `pthread_create`
      obtain ⟨r, addr, rv, hr, hspawn⟩ := hcontrolled.created u hcreated
      cases hr
      rw [hpc] at hspawn
      cases hspawn
    · obtain ⟨r, hr⟩ := Option.isSome_iff_exists.mp hsome
      refine ⟨r, ?_⟩
      cases hat : s.pcs u with
      | threadStart =>
          rw [hat] at hr
          cases hr
          simp
      | checkTimeout w =>
          rw [hat] at hr
          simp only [Pc.heading] at hr
          split at hr
          · rename_i hsignalled
            cases hr
            simp [hsignalled]
          · cases hr
      | launched r' => rw [hat] at hr; cases hr; simp
      | leaving r' => rw [hat] at hr; cases hr; simp
      | blocked r' => rw [hat] at hr; cases hr; simp
      | _ => rw [hat] at hr; cases hr
  · refine ⟨fun t hprogram => ?_, hhalted.chain⟩
    obtain ⟨ret_val, hpc⟩ := Pc.program_of_inProgram hprogram
    exact absurd hpc (hhalted.outside t ret_val)

-- The main thread creates a thread and joins it, and the child is in the program.
def joinChild : List (ThrID × Addr × Op) :=
  [(0, 1, .create 0), (0, 1, .exit), (0, 1, .exit), (0, 1, .exit), (0, 1, .exit), (0, 1, .exit),
    (0, 1, .exit), (0, 1, .exit), (0, 1, .exit), (0, 2, .join 1), (0, 1, .exit), (0, 1, .exit),
    (0, 1, .exit), (1, 1, .exit), (1, 1, .exit), (1, 1, .exit), (1, 1, .exit)]

theorem program_is_serial_joinChild :
    ∃ s, (System.initial () []).run ExecutionTracker.virtual joinChild = some s ∧
      (s.pcs 1).inProgram = true ∧ s.log.schedule.length = 2 ∧
      s.tracker.sem_map 0 = some 0 ∧ s.tracker.wait_sem_map 0 = some 0 ∧
      DecisionInfo.Chain 0 s.log.schedule := by
  have hsome : ((System.initial () []).run ExecutionTracker.virtual joinChild).isSome = true := by
    decide +kernel
  obtain ⟨s, hs⟩ := Option.isSome_iff_exists.mp hsome
  have hstate : ((System.initial () []).run ExecutionTracker.virtual joinChild).all (fun s =>
      (s.pcs 1).inProgram && (s.pcs 0).stage == .pending (.join 1) &&
        s.log.schedule.length == 2) = true := by
    decide +kernel
  rw [hs] at hstate
  simp only [Option.all_some, Bool.and_eq_true, beq_iff_eq] at hstate
  obtain ⟨⟨hprogram, hjoin⟩, hlength⟩ := hstate
  have hborn : s.pcs 0 ≠ .unborn := by
    intro hnew
    rw [hnew] at hjoin
    cases hjoin
  obtain ⟨hothers, hchain⟩ := program_is_serial (v := ExecutionTracker.virtual) s
    ⟨(), [], System.reaches_of_run _ _ s joinChild hs⟩
  obtain ⟨hsem, hwait, _⟩ := hothers 1 hprogram 0 (by decide) hborn
  exact ⟨s, hs, hprogram, hlength, hsem, hwait, hchain⟩

end Thrille
