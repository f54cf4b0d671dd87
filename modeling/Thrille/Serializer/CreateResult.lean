import Thrille.Serializer.Create

namespace Thrille

namespace System

variable {σ : Type} {v : Virtual σ} {s s' : System σ} {t : ThrID} {ret_addr : Addr} {op : Op}

-- The global lock is held across steps only by a thread that has just scheduled.
def Locked (s : System σ) : Prop := ∀ u, s.global_lock = some u → ∃ r, s.pcs u = .launched r

theorem Locked.goto (h : s.Locked) (hpc : ∀ r, s.pcs t ≠ .launched r) (pc : Pc) :
    (s.goto t pc).Locked := by
  intro u hu
  obtain ⟨r, hr⟩ := h u hu
  have hut : u ≠ t := by
    rintro rfl
    exact hpc r hr
  exact ⟨r, by simpa [System.goto, hut] using hr⟩

theorem launchThread_global_lock (target : ThrID) (info : SchedPointInfo) :
    (s.launchThread v target info).global_lock = s.global_lock := by
  unfold launchThread
  dsimp only
  split
  · rfl
  · split
    · rfl
    · split <;> rfl

theorem schedule_global_lock (info : SchedPointInfo) :
    (s.schedule v info).global_lock = s.global_lock := by
  unfold schedule
  split
  · dsimp only
    split
    · unfold deadlockCheck
      split <;> rfl
    · exact launchThread_global_lock _ _
  · exact launchThread_global_lock _ _

theorem Locked.perform (h : s.Locked) (hpc : ∀ r, s.pcs t ≠ .launched r) (pc : Pc) (eff : Effect)
    (hchild : ∀ child pc', eff = .created child pc' → s.pcs child = .unborn) :
    (s.perform v t pc eff).Locked := by
  cases eff with
  | goto pc' => exact h.goto hpc pc'
  | created child pc' =>
      have hnew := hchild child pc' rfl
      refine Locked.goto (h.goto (by simp [hnew]) .created) (fun r hr => ?_) pc'
      by_cases htc : t = child
      · simp [System.goto, htc] at hr
      · simp only [System.goto, Function.update_of_ne htc] at hr
        exact hpc r hr
  | signalChoice info =>
      simp only [System.perform]
      split
      · exact Locked.goto (s := { s with log := _ }) h hpc _
      · split
        · exact Locked.goto (s := { s with scheduler := _ }) h hpc _
        · exact h
  | signalled info u =>
      simp only [System.perform]
      split
      · exact Locked.goto (s := { s with log := _, tracker := _ }) h hpc _
      · exact h
  | schedule info r =>
      simp only [System.perform]
      split
      · intro u hu
        rw [schedule_global_lock] at hu
        rw [schedule_pcs]
        exact h u hu
      · intro u hu
        cases hu
        exact ⟨r, by simp [System.goto]⟩

theorem Locked.step (h : s.Locked) (hserial : (∃ c, Serial s c) ∨ Halted s)
    (hstep : s.step v t ret_addr op = some s') : s'.Locked := by
  obtain ⟨hrunning, htransition⟩ := step_iff.mp hstep
  rcases hserial with ⟨c, hserial⟩ | hhalted
  · cases htransition with
    | asks ret_val hpc => exact h.goto (by simp [hpc]) _
    | spawns addr child hpc =>
        have hcreated := hserial.controlled.spawn t addr child _ hpc
        refine Locked.goto (h.goto (by simp [hcreated]) .threadStart) (fun r hr => ?_) _
        by_cases htc : t = child
        · simp [System.goto, htc] at hr
        · simp only [System.goto, Function.update_of_ne htc, hpc] at hr
          cases hr
    | starts hpc hlock => exact h.goto (by simp [hpc]) _
    | unlocks r hpc => rintro _ ⟨⟩
    | leaves r hpc hlock => exact h.goto (by simp [hpc]) _
    | resumes k n hpc hsem => exact Locked.goto (s := { s with tracker := _ }) h (by simp [hpc]) _
    | wakes w n hpc hsem => exact Locked.goto (s := { s with tracker := _ }) h (by simp [hpc]) _
    | runs hsection hlock hready =>
        have hpc (r : Rest) : s.pcs t ≠ .launched r := by
          intro hat
          rw [hat] at hsection
          cases hsection
        unfold runThread
        split
        · exact h
        · rename_i tr eff hrun
          refine Locked.perform (s := { s with
            tracker := tr
            barriers := s.barriers.observe t (s.pcs t) }) h hpc _ eff ?_
          rintro child pc' rfl
          obtain ⟨addr, ret_val, hat, _⟩ := ExecutionTracker.runSection_follows _ hrun
          exact (hserial.controlled.child t addr child ret_val hat).1
  · exact absurd hrunning hhalted.stopped

theorem Reachable.locked {asks : System σ → ThrID → Addr → Op → Prop}
    (h : Reachable v asks s) : s.Locked := by
  obtain ⟨scheduler, read_schedule, hrun⟩ := h
  induction hrun with
  | refl => exact nofun
  | tail hrest hstep ih =>
      obtain ⟨t, ret_addr, op, _, hstep⟩ := hstep
      exact ih.step (Reachable.serial ⟨scheduler, read_schedule, hrest⟩) hstep

end System

namespace Creation

variable {σ : Type} {v : Virtual σ} {c c' : Creation σ} {t u : ThrID} {ret_addr : Addr} {op : Op}

-- The abstract state of a run is one of a run of the system.
theorem Reachable.sound (h : Reachable v c) :
    c.Inv ∧ System.Reachable v (fun _ _ _ _ => True) c.abstract := by
  obtain ⟨scheduler, read_schedule, hrun⟩ := h
  induction hrun with
  | refl =>
      refine ⟨Inv.initial scheduler read_schedule, scheduler, read_schedule, ?_⟩
      have heq : (Creation.initial scheduler read_schedule).abstract =
          System.initial scheduler read_schedule := by
        unfold abstract System.withPcs
        congr 1
        funext u
        refine passed_of_not_spawn _ _ fun addr child ret_val hpc => ?_
        have hat : (System.initial scheduler read_schedule).pcs u = .spawn addr child ret_val := hpc
        rw [initial_pcs] at hat
        split at hat <;> cases hat
      rw [heq]
  | tail _ hstep ih =>
      obtain ⟨t, ret_addr, op, hstep⟩ := hstep
      obtain ⟨hinv, hreachable⟩ := ih
      refine ⟨hinv.step hreachable.serial hstep, ?_⟩
      rcases refines hinv hreachable.serial hstep with heq | ⟨u, addr, op', hsystem⟩
      · rw [heq]
        exact hreachable
      · obtain ⟨scheduler, read_schedule, hrun⟩ := hreachable
        exact ⟨scheduler, read_schedule, hrun.tail ⟨u, addr, op', trivial, hsystem⟩⟩

theorem Reachable.tail (h : Reachable v c) (hreaches : Reaches v c c') : Reachable v c' := by
  obtain ⟨scheduler, read_schedule, hrun⟩ := h
  exact ⟨scheduler, read_schedule, hrun.trans hreaches⟩

theorem Reachable.serial (h : Reachable v c) (hrunning : c.system.stopped = none) :
    ∃ k, Serial c.abstract k := by
  rcases h.sound.2.serial with hserial | hhalted
  · exact hserial
  · exact absurd hrunning hhalted.stopped

theorem step_of_system {system : System σ} (hspawn : ∀ addr child ret_val,
      c.system.pcs t ≠ .spawn addr child ret_val) (hcreated : c.system.pcs t ≠ .created)
    (hsystem : c.system.step v t ret_addr op = some system) : Step v c { c with system } := by
  refine ⟨t, ret_addr, op, ?_⟩
  have hrunning := (System.step_iff.mp hsystem).1
  unfold step
  rw [if_neg (by simp [hrunning]), hsystem]
  split
  · rename_i addr child ret_val hpc
    exact absurd hpc (hspawn addr child ret_val)
  · rename_i hpc
    exact absurd hpc hcreated
  · rfl

theorem step_of_spawn (hrunning : c.system.stopped = none) (addr : Addr) (child : ThrID)
    (ret_val : Int) (hpc : c.system.pcs t = .spawn addr child ret_val) :
    Step v c (c.thrille_create t addr child ret_val) := by
  refine ⟨t, 0, .exit, ?_⟩
  unfold step
  rw [if_neg (by simp [hrunning]), hpc]

theorem step_of_routine (hrunning : c.system.stopped = none) (hpc : c.system.pcs t = .created)
    (hroutine : c.routines t = true) : Step v c (c.my_start_routine t) := by
  refine ⟨t, 0, .exit, ?_⟩
  unfold step
  rw [if_neg (by simp [hrunning]), hpc]
  simp [hroutine]

-- Whoever holds the global lock gives it back.
theorem release (hreach : Reachable v c) (hrunning : c.system.stopped = none)
    (hpc : ∀ r, c.system.pcs t ≠ .launched r) :
    ∃ c', Reaches v c c' ∧ c'.system.stopped = none ∧ c'.system.global_lock = none ∧
      c'.system.pcs t = c.system.pcs t := by
  cases hlock : c.system.global_lock with
  | none => exact ⟨c, .refl, hrunning, hlock, rfl⟩
  | some u =>
      obtain ⟨r, hr⟩ := hreach.sound.2.locked u hlock
      have hat : c.system.pcs u = .launched r := passed_eq c _ _ hr nofun
      have hut : t ≠ u := by
        rintro rfl
        exact hpc r hat
      have htransition : System.Transition v c.system u 0 .exit _ := .unlocks r hat
      refine ⟨_, .single (step_of_system (by simp [hat]) (by simp [hat])
        (System.step_iff.mpr ⟨hrunning, htransition⟩)), hrunning, rfl, ?_⟩
      simp [System.goto, hut]

theorem beforeCreate_of_enter (hrunning : c.system.stopped = none) (addr : Addr) (ret_val : Int)
    (hpc : c.system.pcs t = .enter addr (.create ret_val)) :
    ∃ c' child, Reaches v c c' ∧ c'.system.stopped = none ∧
      c'.system.pcs t = .beforeCreate addr child ret_val := by
  have htransition : System.Transition v c.system t 0 .exit _ :=
    .runs (by rw [hpc]; rfl) (Or.inl (by rw [hpc]; rfl)) (by rw [hpc]; rfl)
  refine ⟨_, c.system.tracker.next_id, .single (step_of_system (by simp [hpc]) (by simp [hpc])
    (System.step_iff.mpr ⟨hrunning, htransition⟩)), ?_, ?_⟩
  · rw [hpc]
    exact hrunning
  · rw [hpc]
    exact Function.update_self _ _ _

theorem spawn_of_beforeCreate (hreach : Reachable v c) (hrunning : c.system.stopped = none)
    (addr : Addr) (child : ThrID) (ret_val : Int)
    (hpc : c.system.pcs t = .beforeCreate addr child ret_val) :
    ∃ c', Reaches v c c' ∧ c'.system.stopped = none ∧
      c'.system.pcs t = .spawn addr child ret_val := by
  obtain ⟨c1, hreaches, hrunning1, hlock, hpc1⟩ := release hreach hrunning (t := t) (by simp [hpc])
  rw [hpc] at hpc1
  have htransition : System.Transition v c1.system t 0 .exit _ :=
    .runs (by rw [hpc1]; rfl) (Or.inr hlock) (by rw [hpc1]; rfl)
  refine ⟨_, hreaches.tail (step_of_system (by simp [hpc1]) (by simp [hpc1])
    (System.step_iff.mpr ⟨hrunning1, htransition⟩)), ?_, ?_⟩
  · rw [hpc1]
    exact hrunning1
  · rw [hpc1]
    exact Function.update_self _ _ _

theorem creates_call (hrunning : c.system.stopped = none)
    (addr : Addr) (child : ThrID) (ret_val : Int)
    (hpc : c.system.pcs t = .spawn addr child ret_val) :
    ∃ c', Reaches v c c' ∧ c'.system.stopped = none ∧
      c'.system.pcs t = .spawn addr child ret_val ∧ c'.creates t ≠ .mark := by
  cases hat : c.creates t with
  | mark =>
      refine ⟨_, .single (step_of_spawn hrunning addr child ret_val hpc), ?_, ?_, ?_⟩
      all_goals
        unfold thrille_create
        rw [hat]
      · exact hrunning
      · exact hpc
      · simp
  | call => exact ⟨c, .refl, hrunning, hpc, by simp [hat]⟩
  | wait => exact ⟨c, .refl, hrunning, hpc, by simp [hat]⟩

theorem creates_wait (hrunning : c.system.stopped = none) (addr : Addr) (child : ThrID)
    (ret_val : Int) (hpc : c.system.pcs t = .spawn addr child ret_val) :
    ∃ c', Reaches v c c' ∧ c'.system.stopped = none ∧
      (c'.system.pcs t = .afterCreate addr ret_val ∨
        c'.system.pcs t = .spawn addr child ret_val ∧ c'.creates t = .wait) := by
  obtain ⟨c1, hreaches, hrunning1, hpc1, hmark⟩ := creates_call (v := v) hrunning addr child ret_val hpc
  cases hat : c1.creates t with
  | mark => exact absurd hat hmark
  | call =>
      have hawait (c2 : Creation σ) (hsystem : c2.system = c1.system) :
          (c2.awaitStart t addr child ret_val).system.stopped = none ∧
            ((c2.awaitStart t addr child ret_val).system.pcs t = .afterCreate addr ret_val ∨
              (c2.awaitStart t addr child ret_val).system.pcs t = .spawn addr child ret_val ∧
                (c2.awaitStart t addr child ret_val).creates t = .wait) := by
        unfold awaitStart
        rw [hsystem]
        split
        · exact ⟨hrunning1, Or.inl (by simp [System.goto])⟩
        · exact ⟨hsystem ▸ hrunning1, Or.inr ⟨by simpa [hsystem] using hpc1, by simp⟩⟩
      refine ⟨_, hreaches.tail (step_of_spawn hrunning1 addr child ret_val hpc1), ?_⟩
      unfold thrille_create
      rw [hat]
      dsimp only
      split
      · exact hawait _ rfl
      · exact hawait c1 rfl
  | wait => exact ⟨c1, hreaches, hrunning1, Or.inr ⟨hpc1, hat⟩⟩

-- The flag lets the creator go on.
theorem afterCreate_of_flag (hrunning : c.system.stopped = none) (addr : Addr) (child : ThrID)
    (ret_val : Int) (hpc : c.system.pcs t = .spawn addr child ret_val)
    (hwait : c.creates t = .wait) (hflag : c.thread_start_map child = true) :
    ∃ c', Reaches v c c' ∧ c'.system.pcs t = .afterCreate addr ret_val := by
  refine ⟨_, .single (step_of_spawn hrunning addr child ret_val hpc), ?_⟩
  unfold thrille_create awaitStart
  rw [hwait]
  simp [hflag, System.goto]

-- A child that was made sets its flag.
theorem afterCreate_of_spawn (hreach : Reachable v c) (hrunning : c.system.stopped = none)
    (addr : Addr) (child : ThrID)
    (hpc : c.system.pcs t = .spawn addr child OPERATION_SUCCESSFUL) :
    ∃ c', Reaches v c c' ∧ c'.system.pcs t = .afterCreate addr OPERATION_SUCCESSFUL := by
  obtain ⟨c1, hreaches, hrunning1, hdone | ⟨hpc1, hwait⟩⟩ :=
    creates_wait (v := v) hrunning addr child _ hpc
  · exact ⟨c1, hreaches, hdone⟩
  · have hreach1 := hreach.tail hreaches
    by_cases hflag : c1.thread_start_map child = true
    · obtain ⟨c2, hreaches2, hdone⟩ := afterCreate_of_flag (v := v) hrunning1 addr child _ hpc1 hwait hflag
      exact ⟨c2, hreaches.trans hreaches2, hdone⟩
    · obtain ⟨k, hserial⟩ := hreach1.serial hrunning1
      have hcreated := child_created hserial addr child _ hpc1 (by simpa using hflag)
      have hroutine := (hreach1.sound.1.called t addr child _ hpc1).mpr ⟨hwait, rfl⟩
      have htc : t ≠ child := by
        rintro rfl
        rw [hpc1] at hcreated
        cases hcreated
      obtain ⟨c2, hreaches2, hdone⟩ := afterCreate_of_flag (v := v) (c := c1.my_start_routine child)
        (t := t) hrunning1 addr child _
        (by simpa [my_start_routine, System.goto, htc] using hpc1) hwait
        (by simp [my_start_routine])
      have hstart := step_of_routine (v := v) hrunning1 hcreated hroutine
      exact ⟨c2, (hreaches.tail hstart).trans hreaches2, hdone⟩

-- While the child has not started, it is enabled.
theorem enabled_of_spawn (hreach : Reachable v c) (hrunning : c.system.stopped = none)
    (addr : Addr) (child : ThrID) (ret_val : Int)
    (hpc : c.system.pcs t = .spawn addr child ret_val)
    (hflag : c.thread_start_map child = false) : c.system.tracker.isEnabled child = true := by
  obtain ⟨k, hserial⟩ := hreach.serial hrunning
  have hcreated := child_created hserial addr child ret_val hpc hflag
  have hfits := hserial.consistent.fits child
  rw [show (c.abstract.pcs child).stage = .pending .start by
    rw [abstract_pcs, hcreated]; rfl] at hfits
  have hentries : c.system.tracker.entries child = { enabled := true } := hfits
  have henabled : (c.system.tracker.entries child).enabled = true := by rw [hentries]
  exact henabled

-- A flag is set only for a child that was made.
theorem flag_of_failure (hreach : Reachable v c) (addr : Addr) (child : ThrID) (ret_val : Int)
    (hpc : c.system.pcs t = .spawn addr child ret_val) (hret : ret_val ≠ OPERATION_SUCCESSFUL) :
    c.thread_start_map child = false := by
  obtain ⟨hinv, _⟩ := hreach.sound
  by_contra hset
  have hroutine := hinv.flagged child (by simpa using hset)
  exact hret ((hinv.called t addr child ret_val hpc).mp hroutine).2

-- No other thread's step moves a thread that has been started.
theorem pcs_of_ne (hreach : Reachable v c) (hstep : c.step v u ret_addr op = some c')
    (hut : t ≠ u) (hborn : c.system.pcs t ≠ .unborn) : c'.system.pcs t = c.system.pcs t := by
  obtain ⟨hrunning, hcases⟩ := step_cases hstep
  rcases hcases with ⟨addr, child, ret_val, hpc, rfl⟩ | ⟨hpc, _, rfl⟩ | ⟨hspawn, system, hsystem, rfl⟩
  · rcases thrille_create_system (c := c) (t := u) addr child ret_val with heq | ⟨_, heq⟩
    · rw [heq]
    · rw [heq]
      simp [System.goto, hut]
  · simp [my_start_routine, System.goto, hut]
  · obtain ⟨moves, hmoves, hpcs, _⟩ := System.step_withPcs hsystem hspawn
    show system.pcs t = c.system.pcs t
    rw [hpcs]
    cases hmoves with
    | stays => rfl
    | goes pc' _ _ _ => simp [hut]
    | creates addr child ret_val hpc =>
        obtain ⟨k, hserial⟩ := hreach.serial hrunning
        have htc : t ≠ child := by
          rintro rfl
          exact hborn (child_unborn hserial addr t ret_val hpc)
        simp [hut, htc]

-- A creator whose child was not made waits for good.
theorem spawn_of_failure (hreach : Reachable v c) (addr : Addr) (child : ThrID) (ret_val : Int)
    (hpc : c.system.pcs t = .spawn addr child ret_val) (hret : ret_val ≠ OPERATION_SUCCESSFUL)
    (hreaches : Reaches v c c') : c'.system.pcs t = .spawn addr child ret_val := by
  induction hreaches with
  | refl => exact hpc
  | tail hrest hstep ih =>
      obtain ⟨u, ret_addr, op, hstep⟩ := hstep
      have hreach1 := hreach.tail hrest
      by_cases hut : t = u
      · subst hut
        obtain ⟨_, ⟨addr', child', ret_val', hpc', rfl⟩ | ⟨hpc', _⟩ | ⟨hspawn, _⟩⟩ := step_cases hstep
        · have heq : Pc.spawn addr child ret_val = .spawn addr' child' ret_val' := ih.symm.trans hpc'
          cases heq
          rcases thrille_create_system (t := t) addr child ret_val with heq | ⟨hflag, _⟩
          · rw [heq]
            exact ih
          · rw [flag_of_failure hreach1 addr child ret_val ih hret] at hflag
            cases hflag
        · rw [ih] at hpc'
          cases hpc'
        · exact absurd ih (hspawn addr child ret_val)
      · rw [pcs_of_ne hreach1 hstep hut (by simp [ih])]
        exact ih

end Creation

-- A thread in `thrille_create` that has not come to `AfterCreate`.
def Pc.creating : Pc → Option (Addr × Int)
  | enter ret_addr (.create ret_val) => some (ret_addr, ret_val)
  | beforeCreate ret_addr _ ret_val => some (ret_addr, ret_val)
  | spawn ret_addr _ ret_val => some (ret_addr, ret_val)
  | _ => none

-- A thread that is at `AfterCreate`, or comes out of it, with the result that it returns.
def Pc.returning : Pc → Option Int
  | afterCreate _ ret_val => some ret_val
  | launched (.pause (.simple ret_val)) => some ret_val
  | leaving (.pause (.simple ret_val)) => some ret_val
  | blocked (.pause (.simple ret_val)) => some ret_val
  | resume (.simple ret_val) => some ret_val
  | _ => none

namespace Creation

variable {σ : Type} {v : Virtual σ} {c c' : Creation σ} {t u : ThrID} {ret_addr : Addr} {op : Op}

theorem exists_spawn (hreach : Reachable v c) (hrunning : c.system.stopped = none)
    (addr : Addr) (ret_val : Int) (hpc : (c.system.pcs t).creating = some (addr, ret_val)) :
    ∃ c' child, Reaches v c c' ∧ c'.system.stopped = none ∧
      c'.system.pcs t = .spawn addr child ret_val := by
  have hbefore (c1 : Creation σ) (child : ThrID) (hreaches : Reaches v c c1)
      (hrunning1 : c1.system.stopped = none)
      (hpc1 : c1.system.pcs t = .beforeCreate addr child ret_val) :
      ∃ c' child, Reaches v c c' ∧ c'.system.stopped = none ∧
        c'.system.pcs t = .spawn addr child ret_val := by
    obtain ⟨c2, hreaches2, hrunning2, hpc2⟩ :=
      spawn_of_beforeCreate (hreach.tail hreaches) hrunning1 addr child ret_val hpc1
    exact ⟨c2, child, hreaches.trans hreaches2, hrunning2, hpc2⟩
  cases hat : c.system.pcs t with
  | enter ret_addr op =>
      rw [hat] at hpc
      cases op with
      | create ret_val' =>
          cases hpc
          obtain ⟨c1, child, hreaches, hrunning1, hpc1⟩ :=
            beforeCreate_of_enter (v := v) hrunning addr ret_val hat
          exact hbefore c1 child hreaches hrunning1 hpc1
      | _ => cases hpc
  | beforeCreate ret_addr child ret_val' =>
      rw [hat] at hpc
      cases hpc
      exact hbefore c child .refl hrunning hat
  | spawn ret_addr child ret_val' =>
      rw [hat] at hpc
      cases hpc
      exact ⟨c, child, .refl, hrunning, hat⟩
  | _ =>
      rw [hat] at hpc
      cases hpc

theorem returning_step (hreach : Reachable v c) (ret_val : Int)
    (hpc : (c.system.pcs t).returning = some ret_val)
    (hstep : c.step v u ret_addr op = some c') :
    (c'.system.pcs t).returning = some ret_val ∨ c'.system.pcs t = .program ret_val := by
  by_cases hut : t = u
  · subst hut
    obtain ⟨_, ⟨addr', child', ret_val', hpc', rfl⟩ | ⟨hpc', _⟩ | ⟨_, system, hsystem, rfl⟩⟩ :=
      step_cases hstep
    · rw [hpc'] at hpc
      cases hpc
    · rw [hpc'] at hpc
      cases hpc
    · obtain ⟨_, htransition⟩ := System.step_iff.mp hsystem
      cases htransition with
      | asks ret_val' hat => rw [hat] at hpc; cases hpc
      | spawns addr child hat => rw [hat] at hpc; cases hpc
      | starts hat hlock => rw [hat] at hpc; cases hpc
      | unlocks r hat =>
          rw [hat] at hpc
          left
          simp only [System.goto, Function.update_self]
          cases r with
          | pause k => cases k <;> exact hpc
          | _ => cases hpc
      | leaves r hat hlock =>
          rw [hat] at hpc
          left
          simp only [System.goto, Function.update_self]
          cases r with
          | pause k => cases k <;> exact hpc
          | _ => cases hpc
      | resumes k n hat hsem =>
          rw [hat] at hpc
          left
          simp only [System.goto, Function.update_self]
          cases k <;> exact hpc
      | wakes w n hat hsem => rw [hat] at hpc; cases hpc
      | runs hsection hlock hready =>
          cases hat : c.system.pcs t with
          | afterCreate addr ret_val' =>
              rw [hat] at hpc
              cases hpc
              left
              simp only [System.runThread, ExecutionTracker.runSection,
                ExecutionTracker.schedPoint, System.perform]
              split
              · rw [System.schedule_pcs]
                simp [hat, Pc.returning]
              · simp [System.goto, Pc.returning]
          | resume k =>
              rw [hat] at hpc
              cases k with
              | simple ret_val' =>
                  cases hpc
                  right
                  exact Function.update_self _ _ _
              | _ => cases hpc
          | _ => rw [hat] at hpc hsection; first | cases hpc | cases hsection
  · left
    rw [pcs_of_ne hreach hstep hut]
    · exact hpc
    · intro hat
      rw [hat] at hpc
      cases hpc

-- From every state of the call there is a way to `AfterCreate`.
def ReachesAfterCreate (v : Virtual σ) (c : Creation σ) (t : ThrID) (ret_addr : Addr)
    (ret_val : Int) : Prop :=
  ∀ c', Reaches v c c' → c'.system.stopped = none →
    (c'.system.pcs t).creating = some (ret_addr, ret_val) →
    ∃ c'', Reaches v c' c'' ∧ c''.system.pcs t = .afterCreate ret_addr ret_val

-- What comes out of `AfterCreate` is the result.
def ReturnsResult (v : Virtual σ) (c : Creation σ) (t : ThrID) (ret_val : Int) : Prop :=
  ∀ c' c'', Reaches v c c' → Step v c' c'' → (c'.system.pcs t).returning = some ret_val →
    (c''.system.pcs t).returning = some ret_val ∨ c''.system.pcs t = .program ret_val

-- No state after a creation that failed has the child enabled.
def NeverEnabled (v : Virtual σ) (c : Creation σ) (t : ThrID) (ret_addr : Addr) (ret_val : Int) :
    Prop :=
  ret_val ≠ OPERATION_SUCCESSFUL → ∀ c' child, Reaches v c c' →
    c'.system.pcs t = .spawn ret_addr child ret_val → c'.creates t = .wait →
    ∀ c'', Reaches v c' c'' → c''.system.tracker.isEnabled child = false

-- After a failure neither of the two holds.
theorem of_failure (hreach : Reachable v c) (hrunning : c.system.stopped = none) (addr : Addr)
    (ret_val : Int) (hpc : c.system.pcs t = .enter addr (.create ret_val))
    (hret : ret_val ≠ OPERATION_SUCCESSFUL) :
    ¬ReachesAfterCreate v c t addr ret_val ∧ ¬NeverEnabled v c t addr ret_val := by
  obtain ⟨c1, child, hreaches, hrunning1, hpc1⟩ :=
    exists_spawn hreach hrunning addr ret_val (t := t) (by rw [hpc]; rfl)
  have hreach1 := hreach.tail hreaches
  constructor
  · intro hafter
    obtain ⟨c2, hreaches2, hdone⟩ := hafter c1 hreaches hrunning1 (by rw [hpc1]; rfl)
    rw [spawn_of_failure hreach1 addr child ret_val hpc1 hret hreaches2] at hdone
    cases hdone
  · intro hnever
    obtain ⟨c2, hreaches2, hrunning2, hdone | ⟨hpc2, hwait⟩⟩ :=
      creates_wait (v := v) hrunning1 addr child ret_val hpc1
    · rw [spawn_of_failure hreach1 addr child ret_val hpc1 hret hreaches2] at hdone
      cases hdone
    · have hreach2 := hreach1.tail hreaches2
      have henabled := enabled_of_spawn hreach2 hrunning2 addr child ret_val hpc2
        (flag_of_failure hreach2 addr child ret_val hpc2 hret)
      rw [hnever hret c2 child (hreaches.trans hreaches2) hpc2 hwait c2 .refl] at henabled
      cases henabled

-- Every call, in every state of every run, does what it should exactly when the original
-- `pthread_create` succeeds.
theorem thrille_create_iff (v : Virtual σ) (c : Creation σ) (t : ThrID) (ret_addr : Addr)
    (ret_val : Int) (hreach : Reachable v c) (hrunning : c.system.stopped = none)
    (hpc : c.system.pcs t = .enter ret_addr (.create ret_val)) :
    ReachesAfterCreate v c t ret_addr ret_val ∧ ReturnsResult v c t ret_val ∧
      NeverEnabled v c t ret_addr ret_val ↔ ret_val = OPERATION_SUCCESSFUL := by
  constructor
  · rintro ⟨hafter, _, _⟩
    by_contra hret
    exact (of_failure hreach hrunning ret_addr ret_val hpc hret).1 hafter
  · rintro rfl
    refine ⟨fun c1 hreaches hrunning1 hcreating => ?_, fun c1 c2 hreaches hstep hreturning => ?_,
      fun hret => absurd rfl hret⟩
    · have hreach1 := hreach.tail hreaches
      obtain ⟨c2, child, hreaches2, hrunning2, hpc2⟩ :=
        exists_spawn hreach1 hrunning1 ret_addr _ hcreating
      obtain ⟨c3, hreaches3, hdone⟩ :=
        afterCreate_of_spawn (hreach1.tail hreaches2) hrunning2 ret_addr child hpc2
      exact ⟨c3, hreaches2.trans hreaches3, hdone⟩
    · obtain ⟨u, addr, op, hstep⟩ := hstep
      exact returning_step (hreach.tail hreaches) _ hreturning hstep

-- The main thread is about to create a thread.
theorem mainCreates (ret_val : Int) :
    ∃ c, Reachable ExecutionTracker.virtual c ∧ c.system.stopped = none ∧
      c.system.pcs 0 = .enter 1 (.create ret_val) := by
  have hpc : (Creation.initial () []).system.pcs 0 = .program OPERATION_SUCCESSFUL := by
    rw [show (Creation.initial () []).system = System.initial () [] from rfl, initial_pcs]
    rfl
  have htransition : System.Transition ExecutionTracker.virtual (Creation.initial () []).system
      0 1 (.create ret_val) _ := .asks _ hpc
  have hstep := step_of_system (by simp [hpc]) (by simp [hpc])
    (System.step_iff.mpr ⟨rfl, htransition⟩)
  exact ⟨_, ⟨(), [], .single hstep⟩, rfl, by simp [System.goto]⟩

theorem thrille_create_iff_mainCreates :
    ∃ c, Reachable ExecutionTracker.virtual c ∧ c.system.pcs 0 = .enter 1 (.create 0) ∧
      ReachesAfterCreate ExecutionTracker.virtual c 0 1 0 ∧
      ReturnsResult ExecutionTracker.virtual c 0 0 ∧
      NeverEnabled ExecutionTracker.virtual c 0 1 0 := by
  obtain ⟨c, hreach, hrunning, hpc⟩ := mainCreates 0
  exact ⟨c, hreach, hpc,
    (thrille_create_iff ExecutionTracker.virtual c 0 1 0 hreach hrunning hpc).mpr rfl⟩

-- The original call fails with `EAGAIN`.
theorem not_reachesAfterCreate_mainCreates :
    ∃ c, Reachable ExecutionTracker.virtual c ∧ c.system.pcs 0 = .enter 1 (.create 11) ∧
      ¬ReachesAfterCreate ExecutionTracker.virtual c 0 1 11 ∧
      ¬NeverEnabled ExecutionTracker.virtual c 0 1 11 := by
  obtain ⟨c, hreach, hrunning, hpc⟩ := mainCreates 11
  exact ⟨c, hreach, hpc, of_failure hreach hrunning 1 11 hpc (by decide)⟩

end Creation

end Thrille
