import Thrille.Replay.Perform

namespace Thrille

open ExecutionTracker

namespace System

variable {σ : Type} {v : Virtual σ} {s s' : System σ} {t : ThrID} {ret_addr : Addr} {op : Op}
  {c : Control} {tr : ExecutionTracker} {eff : Effect}

-- A thread that does more than go to its place runs, or is served by a signaller.
theorem control_of_advances (hserial : Serial s c) (hadvances : s.Advances t)
    (hstep : s.step v t ret_addr op = some s') : c = .running t ∨ ∃ x, c = .serving t x := by
  have hruns : (s.pcs t).runs = true := Pc.runs_of_advances hadvances
  rcases hserial.controlled.runs_cases hruns with hc | ⟨w, hat, hsignalled, _⟩ |
    ⟨x, w, hc, _⟩ | ⟨u, info, hc, hne, _⟩
  · exact Or.inl hc
  · rw [Advances, hat, hsignalled] at hadvances
    cases hadvances
  · exact Or.inr ⟨x, hc⟩
  · have hmover := mover_of_moves hserial (moves_of_step hstep hadvances)
    have hsame : c.mover = some u := by
      rcases hc with rfl | rfl <;> rfl
    rw [hsame] at hmover
    exact absurd (Option.some.inj hmover).symm hne

theorem unposted_of_advances (hserial : Serial s c) (hadvances : s.Advances t)
    (hstep : s.step v t ret_addr op = some s') :
    s.tracker.sem_map t = some 0 ∧ s.tracker.wait_sem_map t = some 0 := by
  have hborn : s.pcs t ≠ .unborn := by
    intro hunborn
    rw [Advances, hunborn] at hadvances
    cases hadvances
  rw [hserial.controlled.sem t hborn, hserial.controlled.waitSem t hborn]
  rcases control_of_advances hserial hadvances hstep with rfl | ⟨x, rfl⟩
  · exact ⟨rfl, rfl⟩
  · exact ⟨rfl, rfl⟩

-- The end of a section of thread `t`, at which nobody has been chosen.
def ended (s : System σ) (t : ThrID) (tr : ExecutionTracker) : System σ :=
  { s with tracker := tr, barriers := s.barriers.observe t (s.pcs t) }

theorem view_ended (hserial : Serial s c) (hrun : s.tracker.runSection t (s.pcs t) = .ok (tr, eff)) :
    (s.ended t tr).view = { s.view with tracker := tr.settled } := by
  have hplace : (s.ended t tr).place = s.place := by
    funext u
    rcases turns_runSection hrun with ⟨hsem, hwait, hsignalled⟩ | ⟨addr, child, ret_val, hat, rfl, _⟩
    · simp only [place, ended, hsem, hwait, hsignalled]
    · by_cases hu : u = child
      · have hunborn : s.pcs u = .unborn := by
          rw [hu]
          exact (hserial.controlled.child t addr child ret_val hat).1
        simp only [place, ended, hunborn]
        rfl
      · simp [place, ended, initializeThreadData, enableThread, hu]
  unfold view
  rw [hplace]
  rfl

theorem consistent_ended (hserial : Serial s c) (hadvances : s.Advances t)
    (hstep : s.step v t ret_addr op = some s')
    (hrun : s.tracker.runSection t (s.pcs t) = .ok (tr, eff)) :
    Consistent tr (eff.stages t fun u => (s.pcs u).stage) := by
  have hne (u : ThrID) (hu : u ≠ t) : c ≠ .running u := by
    rintro rfl
    rcases control_of_advances hserial hadvances hstep with hc | ⟨x, hc⟩
    · exact hu (Control.running.inj hc)
    · cases hc
  exact hserial.consistent.runSection (s.pcs t) rfl
    (fun u hu k => hserial.controlled.no_resume hne u hu k)
    (fun ra child rv heq => by rw [(hserial.controlled.child t ra child rv heq).1]; rfl) hrun

-- Nobody who checks a timeout waits for a condition.
theorem cond_ended (hserial : Serial s c) (hadvances : s.Advances t)
    (hstep : s.step v t ret_addr op = some s')
    (hrun : s.tracker.runSection t (s.pcs t) = .ok (tr, eff)) (u : ThrID) (w : Wait) (hut : u ≠ t)
    (hat : s.pcs u = .checkTimeout w) : u ∉ tr.cond_map := by
  have hconsistent := consistent_ended hserial hadvances hstep hrun
  have hstage : eff.stages t (fun u => (s.pcs u).stage) u = .pending (.relock w false) := by
    have hsame : eff.stages t (fun u => (s.pcs u).stage) u = (s.pcs u).stage := by
      cases eff with
      | created child pc' =>
          obtain ⟨addr, ret_val, hpc, _⟩ := runSection_follows _ hrun
          have hchild : u ≠ child := by
            rintro rfl
            rw [(hserial.controlled.child t addr u ret_val hpc).1] at hat
            cases hat
          simp [Effect.stages, hut, hchild]
      | _ => simp [Effect.stages, hut]
    rw [hsame, hat]
    rfl
  have hfit := hconsistent.fits u
  rw [hstage] at hfit
  intro hmem
  obtain ⟨cond, hcond⟩ := Option.isSome_iff_exists.mp
    (Std.TreeMap.mem_iff_isSome_getElem?.mp hmem)
  obtain ⟨w', hw', _⟩ := hfit.cond cond hcond
  cases hw'

theorem posts_ended (hsem : s.tracker.sem_map t = some 0) (hwait : s.tracker.wait_sem_map t = some 0)
    (hrun : s.tracker.runSection t (s.pcs t) = .ok (tr, eff)) :
    tr.sem_map t = some 0 ∧ tr.wait_sem_map t = some 0 := by
  rcases turns_runSection hrun with ⟨hsem', hwait', _⟩ | ⟨addr, child, ret_val, _, rfl, _⟩
  · rw [hsem', hwait']
    exact ⟨hsem, hwait⟩
  · by_cases hu : t = child
    · simp [initializeThreadData, enableThread, hu]
    · simp [initializeThreadData, enableThread, hu, hsem, hwait]

-- A thread that is chosen like that makes the end of the section.
theorem runThread_of_decides (hserial : Serial s c) (hadvances : s.Advances t)
    (hstep : s.step v t ret_addr op = some s')
    (hrun : s.tracker.runSection t (s.pcs t) = .ok (tr, eff)) {choice : ThrID}
    {enabled : List ThrID} {rest : List DecisionInfo} {scheduler : σ}
    (h : Decides v (s.ended t tr) eff choice enabled rest scheduler) :
    (s.runThread v t (s.pcs t)).stopped = none ∧
      (s.runThread v t (s.pcs t)).view =
        View.perform { s.view with tracker := tr.settled } t (s.pcs t) choice enabled eff ∧
      (s.runThread v t (s.pcs t)).log.read_schedule = rest ∧
      (s.runThread v t (s.pcs t)).scheduler = scheduler := by
  have heq : s.runThread v t (s.pcs t) = (s.ended t tr).perform v t (s.pcs t) eff := by
    unfold runThread
    rw [hrun]
    rfl
  obtain ⟨hsem, hwait⟩ := unposted_of_advances hserial hadvances hstep
  obtain ⟨hsem', hwait'⟩ := posts_ended hsem hwait hrun
  rw [heq, ← view_ended hserial hrun]
  refine perform_of_decides h hserial.running hsem' hwait'
    (fun u w hut hat => cond_ended hserial hadvances hstep hrun u w hut hat) ?_
  intro child pc' heff signalled
  subst heff
  obtain ⟨addr, ret_val, _, rfl⟩ := runSection_follows _ hrun
  rfl

end System

-- The choice that the end of a section makes.
def Effect.choice (eff : Effect) (choice : ThrID) : List ThrID :=
  if eff.decides then [choice] else []

namespace System

variable {σ : Type}

-- What a step is that is more than the way of a thread to its place, and what it chooses.
inductive Advanced (v : Virtual σ) (s : System σ) (t : ThrID) (ret_addr : Addr) (op : Op)
    (s' : System σ) : List ThrID → Prop
  | asks (ret_val : Int) (hpc : s.pcs t = .program ret_val)
      (hview : s'.view = s.view.goto t (.enter ret_addr op))
      (hlog : s'.log = s.log) (hscheduler : s'.scheduler = s.scheduler) :
      Advanced v s t ret_addr op s' []
  | spawns (addr : Addr) (child : ThrID)
      (hpc : s.pcs t = .spawn addr child OPERATION_SUCCESSFUL)
      (hview : s'.view = (s.view.goto child (.blocked (.pause .start))).goto t
        (.afterCreate addr OPERATION_SUCCESSFUL))
      (hlog : s'.log = s.log) (hscheduler : s'.scheduler = s.scheduler) :
      Advanced v s t ret_addr op s' []
  | runs (tr : ExecutionTracker) (eff : Effect) (choice : ThrID) (enabled : List ThrID)
      (hpc : (s.pcs t).isSection = true)
      (hrun : s.tracker.runSection t (s.pcs t) = .ok (tr, eff))
      (hdecides : Decides v (s.ended t tr) eff choice enabled s'.log.read_schedule s'.scheduler)
      (hview : s'.view =
        View.perform { s.view with tracker := tr.settled } t (s.pcs t) choice enabled eff) :
      Advanced v s t ret_addr op s' (eff.choice choice)

variable {v : Virtual σ} {s s' : System σ} {t : ThrID} {ret_addr : Addr} {op : Op} {c : Control}

theorem view_of_asks :
    ({ s.goto t (.enter ret_addr op) with issued := s.issued + 1 } : System σ).view =
      s.view.goto t (.enter ret_addr op) :=
  view_goto_none (s := s) (.enter ret_addr op) fun _ => rfl

-- The child has not been let go when it starts.
theorem view_of_spawns (hserial : Serial s c) {addr : Addr} {child : ThrID} {ret_val : Int}
    (hpc : s.pcs t = .spawn addr child ret_val) :
    ((s.goto child .threadStart).goto t (.afterCreate addr ret_val)).view =
      (s.view.goto child (.blocked (.pause .start))).goto t (.afterCreate addr ret_val) := by
  have hcreated : s.pcs child = .created := hserial.controlled.spawn t addr child ret_val hpc
  have hborn : s.pcs child ≠ .unborn := by simp [hcreated]
  obtain ⟨x, _, _, rfl, _⟩ := hserial.controlled.created child hcreated
  have hstart := view_goto (s := s) (t := child) .threadStart
    (hserial.controlled.sem child hborn) (hserial.controlled.waitSem child hborn)
  rw [view_goto_none (.afterCreate addr ret_val) fun _ => rfl, hstart]
  rfl

theorem advanced_of_step (hserial : Serial s c) (hadvances : s.Advances t)
    (hstep : s.step v t ret_addr op = some s') (hrunning : s'.stopped = none) :
    ∃ choices, Advanced v s t ret_addr op s' choices := by
  obtain ⟨_, htransition⟩ := step_iff.mp hstep
  cases htransition with
  | asks ret_val hpc => exact ⟨_, .asks ret_val hpc view_of_asks rfl rfl⟩
  | spawns addr child hpc =>
      exact ⟨_, .spawns addr child hpc (view_of_spawns hserial hpc) rfl rfl⟩
  | starts hpc hlock => rw [Advances, hpc] at hadvances; cases hadvances
  | unlocks r hpc => rw [Advances, hpc] at hadvances; cases hadvances
  | leaves r hpc hlock => rw [Advances, hpc] at hadvances; cases hadvances
  | resumes k n hpc hsem => rw [Advances, hpc] at hadvances; cases hadvances
  | wakes w n hpc hsem => rw [Advances, hpc] at hadvances; cases hadvances
  | runs hpc hlock hready =>
      cases hrun : s.tracker.runSection t (s.pcs t) with
      | error reason =>
          rw [runThread, hrun] at hrunning
          cases hrunning
      | ok result =>
          obtain ⟨tr, eff⟩ := result
          have heq : s.runThread v t (s.pcs t) = (s.ended t tr).perform v t (s.pcs t) eff := by
            unfold runThread
            rw [hrun]
            rfl
          rw [heq] at hrunning
          obtain ⟨choice, enabled, hdecides⟩ := decides_of_perform hrunning
          rw [← heq] at hdecides
          obtain ⟨_, hview, _⟩ := runThread_of_decides hserial hadvances hstep hrun hdecides
          exact ⟨_, .runs tr eff choice enabled hpc hrun hdecides hview⟩

end System

end Thrille
