import Thrille.Lib.Lockstep
import Thrille.Replay.Arrives

namespace Thrille

open Relation Lockstep

-- A program that leaves nothing to chance: what it asks for next depends on the order in which its
-- threads came back from their calls, and on the results of these.
abbrev Program := List (ThrID × Int) → Addr × Op

-- A run of the system with what the program has seen of it.
structure Run (σ : Type) where
  system : System σ
  turns : List (ThrID × Int) := []

namespace Run

variable {σ : Type}

def initial (scheduler : σ) (read_schedule : List DecisionInfo) : Run σ where
  system := System.initial scheduler read_schedule

def turn (self : Run σ) (t : ThrID) : List (ThrID × Int) :=
  match self.system.pcs t with
  | .program ret_val => self.turns ++ [(t, ret_val)]
  | _ => self.turns

def step (v : Virtual σ) (prog : Program) (self : Run σ) (t : ThrID) : Option (Run σ) :=
  let turns := self.turn t
  let (ret_addr, op) := prog turns
  (self.system.step v t ret_addr op).map fun system => { system, turns }

def steps (v : Virtual σ) (prog : Program) (self : Run σ) (threads : List ThrID) :
    Option (Run σ) :=
  threads.foldlM (fun r t => r.step v prog t) self

def Step (v : Virtual σ) (prog : Program) (r r' : Run σ) : Prop := ∃ t, r.step v prog t = some r'

-- The steps of the threads to their places, and those that are more.
def Quiet (v : Virtual σ) (prog : Program) (r r' : Run σ) : Prop :=
  ∃ t, r.step v prog t = some r' ∧ ¬r.system.Advances t

def Move (v : Virtual σ) (prog : Program) (r r' : Run σ) : Prop :=
  ∃ t, r.step v prog t = some r' ∧ r.system.Advances t

variable {v : Virtual σ} {prog : Program} {r r' : Run σ} {t : ThrID}

theorem step_iff : r.step v prog t = some r' ↔
    r.system.step v t (prog (r.turn t)).1 (prog (r.turn t)).2 = some r'.system ∧
      r'.turns = r.turn t := by
  unfold step
  simp only [Option.map_eq_some_iff]
  constructor
  · rintro ⟨s, hstep, rfl⟩
    exact ⟨hstep, rfl⟩
  · rintro ⟨hstep, hturns⟩
    refine ⟨r'.system, hstep, ?_⟩
    rw [← hturns]

theorem Move.step (h : Move v prog r r') : Step v prog r r' := by
  obtain ⟨t, hstep, _⟩ := h
  exact ⟨t, hstep⟩

theorem steps_iff : Steps (Quiet v prog) (Move v prog) r r' ↔ ReflTransGen (Step v prog) r r' := by
  constructor
  · intro h
    refine ReflTransGen.mono (fun a b hab => ?_) _ _ h
    rcases hab with ⟨t, hstep, _⟩ | ⟨t, hstep, _⟩
    · exact ⟨t, hstep⟩
    · exact ⟨t, hstep⟩
  · intro h
    refine ReflTransGen.mono (fun a b ⟨t, hstep⟩ => ?_) _ _ h
    by_cases hadvances : a.system.Advances t
    · exact Or.inr ⟨t, hstep, hadvances⟩
    · exact Or.inl ⟨t, hstep, hadvances⟩

theorem reaches_of_steps (threads : List ThrID) (h : r.steps v prog threads = some r') :
    ReflTransGen (Step v prog) r r' := by
  induction threads generalizing r with
  | nil =>
      cases h
      exact .refl
  | cons t threads ih =>
      simp only [steps, List.foldlM_cons, Option.bind_eq_bind, Option.bind_eq_some_iff] at h
      obtain ⟨middle, hstep, hrest⟩ := h
      exact .head ⟨t, hstep⟩ (ih hrest)

theorem turn_of_not_advances (h : ¬r.system.Advances t) : r.turn t = r.turns := by
  unfold turn
  split
  · rename_i ret_val hpc
    exact absurd (by rw [System.Advances, hpc]; rfl) h
  · rfl

-- The steps of the system are those of the run.
theorem quiet_of_system {s : System σ} (h : System.Quiet v r.system s) :
    Quiet v prog r { system := s, turns := r.turns } := by
  obtain ⟨t, hquiet, hstep⟩ := h
  exact ⟨t, step_iff.mpr ⟨hstep _ _, (turn_of_not_advances hquiet).symm⟩, hquiet⟩

theorem quiets_of_system {s : System σ} (h : ReflTransGen (System.Quiet v) r.system s) :
    ReflTransGen (Quiet v prog) r { system := s, turns := r.turns } := by
  induction h with
  | refl => exact .refl
  | tail _ hquiet ih => exact ih.tail (quiet_of_system hquiet)

theorem grows_of_step (h : Step v prog r r') :
    r.system.log.schedule <+: r'.system.log.schedule := by
  obtain ⟨t, hstep⟩ := h
  exact System.step_grows (step_iff.mp hstep).1

theorem grows_of_steps (h : ReflTransGen (Step v prog) r r') :
    r.system.log.schedule <+: r'.system.log.schedule := by
  induction h with
  | refl => exact List.prefix_rfl
  | tail _ hstep ih => exact ih.trans (grows_of_step hstep)

-- A run that goes on has been going on all the time.
theorem running_of_steps (h : ReflTransGen (Step v prog) r r') (hrunning : r'.system.stopped = none) :
    r.system.stopped = none := by
  induction h using ReflTransGen.head_induction_on with
  | refl => exact hrunning
  | head hstep _ _ =>
      obtain ⟨t, hstep⟩ := hstep
      exact (System.step_iff.mp (step_iff.mp hstep).1).1

theorem serial_of_step (h : Step v prog r r') (hserial : ∃ c, Serial r.system c)
    (hrunning : r'.system.stopped = none) : ∃ c, Serial r'.system c := by
  obtain ⟨t, hstep⟩ := h
  obtain ⟨c, hserial⟩ := hserial
  rcases hserial.step (step_iff.mp hstep).1 with hnext | hhalted
  · exact hnext
  · exact absurd hrunning hhalted.stopped

-- The choices of a run only grow.
theorem chosen_of_step (h : Step v prog r r') (hserial : ∃ c, Serial r.system c)
    (hrunning : r'.system.stopped = none) {choices : List ThrID}
    (hchosen : r.system.view.Chosen choices) :
    ∃ made, r'.system.view.Chosen (choices ++ made) := by
  obtain ⟨t, hstep⟩ := h
  obtain ⟨hstep, _⟩ := step_iff.mp hstep
  obtain ⟨c, hserial⟩ := hserial
  by_cases hadvances : r.system.Advances t
  · obtain ⟨made, hadvanced⟩ := System.advanced_of_step hserial hadvances hstep hrunning
    exact ⟨made, hadvanced.chosen hserial hadvances (System.moves_of_step hstep hadvances) hchosen⟩
  · refine ⟨[], ?_⟩
    rw [List.append_nil, (System.view_of_quiet hstep hadvances).1]
    exact hchosen

theorem chosen_of_steps (h : ReflTransGen (Step v prog) r r') (hserial : ∃ c, Serial r.system c)
    (hrunning : r'.system.stopped = none) {choices : List ThrID}
    (hchosen : r.system.view.Chosen choices) :
    ∃ made, r'.system.view.Chosen (choices ++ made) := by
  induction h using ReflTransGen.head_induction_on generalizing choices with
  | refl => exact ⟨[], by rwa [List.append_nil]⟩
  | head hstep hrest ih =>
      have hrunning' := running_of_steps hrest hrunning
      obtain ⟨made, hchosen'⟩ := chosen_of_step hstep hserial hrunning' hchosen
      obtain ⟨more, hchosen''⟩ := ih (serial_of_step hstep hserial hrunning') hchosen'
      exact ⟨made ++ more, by rwa [List.append_assoc] at hchosen''⟩

end Run

-- A run that logs the decisions of a plan, in their order and before any others: nothing ends it
-- before they are all logged, and it can go on until they are.
structure OnCourse {σ : Type} (v : Virtual σ) (prog : Program) (planned : List DecisionInfo)
    (r : Run σ) : Prop where
  logs : r.system.log.schedule <+: planned ∨ planned <+: r.system.log.schedule
  running : ¬planned <+: r.system.log.schedule → r.system.stopped = none
  goes : ¬planned <+: r.system.log.schedule → ∀ r', Run.Step v prog r r' → r'.system.stopped = none
  completes : ∃ r', ReflTransGen (Run.Step v prog) r r' ∧ planned <+: r'.system.log.schedule

theorem onCourse_of_logged {σ : Type} {v : Virtual σ} {prog : Program}
    {planned : List DecisionInfo} {r : Run σ} (h : planned <+: r.system.log.schedule) :
    OnCourse v prog planned r where
  logs := Or.inr h
  running hnot := absurd h hnot
  goes hnot := absurd h hnot
  completes := ⟨r, .refl, h⟩

-- Whatever the threads do.
def CarriesOut {σ : Type} (v : Virtual σ) (prog : Program) (planned : List DecisionInfo)
    (start : Run σ) : Prop :=
  ∀ r, ReflTransGen (Run.Step v prog) start r → OnCourse v prog planned r

end Thrille
