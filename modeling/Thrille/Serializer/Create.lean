import Thrille.Serializer.Relabel

namespace Thrille

-- Where a thread is in `thrille_create`, after `BeforeCreate` and before `AfterCreate`.
inductive CreatePc
  | mark
  | call
  | wait
  deriving DecidableEq, Repr

-- The system with the lines of `thrille_create` and of `my_start_routine` that it takes in one
-- step. `routines` are the threads that the original `pthread_create` has made, and a section
-- under `newthread_lock` is one step.
structure Creation (σ : Type) where
  system : System σ
  thread_start_map : ThrID → Bool := fun _ => false
  creates : ThrID → CreatePc := fun _ => .mark
  routines : ThrID → Bool := fun _ => false

namespace Creation

variable {σ : Type}

def initial (scheduler : σ) (read_schedule : List DecisionInfo) : Creation σ :=
  { system := System.initial scheduler read_schedule }

-- `while (!thread_start_map[child_id])`.
def awaitStart (self : Creation σ) (t : ThrID) (ret_addr : Addr) (child : ThrID) (ret_val : Int) :
    Creation σ :=
  if self.thread_start_map child then
    { self with
      system := self.system.goto t (.afterCreate ret_addr ret_val)
      creates := Function.update self.creates t .mark }
  else { self with creates := Function.update self.creates t .wait }

def thrille_create (self : Creation σ) (t : ThrID) (ret_addr : Addr) (child : ThrID)
    (ret_val : Int) : Creation σ :=
  match self.creates t with
  | .mark => { self with
      thread_start_map := Function.update self.thread_start_map child false
      creates := Function.update self.creates t .call }
  | .call =>
      -- `ret_val` is what the original `pthread_create` returns
      if ret_val = OPERATION_SUCCESSFUL then
        { self with routines := Function.update self.routines child true }.awaitStart t ret_addr
          child ret_val
      else self.awaitStart t ret_addr child ret_val
  | .wait => self.awaitStart t ret_addr child ret_val

def my_start_routine (self : Creation σ) (t : ThrID) : Creation σ :=
  { self with
    system := self.system.goto t .threadStart
    thread_start_map := Function.update self.thread_start_map t true }

def step (v : Virtual σ) (self : Creation σ) (t : ThrID) (ret_addr : Addr) (op : Op) :
    Option (Creation σ) :=
  if self.system.stopped.isSome then none
  else match self.system.pcs t with
    | .spawn addr child ret_val => some (self.thrille_create t addr child ret_val)
    | .created => if self.routines t then some (self.my_start_routine t) else none
    | _ => (self.system.step v t ret_addr op).map fun system => { self with system }

def Step (v : Virtual σ) (c c' : Creation σ) : Prop :=
  ∃ t ret_addr op, c.step v t ret_addr op = some c'

def Reaches (v : Virtual σ) : Creation σ → Creation σ → Prop := Relation.ReflTransGen (Step v)

def Reachable (v : Virtual σ) (c : Creation σ) : Prop :=
  ∃ scheduler read_schedule, Reaches v (initial scheduler read_schedule) c

-- The system has the creator at `AfterCreate` as soon as the child has set its flag.
def passed (self : Creation σ) : Pc → Pc
  | .spawn addr child ret_val =>
      if self.thread_start_map child then .afterCreate addr ret_val
      else .spawn addr child ret_val
  | pc => pc

def abstract (self : Creation σ) : System σ :=
  self.system.withPcs fun t => self.passed (self.system.pcs t)

variable {v : Virtual σ} {c c' : Creation σ} {t u : ThrID} {ret_addr : Addr} {op : Op}

theorem passed_of_not_spawn (c : Creation σ) (pc : Pc)
    (hspawn : ∀ addr child ret_val, pc ≠ .spawn addr child ret_val) : c.passed pc = pc := by
  cases pc with
  | spawn addr child ret_val => exact absurd rfl (hspawn addr child ret_val)
  | _ => rfl

theorem passed_eq (c : Creation σ) (pc pc' : Pc) (h : c.passed pc = pc')
    (hafter : ∀ addr ret_val, pc' ≠ .afterCreate addr ret_val) : pc = pc' := by
  cases pc with
  | spawn addr child ret_val =>
      simp only [passed] at h
      split at h
      · exact absurd h.symm (hafter addr ret_val)
      · exact h
  | _ => exact h

theorem abstract_pcs (c : Creation σ) (t : ThrID) :
    c.abstract.pcs t = c.passed (c.system.pcs t) := rfl

-- What holds besides the order of the system.
structure Inv (c : Creation σ) : Prop where
  idle : ∀ t, (∀ addr child ret_val, c.system.pcs t ≠ .spawn addr child ret_val) →
    c.creates t = .mark
  started : ∀ u, c.thread_start_map u = true → c.system.pcs u ≠ .unborn ∧ c.system.pcs u ≠ .created
  made : ∀ u, c.routines u = true → c.system.pcs u ≠ .unborn
  flagged : ∀ u, c.thread_start_map u = true → c.routines u = true
  called : ∀ t addr child ret_val, c.system.pcs t = .spawn addr child ret_val →
    (c.routines child = true ↔ c.creates t = .wait ∧ ret_val = OPERATION_SUCCESSFUL)

section Serial

variable {k : Control}

theorem runner_of_spawn (hserial : Serial c.abstract k) (addr : Addr) (child : ThrID)
    (ret_val : Int) (hpc : c.system.pcs t = .spawn addr child ret_val) : k = .running t := by
  have hpassed : c.abstract.pcs t = .spawn addr child ret_val ∨
      c.abstract.pcs t = .afterCreate addr ret_val := by
    rw [abstract_pcs, hpc, passed]
    split
    · exact Or.inr rfl
    · exact Or.inl rfl
  rcases hpassed with hat | hat
  · exact hserial.controlled.runner (by rw [hat]; rfl) (by rw [hat]; rfl) (by simp [hat])
  · exact hserial.controlled.runner (by rw [hat]; rfl) (by rw [hat]; rfl) (by simp [hat])

-- There is one creator at a time.
theorem creator_unique (hserial : Serial c.abstract k) (addr addr' : Addr) (child child' : ThrID)
    (ret_val ret_val' : Int) (ht : c.system.pcs t = .spawn addr child ret_val)
    (hu : c.system.pcs u = .spawn addr' child' ret_val') : u = t := by
  have hrunner := runner_of_spawn hserial addr child ret_val ht
  rw [runner_of_spawn hserial addr' child' ret_val' hu] at hrunner
  exact Control.running.inj hrunner

theorem child_created (hserial : Serial c.abstract k) (addr : Addr) (child : ThrID)
    (ret_val : Int) (hpc : c.system.pcs t = .spawn addr child ret_val)
    (hflag : c.thread_start_map child = false) : c.system.pcs child = .created := by
  have hat : c.abstract.pcs t = .spawn addr child ret_val := by
    rw [abstract_pcs, hpc, passed, hflag]
    rfl
  exact passed_eq c _ _ (hserial.controlled.spawn t addr child ret_val hat) nofun

theorem child_unborn (hserial : Serial c.abstract k) (addr : Addr) (child : ThrID)
    (ret_val : Int) (hpc : c.system.pcs t = .beforeCreate addr child ret_val) :
    c.system.pcs child = .unborn := by
  have hat : c.abstract.pcs t = .beforeCreate addr child ret_val := by
    rw [abstract_pcs, hpc]
    rfl
  exact passed_eq c _ _ (hserial.controlled.child t addr child ret_val hat).1 nofun

theorem creator_of_created (hserial : Serial c.abstract k) (hpc : c.system.pcs t = .created) :
    ∃ u addr ret_val, c.system.pcs u = .spawn addr t ret_val := by
  have hat : c.abstract.pcs t = .created := by
    rw [abstract_pcs, hpc]
    rfl
  obtain ⟨u, addr, ret_val, _, hu⟩ := hserial.controlled.created t hat
  exact ⟨u, addr, ret_val, passed_eq c _ _ hu nofun⟩

end Serial

theorem step_cases (hstep : c.step v t ret_addr op = some c') :
    c.system.stopped = none ∧
    ((∃ addr child ret_val, c.system.pcs t = .spawn addr child ret_val ∧
        c' = c.thrille_create t addr child ret_val) ∨
      (c.system.pcs t = .created ∧ c.routines t = true ∧ c' = c.my_start_routine t) ∨
      (∀ addr child ret_val, c.system.pcs t ≠ .spawn addr child ret_val) ∧
        ∃ system, c.system.step v t ret_addr op = some system ∧ c' = { c with system }) := by
  unfold step at hstep
  split at hstep
  · cases hstep
  · rename_i hrunning
    refine ⟨by simpa using hrunning, ?_⟩
    split at hstep
    · rename_i addr child ret_val hpc
      exact Or.inl ⟨addr, child, ret_val, hpc, (Option.some.inj hstep).symm⟩
    · rename_i hpc
      split at hstep
      · rename_i hroutine
        exact Or.inr (Or.inl ⟨hpc, hroutine, (Option.some.inj hstep).symm⟩)
      · cases hstep
    · rename_i hspawn _
      obtain ⟨system, hsystem, rfl⟩ := Option.map_eq_some_iff.mp hstep
      exact Or.inr (Or.inr ⟨hspawn, system, hsystem, rfl⟩)

theorem thrille_create_system (addr : Addr) (child : ThrID) (ret_val : Int) :
    (c.thrille_create t addr child ret_val).system = c.system ∨
      c.thread_start_map child = true ∧
        c.thrille_create t addr child ret_val = { c with
          system := c.system.goto t (.afterCreate addr ret_val)
          creates := Function.update c.creates t .mark
          routines := (c.thrille_create t addr child ret_val).routines } := by
  unfold thrille_create awaitStart
  cases c.creates t with
  | mark => exact Or.inl rfl
  | call =>
      by_cases hret : ret_val = OPERATION_SUCCESSFUL <;>
        by_cases hflag : c.thread_start_map child = true <;> simp [hret, hflag]
  | wait => by_cases hflag : c.thread_start_map child = true <;> simp [hflag]

theorem Inv.initial (scheduler : σ) (read_schedule : List DecisionInfo) :
    Inv (Creation.initial scheduler read_schedule) := by
  refine ⟨fun _ _ => rfl, nofun, nofun, nofun, fun t addr child ret_val hpc => ?_⟩
  have hat : (System.initial scheduler read_schedule).pcs t = .spawn addr child ret_val := hpc
  rw [initial_pcs] at hat
  split at hat <;> cases hat

-- The loop of the only creator, who knows what `pthread_create` returned.
theorem Inv.awaitStart (hunique : ∀ u addr child ret_val,
      c.system.pcs u = .spawn addr child ret_val → u = t)
    (hidle : ∀ u, u ≠ t → c.creates u = .mark)
    (hstarted : ∀ u, c.thread_start_map u = true →
      c.system.pcs u ≠ .unborn ∧ c.system.pcs u ≠ .created)
    (hmade : ∀ u, c.routines u = true → c.system.pcs u ≠ .unborn)
    (hflagged : ∀ u, c.thread_start_map u = true → c.routines u = true)
    (addr : Addr) (child : ThrID) (ret_val : Int)
    (hpc : c.system.pcs t = .spawn addr child ret_val)
    (hroutine : c.routines child = true ↔ ret_val = OPERATION_SUCCESSFUL) :
    Inv (c.awaitStart t addr child ret_val) := by
  unfold Creation.awaitStart
  split
  · refine ⟨fun u _ => ?_, fun u hu => ?_, fun u hu => ?_, hflagged, fun u addr' child' ret_val' hu => ?_⟩
    · by_cases hut : u = t
      · simp [hut]
      · simpa [hut] using hidle u hut
    · by_cases hut : u = t
      · simp [hut, System.goto]
      · simpa [hut, System.goto] using hstarted u hu
    · by_cases hut : u = t
      · simp [hut, System.goto]
      · simpa [hut, System.goto] using hmade u hu
    · have hut : u ≠ t := by
        rintro rfl
        simp [System.goto] at hu
      simp only [System.goto, Function.update_of_ne hut] at hu
      exact absurd (hunique u addr' child' ret_val' hu) hut
  · refine ⟨fun u hu => ?_, hstarted, hmade, hflagged, fun u addr' child' ret_val' hu => ?_⟩
    · have hut : u ≠ t := by
        rintro rfl
        exact hu addr child ret_val hpc
      simpa [hut] using hidle u hut
    · have hut : u = t := hunique u addr' child' ret_val' hu
      subst hut
      have heq : Pc.spawn addr child ret_val = .spawn addr' child' ret_val' := hpc.symm.trans hu
      cases heq
      simpa using hroutine

-- The lines of `thrille_create`.
theorem Inv.thrille_create (h : Inv c) (hunique : ∀ u addr child ret_val,
      c.system.pcs u = .spawn addr child ret_val → u = t) (addr : Addr) (child : ThrID)
    (ret_val : Int) (hpc : c.system.pcs t = .spawn addr child ret_val)
    (hborn : c.system.pcs child ≠ .unborn) : Inv (c.thrille_create t addr child ret_val) := by
  have hcalled := h.called t addr child ret_val hpc
  have hidle (u : ThrID) (hu : u ≠ t) : c.creates u = .mark :=
    h.idle u fun addr child ret_val hspawn => hu (hunique u addr child ret_val hspawn)
  unfold Creation.thrille_create
  cases hat : c.creates t with
  | mark =>
      have hroutine : ¬ c.routines child = true := by
        rw [hcalled, hat]
        nofun
      refine ⟨fun u hu => ?_, fun u hu => ?_, h.made, fun u hu => ?_,
        fun u addr' child' ret_val' hu => ?_⟩
      · have hut : u ≠ t := by
          rintro rfl
          exact hu addr child ret_val hpc
        simpa [hut] using hidle u hut
      · have hchild : u ≠ child := by
          rintro rfl
          simp at hu
        simp only [Function.update_of_ne hchild] at hu
        exact h.started u hu
      · have hchild : u ≠ child := by
          rintro rfl
          simp at hu
        simp only [Function.update_of_ne hchild] at hu
        exact h.flagged u hu
      · have hut : u = t := hunique u addr' child' ret_val' hu
        subst hut
        have heq : Pc.spawn addr child ret_val = .spawn addr' child' ret_val' := hpc.symm.trans hu
        cases heq
        simp [hroutine]
  | call =>
      dsimp only
      split
      · rename_i hret
        refine Inv.awaitStart (c := { c with routines := Function.update c.routines child true })
          hunique hidle h.started (fun u hu => ?_) (fun u hu => ?_) addr child ret_val hpc ?_
        · by_cases hchild : u = child
          · rw [hchild]
            exact hborn
          · simp only [Function.update_of_ne hchild] at hu
            exact h.made u hu
        · by_cases hchild : u = child
          · simp [hchild]
          · simpa [hchild] using h.flagged u hu
        · simp [hret]
      · rename_i hret
        refine Inv.awaitStart hunique hidle h.started h.made h.flagged addr child ret_val hpc ?_
        rw [hcalled, hat]
        simp [hret]
  | wait =>
      refine Inv.awaitStart hunique hidle h.started h.made h.flagged addr child ret_val hpc ?_
      rw [hcalled, hat]
      simp

theorem Inv.my_start_routine (h : Inv c) (hpc : c.system.pcs t = .created)
    (hroutine : c.routines t = true) : Inv (c.my_start_routine t) := by
  unfold Creation.my_start_routine
  refine ⟨fun u hu => ?_, fun u hu => ?_, fun u hu => ?_, fun u hu => ?_,
    fun u addr child ret_val hu => ?_⟩
  · by_cases hut : u = t
    · subst hut
      exact h.idle u (by simp [hpc])
    · simp only [System.goto, Function.update_of_ne hut] at hu
      exact h.idle u hu
  · by_cases hut : u = t
    · simp [hut, System.goto]
    · simp only [Function.update_of_ne hut] at hu
      simpa [System.goto, hut] using h.started u hu
  · by_cases hut : u = t
    · simp [hut, System.goto]
    · simpa [System.goto, hut] using h.made u hu
  · by_cases hut : u = t
    · rw [hut]
      exact hroutine
    · simp only [Function.update_of_ne hut] at hu
      exact h.flagged u hu
  · have hut : u ≠ t := by
      rintro rfl
      simp [System.goto] at hu
    simp only [System.goto, Function.update_of_ne hut] at hu
    exact h.called u addr child ret_val hu

theorem Inv.moves (h : Inv c) {moves : (ThrID → Pc) → ThrID → Pc} {system : System σ}
    (hmoves : System.Moves t (c.system.pcs t) moves) (hpcs : system.pcs = moves c.system.pcs)
    (hspawn : ∀ addr child ret_val, c.system.pcs t ≠ .spawn addr child ret_val)
    (hchild : ∀ addr child ret_val, c.system.pcs t = .beforeCreate addr child ret_val →
      c.system.pcs child = .unborn) : Inv { c with system } := by
  have hmark : c.creates t = .mark := h.idle t hspawn
  cases hmoves with
  | stays =>
      have hsame : system.pcs = c.system.pcs := hpcs
      refine ⟨?_, ?_, ?_, h.flagged, ?_⟩ <;> simp only [hsame]
      · exact h.idle
      · exact h.started
      · exact h.made
      · exact h.called
  | goes pc' hborn hcreated hnew =>
      have hat (u : ThrID) : system.pcs u = if u = t then pc' else c.system.pcs u := by
        rw [hpcs]
        by_cases hut : u = t <;> simp [hut]
      refine ⟨fun u hu => ?_, fun u hu => ?_, fun u hu => ?_, h.flagged,
        fun u addr child ret_val hu => ?_⟩
      · by_cases hut : u = t
        · rw [hut]
          exact hmark
        · simp only [hat, if_neg hut] at hu
          exact h.idle u hu
      · simp only [hat]
        split
        · exact ⟨hborn, hcreated⟩
        · exact h.started u hu
      · simp only [hat]
        split
        · exact hborn
        · exact h.made u hu
      · simp only [hat] at hu
        split at hu
        · exact absurd hu (hnew addr child ret_val)
        · exact h.called u addr child ret_val hu
  | creates addr child ret_val hpc =>
      have hunborn := hchild addr child ret_val hpc
      have hroutine : ¬ c.routines child = true := fun hr => h.made child hr hunborn
      have hflag : ¬ c.thread_start_map child = true := fun hf => (h.started child hf).1 hunborn
      have hat (u : ThrID) : system.pcs u =
          if u = t then .spawn addr child ret_val else if u = child then .created
            else c.system.pcs u := by
        rw [hpcs]
        by_cases hut : u = t
        · simp [hut]
        · by_cases huc : u = child <;> simp [hut, huc]
          subst huc
          simp [hut]
      refine ⟨fun u hu => ?_, fun u hu => ?_, fun u hu => ?_, h.flagged,
        fun u addr' child' ret_val' hu => ?_⟩
      · by_cases hut : u = t
        · rw [hut]
          exact hmark
        · by_cases huc : u = child
          · exact h.idle u (by simp [huc, hunborn])
          · simp only [hat, if_neg hut, if_neg huc] at hu
            exact h.idle u hu
      · have huc : u ≠ child := by
          rintro rfl
          exact hflag hu
        simp only [hat, if_neg huc]
        split
        · exact ⟨nofun, nofun⟩
        · exact h.started u hu
      · simp only [hat]
        split
        · nofun
        · split
          · nofun
          · exact h.made u hu
      · simp only [hat] at hu
        split at hu
        · rename_i hut
          cases hu
          rw [hut, hmark]
          simp [hroutine]
        · split at hu
          · cases hu
          · exact h.called u addr' child' ret_val' hu

theorem Inv.step (h : Inv c) (hserial : (∃ k, Serial c.abstract k) ∨ Halted c.abstract)
    (hstep : c.step v t ret_addr op = some c') : Inv c' := by
  obtain ⟨hrunning, hcases⟩ := step_cases hstep
  rcases hserial with ⟨k, hserial⟩ | hhalted
  · rcases hcases with ⟨addr, child, ret_val, hpc, rfl⟩ | ⟨hpc, hroutine, rfl⟩ |
      ⟨hspawn, system, hsystem, rfl⟩
    · refine h.thrille_create (fun u addr' child' ret_val' hu =>
        creator_unique hserial addr addr' child child' ret_val ret_val' hpc hu)
        addr child ret_val hpc fun hunborn => ?_
      by_cases hflag : c.thread_start_map child = true
      · exact (h.started child hflag).1 hunborn
      · rw [child_created hserial addr child ret_val hpc (by simpa using hflag)] at hunborn
        cases hunborn
    · exact h.my_start_routine hpc hroutine
    · obtain ⟨moves, hmoves, hpcs, _⟩ := System.step_withPcs hsystem hspawn
      exact h.moves hmoves hpcs hspawn fun addr child ret_val hpc =>
        child_unborn hserial addr child ret_val hpc
  · exact absurd hrunning hhalted.stopped

-- What a creator does before it has seen the flag is no step of the system, nor is it one after.
theorem abstract_thrille_create (hunique : ∀ u addr child ret_val,
      c.system.pcs u = .spawn addr child ret_val → u = t) (addr : Addr) (child : ThrID)
    (ret_val : Int) (hpc : c.system.pcs t = .spawn addr child ret_val)
    (hmark : c.creates t = .mark → c.thread_start_map child = false) :
    (c.thrille_create t addr child ret_val).abstract = c.abstract := by
  have hawait (c' : Creation σ) (hsystem : c'.system = c.system)
      (hflags : c'.thread_start_map = c.thread_start_map) :
      (c'.awaitStart t addr child ret_val).abstract = c.abstract := by
    have hsame : c'.abstract = c.abstract := by
      unfold abstract
      rw [hsystem]
      congr 1
      funext u
      cases c.system.pcs u <;> simp [passed, hflags]
    rw [← hsame]
    unfold awaitStart
    split
    · rename_i hflag
      unfold abstract System.withPcs System.goto
      congr 1
      funext u
      by_cases hut : u = t
      · subst hut
        have hat : c'.system.pcs u = .spawn addr child ret_val := by rw [hsystem, hpc]
        simp [hat, passed, hflag]
      · simp only [Function.update_of_ne hut]
        rfl
    · rfl
  unfold thrille_create
  cases hat : c.creates t with
  | mark =>
      have hflag := hmark hat
      have hflags : Function.update c.thread_start_map child false = c.thread_start_map := by
        rw [← hflag, Function.update_eq_self]
      dsimp only
      rw [hflags]
      rfl
  | call =>
      dsimp only
      split
      · exact hawait _ rfl rfl
      · exact hawait c rfl rfl
  | wait => exact hawait c rfl rfl

theorem abstract_moves {moves : (ThrID → Pc) → ThrID → Pc}
    (hmoves : System.Moves t (c.system.pcs t) moves)
    (hchild : ∀ addr child ret_val, c.system.pcs t = .beforeCreate addr child ret_val →
      c.thread_start_map child = false) :
    moves (fun u => c.passed (c.system.pcs u)) = fun u => c.passed (moves c.system.pcs u) := by
  cases hmoves with
  | stays => rfl
  | goes pc' _ _ hnew =>
      funext u
      by_cases hut : u = t
      · simp [hut, passed_of_not_spawn c pc' hnew]
      · simp [hut]
  | creates addr child ret_val hpc =>
      have hflag := hchild addr child ret_val hpc
      funext u
      by_cases hut : u = t
      · simp [hut, passed, hflag]
      · by_cases huc : u = child
        · subst huc
          simp [hut, passed]
        · simp [hut, huc]

-- The finer system refines the other one: the child's first section is the step `spawns`.
theorem refines (h : Inv c) (hserial : (∃ k, Serial c.abstract k) ∨ Halted c.abstract)
    (hstep : c.step v t ret_addr op = some c') :
    c'.abstract = c.abstract ∨
      ∃ u addr op', c.abstract.step v u addr op' = some c'.abstract := by
  obtain ⟨hrunning, hcases⟩ := step_cases hstep
  rcases hserial with ⟨k, hserial⟩ | hhalted
  · rcases hcases with ⟨addr, child, ret_val, hpc, rfl⟩ | ⟨hpc, hroutine, rfl⟩ |
      ⟨hspawn, system, hsystem, rfl⟩
    · left
      refine abstract_thrille_create (fun u addr' child' ret_val' hu =>
        creator_unique hserial addr addr' child child' ret_val ret_val' hpc hu) addr child ret_val
        hpc fun hmark => ?_
      by_contra hset
      have hcalled := (h.called t addr child ret_val hpc).mp (h.flagged child (by simpa using hset))
      rw [hmark] at hcalled
      cases hcalled.1
    · right
      obtain ⟨u, addr, ret_val, hu⟩ := creator_of_created hserial hpc
      have hflag : c.thread_start_map t = false := by
        by_contra hset
        exact (h.started t (by simpa using hset)).2 hpc
      obtain ⟨_, rfl⟩ := (h.called u addr t ret_val hu).mp hroutine
      have hut : u ≠ t := by
        rintro rfl
        rw [hpc] at hu
        cases hu
      have hat : c.abstract.pcs u = .spawn addr t OPERATION_SUCCESSFUL := by
        rw [abstract_pcs, hu, passed, hflag]
        rfl
      refine ⟨u, ret_addr, op, System.step_iff.mpr ⟨hrunning, ?_⟩⟩
      have htransition : System.Transition v c.abstract u ret_addr op _ := .spawns addr t hat
      have heq : (c.my_start_routine t).abstract =
          (c.abstract.goto t .threadStart).goto u (.afterCreate addr OPERATION_SUCCESSFUL) := by
        unfold my_start_routine abstract System.withPcs System.goto
        congr 1
        funext x
        by_cases hxu : x = u
        · subst hxu
          simp [hut, hu, passed]
        · by_cases hxt : x = t
          · subst hxt
            simp [hxu, passed]
          · simp only [Function.update_of_ne hxu, Function.update_of_ne hxt]
            cases hx : c.system.pcs x with
            | spawn addr' child' ret_val' =>
                exact absurd (creator_unique hserial addr addr' t child' _ ret_val' hu hx) hxu
            | _ => rfl
      rw [heq]
      exact htransition
    · right
      obtain ⟨moves, hmoves, hpcs, hback⟩ := System.step_withPcs hsystem hspawn
      refine ⟨t, ret_addr, op, ?_⟩
      have hnext := hback (fun u => c.passed (c.system.pcs u))
        (passed_of_not_spawn c _ hspawn) fun u hu => by rw [hu]; rfl
      rw [abstract_moves hmoves, ← hpcs] at hnext
      · exact hnext
      · intro addr child ret_val hpc
        by_contra hset
        exact (h.started child (by simpa using hset)).1 (child_unborn hserial addr child ret_val hpc)
  · exact absurd hrunning hhalted.stopped

end Creation

end Thrille
