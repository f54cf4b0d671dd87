import Thrille.Serializer.Threads
import Mathlib.Logic.Relation

namespace Thrille

-- The virtual methods that the subclasses override. The first two may write the fair map of the
-- schedule point. The third one answers a signal; a broadcast wakes the threads in the order of
-- `ExecutionTracker`. `logged` is the map of which the entry of the log shows the enabled threads,
-- and `admits` what a launch asserts besides that the thread is enabled.
structure Virtual (σ : Type) where
  followingChoiceFromLog : σ → SchedPointInfo → ThrMap Bool × σ
  pickNextSchedulingChoice : σ → SchedPointInfo → Option ThrID × ThrMap Bool × σ
  selectThreadWaitingOnCond : σ → SignalPointInfo → Option ThrID × σ
  logged : SchedPointInfo → ThrMap Bool
  admits : SchedPointInfo → ThrID → Bool

-- What POSIX says of the barriers, which the tracker simulates.
structure Barriers where
  count : Addr → Nat := fun _ => 0
  arrived : Addr → Nat := fun _ => 0
  generation : Addr → Nat := fun _ => 0
  joined : ThrID → Nat := fun _ => 0

namespace Barriers

def init (self : Barriers) (barrier : Addr) (count : Nat) : Barriers :=
  { self with
    count := Function.update self.count barrier count
    arrived := Function.update self.arrived barrier 0 }

-- A call joins the generation that is open, and completes it when it is the last one.
def arrive (self : Barriers) (thr : ThrID) (barrier : Addr) : Barriers :=
  let self := { self with
    joined := Function.update self.joined thr (self.generation barrier) }
  if self.count barrier ≤ self.arrived barrier + 1 then
    { self with
      arrived := Function.update self.arrived barrier 0
      generation := Function.update self.generation barrier (self.generation barrier + 1) }
  else
    { self with arrived := Function.update self.arrived barrier (self.arrived barrier + 1) }

def observe (self : Barriers) (thr : ThrID) : Pc → Barriers
  | .enter _ (.barrierWait barrier) => self.arrive thr barrier
  | .enter _ (.barrierInit barrier count) => self.init barrier count
  | _ => self

end Barriers

-- The tracker, the log and the state of the picker, with the program counters of all threads.
-- `issued` counts the operations of the program, and `barriers` takes no part in the run.
structure System (σ : Type) where
  tracker : ExecutionTracker
  log : Logger
  scheduler : σ
  pcs : ThrID → Pc
  global_lock : Option ThrID := none
  issued : Nat := 0
  stopped : Option Stop := none
  barriers : Barriers := {}

namespace System

variable {σ : Type}

-- The main thread is about to run the program.
def initial (scheduler : σ) (read_schedule : List DecisionInfo) : System σ where
  tracker := ExecutionTracker.new
  log := { read_schedule }
  scheduler
  pcs := Function.update (fun _ => .unborn) 0 (.program OPERATION_SUCCESSFUL)

def goto (self : System σ) (thr : ThrID) (pc : Pc) : System σ :=
  { self with pcs := Function.update self.pcs thr pc }

def stop (self : System σ) (stop : Stop) : System σ := { self with stopped := some stop }

def launchThread (v : Virtual σ) (self : System σ) (target : ThrID) (s : SchedPointInfo) :
    System σ :=
  let self := { self with log := self.log.scheduling target { s with enabled := v.logged s } }
  if !self.tracker.isEnabled target then self.stop .isEnabled
  else if !v.admits s target then self.stop .isFairEnabled
  else match self.tracker.launch target with
    | .ok tracker => { self with tracker }
    | .error reason => self.stop reason

def deadlockCheck (self : System σ) : System σ :=
  if self.tracker.enable_map.toList.any fun entry => entry.2 then
    self.stop .notThrilleInternalError
  else self.stop .programDeadlock

def schedule (v : Virtual σ) (self : System σ) (s : SchedPointInfo) : System σ :=
  match self.log.getNextScheduleChoice with
  | (none, _) =>
      let (nextchoice, fenmap, scheduler) := v.pickNextSchedulingChoice self.scheduler s
      let self := { self with scheduler }
      match nextchoice with
      | none => self.deadlockCheck
      | some nextchoice =>
          let tracker := self.tracker.recordScheduleInfo s.thread nextchoice
          { self with tracker }.launchThread v nextchoice
            { s with fenmap, fromLog := false, enabled := self.tracker.enable_map }
  | (some nextchoice, log) =>
      let (fenmap, scheduler) := v.followingChoiceFromLog self.scheduler s
      let tracker := self.tracker.recordScheduleInfo s.thread nextchoice
      { self with log, scheduler, tracker }.launchThread v nextchoice
        { s with fenmap, fromLog := true, enabled := self.tracker.enable_map }

-- How a section of thread `thr`, which is at `pc`, ends. A thread that has scheduled keeps the
-- global lock until its next step.
def perform (v : Virtual σ) (self : System σ) (thr : ThrID) (pc : Pc) : Effect → System σ
  | .goto pc => self.goto thr pc
  | .created child pc => (self.goto child .created).goto thr pc
  | .signalChoice s =>
      match self.log.getNextSignalChoice with
      | (some nextchoice, log) => { self with log }.goto thr (.handoff s nextchoice)
      | (none, _) =>
          match v.selectThreadWaitingOnCond self.scheduler s with
          | (some newchoice, scheduler) => { self with scheduler }.goto thr (.handoff s newchoice)
          | (none, _) => self.stop .choiceIsValid
  | .signalled s target =>
      let self := { self with log := self.log.signalScheduling target s }
      match self.tracker.waitWakeThread target with
      | .ok tracker => { self with tracker }.goto thr (.waitReady s target)
      | .error reason => self.stop reason
  | .schedule s r =>
      let self := self.schedule v s
      if self.stopped.isSome then self
      else { self.goto thr (.launched r) with
        tracker := self.tracker.afterSchedule thr pc
        global_lock := some thr }

def runThread (v : Virtual σ) (self : System σ) (thr : ThrID) (pc : Pc) : System σ :=
  match self.tracker.runSection thr pc with
  | .error reason => self.stop reason
  | .ok (tracker, effect) =>
      { self with tracker, barriers := self.barriers.observe thr pc }.perform v thr pc effect

-- The original calls, and the wait for `wait_ready_map`, that can block.
def ready (self : System σ) : Pc → Bool
  | .originalLock lock => self.tracker.mutexes lock == .free
  | .waitReady _ target => self.tracker.wait_ready_map target
  | .resume (.join target) =>
      match self.pcs target with
      | .blocked .exit => true
      | _ => false
  | _ => true

-- One step of thread `thr`; `none` where it cannot take one. The operation is the one that it
-- asks for if it is in the program.
def step (v : Virtual σ) (self : System σ) (thr : ThrID) (ret_addr : Addr) (op : Op) :
    Option (System σ) :=
  if self.stopped.isSome then none
  else match self.pcs thr with
    | .unborn => none
    | .created => none
    | .program _ => some { self.goto thr (.enter ret_addr op) with issued := self.issued + 1 }
    | .spawn ret_addr child ret_val =>
        if ret_val = OPERATION_SUCCESSFUL then
          some ((self.goto child .threadStart).goto thr (.afterCreate ret_addr ret_val))
        else none
    | .threadStart =>
        if self.global_lock.isNone then some (self.goto thr (.leaving (.pause .start)))
        else none
    | .launched r => some { self.goto thr (.leaving r) with global_lock := none }
    | .leaving r => if self.global_lock.isNone then some (self.goto thr (.blocked r)) else none
    | .blocked .exit => none
    | .blocked (.pause k) =>
        match self.tracker.sem_map thr with
        | some (n + 1) =>
            some ({ self with tracker := self.tracker.setSem thr n }.goto thr (.resume k))
        | _ => none
    | .blocked (.wait w) =>
        match self.tracker.wait_sem_map thr with
        | some (n + 1) =>
            some ({ self with tracker := self.tracker.setWaitSem thr n }.goto thr (.woken w))
        | _ => none
    | pc =>
        if (pc.unlocked || self.global_lock.isNone) && self.ready pc then
          some (self.runThread v thr pc)
        else none

def run (v : Virtual σ) (self : System σ) (steps : List (ThrID × Addr × Op)) : Option (System σ) :=
  steps.foldlM (fun s (thr, ret_addr, op) => s.step v thr ret_addr op) self

-- A step in which a thread in the program asks for an operation that `asks` allows.
def Step (v : Virtual σ) (asks : System σ → ThrID → Addr → Op → Prop) (s s' : System σ) : Prop :=
  ∃ thr ret_addr op, asks s thr ret_addr op ∧ s.step v thr ret_addr op = some s'

-- Where a run of a program can come to.
def Reachable (v : Virtual σ) (asks : System σ → ThrID → Addr → Op → Prop) (s : System σ) :
    Prop :=
  ∃ scheduler read_schedule, Relation.ReflTransGen (Step v asks) (initial scheduler read_schedule) s

theorem reaches_of_run (v : Virtual σ) (s s' : System σ) (steps : List (ThrID × Addr × Op))
    (h : s.run v steps = some s') :
    Relation.ReflTransGen (Step v fun _ _ _ _ => True) s s' := by
  induction steps generalizing s with
  | nil =>
      cases h
      exact .refl
  | cons next steps ih =>
      obtain ⟨thr, ret_addr, op⟩ := next
      simp only [run, List.foldlM_cons, Option.bind_eq_bind, Option.bind_eq_some_iff] at h
      obtain ⟨middle, hstep, hrest⟩ := h
      exact .head ⟨thr, ret_addr, op, trivial, hstep⟩ (ih middle hrest)

end System

end Thrille
