import Thrille.Lib.Text
import Thrille.Replay.Picks
import Thrille.Replay.Theorems

namespace Thrille

open Relation Text ExecutionTracker

-- The address of the schedule point.
def DecisionInfo.getID : DecisionInfo → Addr
  | sched _ _ _ idaddr _ => idaddr
  | signal _ _ idaddr _ _ => idaddr

-- What a strict scheduler reads of a log.
def DecisionInfo.key (d : DecisionInfo) : ThrID × Addr := (d.getChosen, d.getID)

namespace StrictTracker

-- It does not pick any thread.
def virtual : Virtual Unit where
  followingChoiceFromLog _ s := (s.fenmap, ())
  pickNextSchedulingChoice _ s := (none, s.fenmap, ())
  selectThreadWaitingOnCond _ s := (ExecutionTracker.selectThreadWaitingOnCond s, ())
  logged s := s.enabled
  admits _ _ := true

-- The assertions of its two methods.
inductive Failure
  | didNotGoPastEndOfReplayLog
  | schedulesAreSynchronized
  deriving DecidableEq

-- What becomes of `startSynchro`.
def compareScheduleSynchronization (startSynchro : Bool) (now before : List Char) :
    Except Failure Bool :=
  if !startSynchro && now != before then .ok startSynchro
  else if now != before then .error .schedulesAreSynchronized
  else .ok true

structure Replay where
  run : Run Unit
  startSynchro : Bool := false
  failed : Option Failure := none

namespace Replay

def initial (log : List DecisionInfo) : Replay where
  run := Run.initial () log

-- What it asserts at a schedule point. Where all threads are disabled, `deadlockCheck` comes first.
def check (self : Replay) (tracker : ExecutionTracker) (s : SchedPointInfo) :
    Except Failure Bool :=
  match self.run.system.log.read_schedule with
  | [] =>
      if tracker.enable_map.toList.any fun entry => entry.2 then
        .error .didNotGoPastEndOfReplayLog
      else .ok self.startSynchro
  | d :: _ =>
      compareScheduleSynchronization self.startSynchro (pointer s.ret_addr) (pointer d.getID)

def asserts (self : Replay) (t : ThrID) : Except Failure Bool :=
  if (self.run.system.pcs t).isSection then
    match self.run.system.tracker.runSection t (self.run.system.pcs t) with
    | .ok (tracker, .schedule s _) => self.check tracker s
    | _ => .ok self.startSynchro
  else .ok self.startSynchro

def step (prog : Program) (self : Replay) (t : ThrID) : Option Replay :=
  if self.failed.isSome then none
  else (self.run.step virtual prog t).map fun run =>
    match self.asserts t with
    | .ok startSynchro => { self with run, startSynchro }
    | .error failure => { self with failed := some failure }

def Step (prog : Program) (r r' : Replay) : Prop := ∃ t, r.step prog t = some r'

variable {prog : Program} {r r' : Replay} {t : ThrID}

theorem step_iff : r.step prog t = some r' ↔ r.failed = none ∧
    ∃ run, r.run.step virtual prog t = some run ∧
      ((∃ startSynchro, r.asserts t = .ok startSynchro ∧ r' = { r with run, startSynchro }) ∨
        ∃ failure, r.asserts t = .error failure ∧ r' = { r with failed := some failure }) := by
  unfold step
  cases hfailed : r.failed with
  | some failure => simp
  | none =>
      simp only [Option.isSome_none, Bool.false_eq_true, if_false, Option.map_eq_some_iff]
      cases hasserts : r.asserts t with
      | ok startSynchro => simp [eq_comm]
      | error failure => simp [eq_comm]

-- A failed assertion leaves the run where it was.
theorem run_of_step (h : Step prog r r') :
    r'.run = r.run ∨ Run.Step virtual prog r.run r'.run := by
  obtain ⟨t, hstep⟩ := h
  obtain ⟨_, run, hrun, ⟨startSynchro, _, rfl⟩ | ⟨failure, _, rfl⟩⟩ := step_iff.mp hstep
  · exact Or.inr ⟨t, hrun⟩
  · exact Or.inl rfl

theorem run_of_steps (h : ReflTransGen (Step prog) r r') :
    ReflTransGen (Run.Step virtual prog) r.run r'.run := by
  induction h with
  | refl => exact .refl
  | tail _ hstep ih =>
      rcases run_of_step hstep with hsame | hnext
      · rw [hsame]
        exact ih
      · exact ih.tail hnext

end Replay

variable {prog : Program} {r r' : Replay} {t : ThrID} {planned log : List DecisionInfo}

theorem compareScheduleSynchronization_self (startSynchro : Bool) (now : List Char) :
    compareScheduleSynchronization startSynchro now now = .ok true := by
  simp [compareScheduleSynchronization]

-- While the plan is not carried out, the assertions hold in every step.
theorem asserts_ok (hreads : r.run.Reads log) (hserial : ∃ c, Serial r.run.system c)
    (hcourse : OnCourse virtual prog planned r.run)
    (hnext : ∀ run, Run.Step virtual prog r.run run → OnCourse virtual prog planned run)
    (hkeys : planned.map DecisionInfo.key <+: log.map DecisionInfo.key)
    (hnot : ¬planned <+: r.run.system.log.schedule) {run : Run Unit}
    (hstep : r.run.step virtual prog t = some run) :
    ∃ startSynchro, r.asserts t = .ok startSynchro := by
  unfold Replay.asserts
  split
  · rename_i hsection
    split
    · rename_i tr info rest hrun
      obtain ⟨hsystem, _⟩ := Run.step_iff.mp hstep
      obtain ⟨c, hserial⟩ := hserial
      have hadvances : r.run.system.Advances t := by
        rcases Pc.advances_of_section hsection (r.run.system.tracker.was_signalled_map t) with
          hadvances | ⟨w, hpc, hsignalled⟩
        · exact hadvances
        · rw [hpc, runSection, checkTimeout, if_pos hsignalled] at hrun
          cases hrun
      obtain ⟨made, hadvanced⟩ := System.advanced_of_step hserial hadvances hsystem
        (hcourse.goes hnot run ⟨t, hstep⟩)
      -- what the step logs is the next decision of the plan
      obtain ⟨x, enabled, hlogged⟩ : ∃ x enabled,
          run.system.log.schedule = r.run.system.log.schedule ++ [info.entry x enabled] := by
        cases hadvanced with
        | asks ret_val hpc hview hlog hscheduler => rw [hpc] at hsection; cases hsection
        | spawns addr child hpc hview hlog hscheduler => rw [hpc] at hsection; cases hsection
        | runs tr' eff choice enabled _ hrun' hdecides hview =>
            rw [hrun] at hrun'
            cases hrun'
            exact ⟨choice, enabled, congrArg View.schedule hview⟩
      have hprefix := hcourse.logs.resolve_right hnot
      have hlt : r.run.system.log.schedule.length < planned.length := by
        by_contra hge
        exact hnot (List.IsPrefix.eq_of_length_le hprefix (by omega) ▸ List.prefix_rfl)
      have hat : planned[r.run.system.log.schedule.length] = info.entry x enabled := by
        have hlogs := (hnext run ⟨t, hstep⟩).logs
        rw [hlogged] at hlogs
        rcases hlogs with hlogs | hlogs
        · have hget := hlogs.getElem (i := r.run.system.log.schedule.length) (by simp)
          simpa using hget.symm
        · have hget := hlogs.getElem hlt
          simpa using hget
      -- and so is the next entry of the log
      obtain ⟨choices, hchosen, hread⟩ := hreads
      have hmoves := System.moves_of_step hsystem hadvances
      have hpending : (r.run.system.view.places t).pending = [] := by
        have hpends : (r.run.system.pcs t).pending = [] := runSection_pends hsection hrun
        rw [← hpends]
        exact congrArg Pc.pending hadvances.place_eq
      have hcount : choices.length = r.run.system.log.schedule.length := by
        rw [(System.chosen_at hserial hmoves hchosen).2, hpending, List.append_nil,
          List.length_map]
        rfl
      have hlt' : choices.length < log.length := by
        have hle := hkeys.length_le
        rw [List.length_map, List.length_map] at hle
        omega
      have hkey : log[choices.length].getID = info.ret_addr := by
        have hget := hkeys.getElem (i := choices.length) (by rw [List.length_map]; omega)
        rw [List.getElem_map, List.getElem_map] at hget
        have hid := congrArg Prod.snd hget
        simp only [hcount, hat] at hid ⊢
        exact hid.symm
      rw [List.drop_eq_getElem_cons hlt'] at hread
      refine ⟨true, ?_⟩
      unfold Replay.check
      rw [hread]
      dsimp only
      rw [hkey]
      exact compareScheduleSynchronization_self _ _
    · exact ⟨_, rfl⟩
  · exact ⟨_, rfl⟩

theorem replays {σ : Type} (v : Virtual σ) (hlogged : ∀ info, v.logged info = info.enabled) :
    Replays v virtual fun _ _ => True where
  schedules := (ExecutionTracker.replays v hlogged).schedules
  signals := (ExecutionTracker.replays v hlogged).signals

-- The run of a plan, seen with the assertions.
theorem carriesOut (hcarries : CarriesOut virtual prog planned (Run.initial () log))
    (hkeys : planned.map DecisionInfo.key <+: log.map DecisionInfo.key)
    (h : ReflTransGen (Replay.Step prog) (Replay.initial log) r)
    (hnot : ¬planned <+: r.run.system.log.schedule) :
    r.failed = none ∧ ∀ r', Replay.Step prog r r' → r'.failed = none := by
  have hok {r : Replay} (h : ReflTransGen (Replay.Step prog) (Replay.initial log) r)
      (hnot : ¬planned <+: r.run.system.log.schedule) {t : ThrID} {run : Run Unit}
      (hstep : r.run.step virtual prog t = some run) :
      ∃ startSynchro, r.asserts t = .ok startSynchro := by
    have hsteps := Replay.run_of_steps h
    have hcourse := hcarries _ hsteps
    obtain ⟨hserial, hreads⟩ := Run.reads_of_steps hsteps (hcourse.running hnot)
    exact asserts_ok hreads hserial hcourse (fun run hrun => hcarries _ (hsteps.tail hrun)) hkeys
      hnot hstep
  have hfine {r r' : Replay} (h : ReflTransGen (Replay.Step prog) (Replay.initial log) r)
      (hnot : ¬planned <+: r.run.system.log.schedule) (hstep : Replay.Step prog r r') :
      r'.failed = none := by
    obtain ⟨t, hstep⟩ := hstep
    obtain ⟨hfailed, run, hrun, ⟨startSynchro, _, rfl⟩ | ⟨failure, herror, rfl⟩⟩ :=
      Replay.step_iff.mp hstep
    · exact hfailed
    · obtain ⟨startSynchro, hasserts⟩ := hok h hnot hrun
      rw [hasserts] at herror
      cases herror
  refine ⟨?_, fun r' hstep => hfine h hnot hstep⟩
  cases h with
  | refl => rfl
  | tail h hstep =>
      refine hfine h (fun hdone => hnot ?_) hstep
      rcases Replay.run_of_step hstep with hsame | hnext
      · rw [hsame]
        exact hdone
      · exact hdone.trans (Run.grows_of_step hnext)

-- It can take the steps of the run as long as the assertions hold.
theorem completes (hcarries : CarriesOut virtual prog planned (Run.initial () log))
    (hkeys : planned.map DecisionInfo.key <+: log.map DecisionInfo.key)
    (h : ReflTransGen (Replay.Step prog) (Replay.initial log) r) {run : Run Unit}
    (hon : ReflTransGen (Run.Step virtual prog) r.run run)
    (hdone : planned <+: run.system.log.schedule) :
    ∃ r', ReflTransGen (Replay.Step prog) r r' ∧ planned <+: r'.run.system.log.schedule := by
  generalize hfirst : r.run = first at hon
  induction hon using ReflTransGen.head_induction_on generalizing r with
  | refl => exact ⟨r, .refl, hfirst ▸ hdone⟩
  | @head first next hstep hrest ih =>
      subst hfirst
      by_cases hnot : planned <+: r.run.system.log.schedule
      · exact ⟨r, .refl, hnot⟩
      · obtain ⟨hfailed, hfine⟩ := carriesOut hcarries hkeys h hnot
        obtain ⟨t, hstep⟩ := hstep
        obtain ⟨startSynchro, hasserts⟩ : ∃ startSynchro, r.asserts t = .ok startSynchro := by
          cases hasserts : r.asserts t with
          | ok startSynchro => exact ⟨startSynchro, rfl⟩
          | error failure =>
              have hbad := hfine { r with failed := some failure } ⟨t, Replay.step_iff.mpr
                ⟨hfailed, next, hstep, Or.inr ⟨failure, hasserts, rfl⟩⟩⟩
              cases hbad
        have hnext : Replay.Step prog r { r with run := next, startSynchro } :=
          ⟨t, Replay.step_iff.mpr
            ⟨hfailed, next, hstep, Or.inl ⟨startSynchro, hasserts, rfl⟩⟩⟩
        obtain ⟨r', hsteps, hlogged⟩ := ih (h.tail hnext) rfl
        exact ⟨r', .head hnext hsteps, hlogged⟩

end StrictTracker

end Thrille
