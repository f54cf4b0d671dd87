import Thrille.Files.RoundTrip
import Thrille.Replay.Preemptions
import Thrille.Replay.Strict

namespace Thrille

open Relation Text

-- The main thread creates a thread and joins it.
def joining : Program := fun turns =>
  match turns.getLast? with
  | some (0, _) =>
      if (turns.filter fun turn => turn.1 == 0).length = 1 then (16, .create OPERATION_SUCCESSFUL)
      else (32, .join 1)
  | _ => (48, .threadReturn)

-- The steps to the first three decisions of a run.
def joiningSteps : List ThrID :=
  List.replicate 13 0 ++ List.replicate 6 1

def joiningLog : List DecisionInfo :=
  [.sched 0 0 "After_Create" 16 [0, 1], .sched 1 0 "Before_Join" 32 [1],
    .sched 0 1 "Thread_Finish" 48 [0]]

theorem not_cut (h : (none : Option (ThrID × SignalEntry)).isSome = true) :
    ∃ file cond, Final.endLog = .assertFail file cond := by
  cases h

-- The child goes first, and the main thread goes on when it is finished.
def childFirst : LogFile where
  points := {}
  schedule := [
    { signal := none, chosen := 1, caller := 0, description := "After_Create", idaddr := 16,
      enabled := [0, 1] },
    { signal := none, chosen := 0, caller := 1, description := "Thread_Finish", idaddr := 48,
      enabled := [0] }]
  truncated := none
  final := .endLog
  cut := not_cut

def Run.logs {σ : Type} (log : List DecisionInfo) (r : Option (Run σ)) : Bool :=
  r.any fun r => r.system.stopped == none && r.system.log.schedule == log

theorem Run.exists_of_logs {σ : Type} {v : Virtual σ} {prog : Program} {start : Run σ}
    {steps : List ThrID} {log : List DecisionInfo} (h : Run.logs log (start.steps v prog steps) = true) :
    ∃ last, ReflTransGen (Run.Step v prog) start last ∧ last.system.stopped = none ∧
      last.system.log.schedule = log := by
  obtain ⟨last, hsteps, hlast⟩ := (Option.any_eq_true _ _).mp h
  rw [Bool.and_eq_true, beq_iff_eq, beq_iff_eq] at hlast
  exact ⟨last, Run.reaches_of_steps _ hsteps, hlast.1, hlast.2⟩

theorem runs_of_joining :
    Run.logs joiningLog
        ((Run.initial () []).steps ExecutionTracker.virtual joining joiningSteps) = true ∧
      Run.logs joiningLog
        ((Run.initial {} []).steps ChessTracker.virtual joining joiningSteps) = true ∧
      Run.logs childFirst.decisions ((Run.initial {} [.sched 1 0 "" 0 []]).steps ChessTracker.virtual
        joining (List.replicate 7 0 ++ List.replicate 6 1)) = true := by
  decide +kernel

namespace ExecutionTracker

variable {σ : Type} (v : Virtual σ) (hlogged : ∀ info, v.logged info = info.enabled)
  (prog : Program) (scheduler : σ) (read_schedule : List DecisionInfo) (last : Run σ)
  (hlast : ReflTransGen (Run.Step v prog) (Run.initial scheduler read_schedule) last)
  (hrunning : last.system.stopped = none)

include hlogged hlast hrunning

-- The log of a run can be replayed, whatever has picked the threads. What else the log has behind
-- the decisions does not matter.
theorem logged_run_is_replayed (planned : List DecisionInfo)
    (hplanned : planned <+: last.system.log.schedule) (log : List DecisionInfo)
    (others : List ThrID)
    (hlog : log.map DecisionInfo.getChosen = planned.map DecisionInfo.getChosen ++ others) :
    CarriesOut virtual prog planned (Run.initial () log) :=
  carriesOut_of_replays (ExecutionTracker.replays v hlogged) trivial hlast hrunning hplanned hlog

-- Any other thread that the log lists can be taken instead.
theorem other_choice_is_made (planned : List DecisionInfo) (d : DecisionInfo)
    (hplanned : planned ++ [d] <+: last.system.log.schedule) (alt : ThrID) (halt : alt ∈ d.listed)
    (log : List DecisionInfo) (more : List ThrID)
    (hlog : log.map DecisionInfo.getChosen =
      planned.map DecisionInfo.getChosen ++ alt :: more) :
    CarriesOut virtual prog (planned ++ [d.choosing alt]) (Run.initial () log) :=
  carriesOut_of_branches (ExecutionTracker.replays v hlogged) (ExecutionTracker.branches v hlogged)
    trivial hlast hrunning hplanned halt hlog

end ExecutionTracker

theorem logged_run_is_replayed_joining :
    CarriesOut ExecutionTracker.virtual joining joiningLog (Run.initial () joiningLog) := by
  obtain ⟨last, hlast, hrunning, hschedule⟩ := Run.exists_of_logs runs_of_joining.1
  exact ExecutionTracker.logged_run_is_replayed ExecutionTracker.virtual (fun _ => rfl) joining () []
    last hlast hrunning joiningLog (hschedule ▸ List.prefix_rfl) joiningLog [] (by simp)

-- The child goes first.
theorem other_choice_is_made_joining :
    CarriesOut ExecutionTracker.virtual joining [.sched 1 0 "After_Create" 16 [0, 1]]
      (Run.initial () [.sched 1 0 "" 0 []]) := by
  obtain ⟨last, hlast, hrunning, hschedule⟩ := Run.exists_of_logs runs_of_joining.1
  exact ExecutionTracker.other_choice_is_made ExecutionTracker.virtual (fun _ => rfl) joining () []
    last hlast hrunning [] (.sched 0 0 "After_Create" 16 [0, 1])
    (by rw [hschedule]; exact ⟨joiningLog.tail, rfl⟩) 1 (by decide) _ [] rfl

namespace ChessTracker

variable (prog : Program) (scheduler : FairScheduler) (read_schedule : List DecisionInfo)
  (last : Run FairScheduler)
  (hlast : ReflTransGen (Run.Step virtual prog) (Run.initial scheduler read_schedule) last)
  (hrunning : last.system.stopped = none)

include hlast hrunning

theorem chess_log_is_replayed (planned : List DecisionInfo)
    (hplanned : planned <+: last.system.log.schedule) (log : List DecisionInfo)
    (others : List ThrID)
    (hlog : log.map DecisionInfo.getChosen = planned.map DecisionInfo.getChosen ++ others) :
    CarriesOut virtual prog planned (Run.initial scheduler log) :=
  carriesOut_of_replays ChessTracker.replays rfl hlast hrunning hplanned hlog

-- The targets of the search are of this kind.
theorem chess_target_is_followed (planned : List DecisionInfo) (d : DecisionInfo)
    (hplanned : planned ++ [d] <+: last.system.log.schedule) (alt : ThrID) (halt : alt ∈ d.listed)
    (log : List DecisionInfo) (more : List ThrID)
    (hlog : log.map DecisionInfo.getChosen =
      planned.map DecisionInfo.getChosen ++ alt :: more) :
    CarriesOut virtual prog (planned ++ [d.choosing alt]) (Run.initial scheduler log) :=
  carriesOut_of_branches ChessTracker.replays ChessTracker.branches rfl hlast hrunning hplanned halt
    hlog

-- Behind its target a run keeps to the caller wherever it can, and what the scripts read of the run
-- has no more preemptions than the target.
theorem chess_adds_no_preemptions (planned : List DecisionInfo) (d : DecisionInfo)
    (hplanned : planned ++ [d] <+: last.system.log.schedule) (alt : ThrID) (halt : alt ∈ d.listed)
    (log : List DecisionInfo)
    (hlog : log.map DecisionInfo.getChosen = planned.map DecisionInfo.getChosen ++ [alt])
    (r : Run FairScheduler)
    (hr : ReflTransGen (Run.Step virtual prog) (Run.initial scheduler log) r)
    (hended : ∀ reason, r.system.stopped = some reason → reason.isEnd = true) :
    (∀ e ∈ r.system.log.schedule.drop log.length, e.nonpreemptive = some e.getChosen) ∧
      ∀ file : LogFile, file.Sound → file.decisions = r.system.log.schedule →
        ∀ result, Schedule.parseFile file.text = some result →
          ∃ n, result.getPreemptions = some n ∧
            n ≤ (planned ++ [d.choosing alt]).countP DecisionInfo.isPreemption := by
  have hpicked := picked_of_ended ChessTracker.picks hr hended
  refine ⟨hpicked, fun file hsound hfile result hresult =>
    ⟨_, file.getPreemptions_of_parseFile hsound hresult, ?_⟩⟩
  rw [hfile]
  have hlength : log.length = (planned ++ [d.choosing alt]).length := by
    have hcount := congrArg List.length hlog
    simpa using hcount
  have hcarries : CarriesOut virtual prog (planned ++ [d.choosing alt])
      (Run.initial scheduler log) :=
    carriesOut_of_branches ChessTracker.replays ChessTracker.branches rfl hlast hrunning hplanned
      halt hlog
  rcases (hcarries r hr).logs with hshort | ⟨rest, hrest⟩
  · exact hshort.sublist.countP_le
  · rw [← hrest, hlength, List.drop_left] at hpicked
    have hnone : rest.countP DecisionInfo.isPreemption = 0 := by
      rw [List.countP_eq_zero]
      intro e he
      rw [DecisionInfo.isPreemption_of_nonpreemptive (hpicked e he)]
      exact nofun
    rw [← hrest, List.countP_append, hnone, Nat.add_zero]

end ChessTracker

theorem chess_log_is_replayed_joining :
    CarriesOut ChessTracker.virtual joining joiningLog (Run.initial {} joiningLog) := by
  obtain ⟨last, hlast, hrunning, hschedule⟩ := Run.exists_of_logs runs_of_joining.2.1
  exact ChessTracker.chess_log_is_replayed joining {} [] last hlast hrunning joiningLog
    (hschedule ▸ List.prefix_rfl) joiningLog [] (by simp)

theorem chess_target_is_followed_joining :
    CarriesOut ChessTracker.virtual joining [.sched 1 0 "After_Create" 16 [0, 1]]
      (Run.initial {} [.sched 1 0 "" 0 []]) := by
  obtain ⟨last, hlast, hrunning, hschedule⟩ := Run.exists_of_logs runs_of_joining.2.1
  exact ChessTracker.chess_target_is_followed joining {} [] last hlast hrunning []
    (.sched 0 0 "After_Create" 16 [0, 1])
    (by rw [hschedule]; exact ⟨joiningLog.tail, rfl⟩) 1 (by decide) _ [] rfl

theorem chess_adds_no_preemptions_joining :
    ∃ result, Schedule.parseFile childFirst.text = some result ∧
      ∃ n, result.getPreemptions = some n ∧ n ≤ 1 := by
  obtain ⟨last, hlast, hrunning, hschedule⟩ := Run.exists_of_logs runs_of_joining.2.1
  obtain ⟨r, hr, hgoes, hlog⟩ := Run.exists_of_logs runs_of_joining.2.2
  have hparses : (Schedule.parseFile childFirst.text).isSome = true := by decide +kernel
  obtain ⟨result, hresult⟩ := Option.isSome_iff_exists.mp hparses
  have hsound : childFirst.Sound := by
    refine ⟨?_, trivial⟩
    unfold childFirst Plain
    decide
  obtain ⟨_, hfiles⟩ := ChessTracker.chess_adds_no_preemptions joining {} [] last hlast hrunning []
    (.sched 0 0 "After_Create" 16 [0, 1]) (by rw [hschedule]; exact ⟨joiningLog.tail, rfl⟩) 1
    (by decide) _ rfl r hr fun reason hreason => by
      rw [hgoes] at hreason
      cases hreason
  exact ⟨result, hresult, hfiles childFirst hsound hlog.symm result hresult⟩

-- An entry without its list. The files of the two writers hold ids only.
def ReadInfo.decision : ReadInfo → DecisionInfo
  | sched chosen caller description idaddr =>
      .sched chosen.toNat caller.toNat (String.ofList description) idaddr []
  | signal chosen caller idaddr cond => .signal chosen.toNat caller.toNat idaddr cond []

theorem DecisionInfo.key_readInfo (d : DecisionInfo) : d.readInfo.decision.key = d.key := by
  cases d with
  | sched chosen caller description idaddr enabled => rfl
  | signal chosen caller idaddr cond oncond => rfl

-- What can be read of a file is what was written to it, but for the lists.
theorem Writes.read {ds : List DecisionInfo} {file : List Char} (hwrites : Writes ds file)
    (hsound : ∀ d ∈ ds, d.Sound) {turns : Nat} {points : AddrPoints} {infos : List ReadInfo}
    (hread : Logger.readLog turns file = some (points, infos)) :
    (infos.map ReadInfo.decision).map DecisionInfo.key = ds.map DecisionInfo.key := by
  obtain ⟨points', ws, final, hpoints, hagrees, hfinal, rfl⟩ := hwrites.entries hsound
  obtain ⟨hws, hinfo, _⟩ := DecisionInfo.agrees_lists hagrees
  rw [Logger.readLog_written points' hpoints ws hws final hfinal] at hread
  split at hread
  · have hinfos : infos = ds.map DecisionInfo.readInfo := by
      rw [← hinfo]
      exact (Prod.mk.inj (Option.some.inj hread)).2.symm
    rw [hinfos, List.map_map, List.map_map]
    exact List.map_congr_left fun d _ => d.key_readInfo
  · cases hread

end Thrille
