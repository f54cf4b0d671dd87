import Thrille.Files.ParseFile
import Thrille.Replay.Picks
import Thrille.Replay.Theorems

namespace Thrille

open Relation Text SchedulePoint

namespace DecisionInfo

-- Another thread than the caller, which is listed.
def isPreemption : DecisionInfo → Bool
  | sched chosen caller _ _ enabled => caller != chosen && enabled.contains caller
  | signal .. => false

theorem isPreemption_of_nonpreemptive {d : DecisionInfo} (h : d.nonpreemptive = some d.getChosen) :
    d.isPreemption = false := by
  cases d with
  | signal chosen caller idaddr cond oncond => rfl
  | sched chosen caller description idaddr enabled =>
      rw [nonpreemptive, getChosen] at h
      by_cases hcaller : caller ∈ enabled
      · rw [if_pos hcaller, Option.some_inj] at h
        simp [isPreemption, h]
      · simp [isPreemption, hcaller]

end DecisionInfo

namespace LogPoint

-- The scripts count the same decisions.
theorem countP_isPreemption (p : LogPoint) :
    p.decisions.countP DecisionInfo.isPreemption =
      [p.point parsedNames].countP fun x => x.caller != x.chosen && x.enabled.contains x.caller := by
  have hsched : ((p.point parsedNames).caller != (p.point parsedNames).chosen &&
      (p.point parsedNames).enabled.contains (p.point parsedNames).caller) =
        (p.caller != p.chosen && p.enabled.contains p.caller) := by
    have hnames : (idName p.caller == idName p.chosen) = (p.caller == p.chosen) := by
      rw [Bool.eq_iff_iff, beq_iff_eq, beq_iff_eq]
      exact ⟨idName_injective _ _, fun h => by rw [h]⟩
    have henabled : (parsedNames p.enabled).contains (idName p.caller) =
        p.enabled.contains p.caller := by
      rw [Bool.eq_iff_iff, List.contains_iff_mem, List.contains_iff_mem, mem_parsedNames]
    unfold LogPoint.point bne
    dsimp only
    rw [hnames, henabled]
  unfold decisions
  rw [List.countP_append, List.countP_singleton, List.countP_singleton, hsched]
  cases p.signal with
  | none => exact Nat.zero_add _
  | some entry => exact Nat.zero_add _

theorem countP_isPreemption_points (points : List LogPoint) :
    (points.flatMap decisions).countP DecisionInfo.isPreemption =
      (points.map (LogPoint.point parsedNames)).countP
        fun x => x.caller != x.chosen && x.enabled.contains x.caller := by
  induction points with
  | nil => rfl
  | cons p points ih =>
      rw [List.map_cons, List.flatMap_cons, List.countP_append, ih, p.countP_isPreemption,
        ← List.countP_append, List.singleton_append]

end LogPoint

namespace Schedule

-- A line at the end of a log adds no point.
theorem parseEntries_line (turns : Nat) (line : List Char) (schedule points : List SchedulePoint)
    (error : Option String)
    (h : parseEntries (turns + 1) [line] schedule = some (points, error)) : points = schedule := by
  rw [parseEntries] at h
  split at h
  · simp at h
  · split at h
    · simp at h
    · split at h
      · cases h
        rfl
      · split at h
        · cases h
          rfl
        · split at h
          · cases h
            rfl
          · split at h
            · cases h
              rfl
            · simp only [Option.bind_eq_bind, Option.bind_eq_some_iff] at h
              obtain ⟨_, _, hresult⟩ := h
              cases hresult
              rfl

end Schedule

namespace LogFile

theorem schedule_of_parseFile (log : LogFile) (hsound : log.Sound) {result : Schedule}
    (h : Schedule.parseFile log.text = some result) :
    result.schedule = log.schedule.map (LogPoint.point parsedNames) := by
  obtain ⟨turns, hparse⟩ := log.parseFile_text hsound
  rw [hparse] at h
  split at h
  · obtain ⟨⟨schedule, error⟩, hentries, hresult⟩ := Option.bind_eq_some_iff.mp h
    dsimp only at hresult
    split at hresult
    · cases hresult
    · cases hresult
      cases htruncated : log.truncated with
      | none =>
          rw [tail, htruncated, List.nil_append] at hentries
          exact Schedule.parseEntries_line _ _ _ _ _ hentries
      | some open_entry =>
          obtain ⟨file, cond, hfinal⟩ := log.cut (by rw [htruncated]; rfl)
          obtain ⟨caller, entry⟩ := open_entry
          have htail : log.tail = ("SIGNAL".toList ++ ['\n']) :: entry.lines caller ++
              [(Final.assertFail file cond).print] := by
            rw [tail, htruncated, hfinal]
          rw [htail, Schedule.parseEntries_truncated] at hentries
          exact (Prod.mk.inj (Option.some.inj hentries)).1.symm
  · cases h

-- The preemptions that the scripts find in a log.
theorem getPreemptions_of_parseFile (log : LogFile) (hsound : log.Sound) {result : Schedule}
    (h : Schedule.parseFile log.text = some result) :
    result.getPreemptions = some (log.decisions.countP DecisionInfo.isPreemption) := by
  rw [Schedule.getPreemptions_eq, Schedule._getPreemptions, log.schedule_of_parseFile hsound h,
    ← LogPoint.countP_isPreemption_points, decisions, List.countP_append]
  -- an entry at the end is one of a signal
  cases log.truncated with
  | none => rfl
  | some open_entry => rfl

end LogFile

end Thrille
