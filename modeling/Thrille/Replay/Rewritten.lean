import Thrille.Replay.Logs
import Thrille.Replay.Parsed

namespace Thrille

open Relation Text

section Runs

variable {σ : Type} {v : Virtual σ} {prog : Program} {scheduler : σ}
  {read_schedule : List DecisionInfo} {r : Run σ} {final : Final}

end Runs

namespace DecisionInfo

end DecisionInfo

theorem Writes.exists_read {ds : List DecisionInfo} {file : List Char} (h : Writes ds file)
    (hsound : ∀ d ∈ ds, d.Sound) (hfits : ∀ d ∈ ds, d.listLine.length < MAX_READ_SIZE) :
    ∃ turns points, Logger.readLog turns file = some (points, ds.map DecisionInfo.readInfo) := by
  obtain ⟨points, ws, final, hpoints, hagrees, hfinal, rfl⟩ := h.entries hsound
  obtain ⟨hws, hinfo, hlines⟩ := DecisionInfo.agrees_lists hagrees
  refine ⟨points.listed.length + ws.length + 1, points.read, ?_⟩
  rw [Logger.readLog_written points hpoints ws hws final hfinal, if_pos, hinfo]
  exact ⟨by omega, by omega, hlines.mpr hfits⟩

-- The same threads as a program.
def signaller : Program := fun turns =>
  match turns.getLast? with
  | some (0, _) =>
      match (turns.filter fun turn => turn.1 == 0).length with
      | 1 => (16, .create OPERATION_SUCCESSFUL)
      | 2 => (32, .condSignal 7)
      | _ => (32, .threadReturn)
  | _ => (48, .condWait 7 8)

end Thrille
