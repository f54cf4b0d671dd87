import Mathlib.Data.List.Forall2
import Thrille.Files.Written

namespace Thrille

open Text

namespace DecisionInfo

def written : DecisionInfo → Written
  | sched chosen caller description idaddr enabled =>
      .sched chosen caller description.toList idaddr enabled
  | signal chosen caller idaddr cond oncond => .signal chosen caller idaddr (pointer cond) oncond

-- What a reader has to get back.
def readInfo : DecisionInfo → ReadInfo
  | sched chosen caller description idaddr _ => .sched chosen caller description.toList idaddr
  | signal chosen caller idaddr cond _ => .signal chosen caller idaddr cond

-- The line of the list, with the end of the line.
def listLine : DecisionInfo → List Char
  | sched _ _ _ _ enabled => field "enable" (threadList enabled)
  | signal _ _ _ _ oncond => field "oncond" (threadList oncond)

-- Ids are `int`s and addresses pointers; the types of the schedule points are short words.
def Sound : DecisionInfo → Prop
  | sched chosen caller description idaddr _ => chosen < 2 ^ 31 ∧ caller < 2 ^ 31 ∧
      Word description.toList ∧ description.toList.length ≤ 244 ∧ idaddr < 2 ^ 64
  | signal chosen caller idaddr cond _ => chosen < 2 ^ 31 ∧ caller < 2 ^ 31 ∧
      idaddr < 2 ^ 64 ∧ cond < 2 ^ 64

theorem text_written (d : DecisionInfo) : d.written.text = d.printToFile := by
  cases d with
  | sched _ _ _ _ _ => exact entry_append _ _ _ _ _ _
  | signal _ _ _ _ _ => exact entry_append _ _ _ _ _ _

-- The entry in the file stands for the decision.
structure Agrees (w : Written) (d : DecisionInfo) : Prop where
  info : w.info = d.readInfo
  listLine : w.listLine = d.listLine
  sound : w.Sound

theorem agrees_written (d : DecisionInfo) (hsound : d.Sound) : Agrees d.written d := by
  cases d with
  | sched _ _ _ _ _ => exact ⟨rfl, rfl, hsound⟩
  | signal _ _ _ cond _ =>
      obtain ⟨hchosen, hcaller, hidaddr, hcond⟩ := hsound
      have hlength := length_pointer cond hcond
      refine ⟨?_, rfl, hchosen, hcaller, hidaddr, word_pointer cond, by omega⟩
      rw [DecisionInfo.written, Written.info, Logger.strtoul_pointer_self cond hcond]
      rfl

end DecisionInfo

-- Every last line of a log begins with an ending.
theorem isReadfileEnd_final (final : Final) : Logger.isReadfileEnd final.print = none := by
  have hthrille : "thrille assert fail ".toList = "thrille assert".toList ++ " fail ".toList := rfl
  have hprogram : "program assert fail [".toList = "program assert".toList ++ " fail [".toList := rfl
  have hsegfault : "segfault thread ".toList = "segfault".toList ++ " thread ".toList := rfl
  obtain ⟨word, rest, hword, hprint⟩ :
      ∃ word rest, word ∈ Logger.endings ∧ final.print = word.toList ++ rest := by
    cases final with
    | endLog => exact ⟨"end_log", ['\n'], by decide, rfl⟩
    | assertFail file cond =>
        refine ⟨"thrille assert", " fail ".toList ++ ((file.reverse.takeWhile (· != '/')).reverse ++
          ' ' :: (cond ++ ['\n'])), by decide, ?_⟩
        unfold Final.print
        dsimp only
        rw [hthrille, List.append_assoc]
    | programAssertFail myself ret_addr =>
        refine ⟨"program assert", " fail [".toList ++ (decimal myself ++ ']' :: ' ' ::
          (pointer ret_addr ++ ['\n'])), by decide, ?_⟩
        unfold Final.print
        dsimp only
        rw [hprogram, List.append_assoc]
    | programDeadlock => exact ⟨"program deadlock", ['\n'], by decide, rfl⟩
    | segfault myself =>
        refine ⟨"segfault", " thread ".toList ++ (decimal myself ++ ['\n']), by decide, ?_⟩
        unfold Final.print
        dsimp only
        rw [hsegfault, List.append_assoc]
  rw [hprint]
  exact Logger.isReadfileEnd_ending word hword rest

-- A schedule point whose names are ids and whose address is a pointer. Only a truncated SIGNAL
-- has no chosen thread.
structure NumberedPoint where
  chosen : Option ThrID
  caller : ThrID
  type : String
  addr : Addr
  enabled : List ThrID
  signal : Option (ThrID × String × List ThrID)
  truncated : chosen = none → signal.isSome = true

namespace NumberedPoint

def toPoint (p : NumberedPoint) : SchedulePoint where
  chosen := p.chosen.bind idName
  caller := idName p.caller
  type := p.type
  addr := addrName p.addr
  enabled := p.enabled.map idName
  signal := p.signal.map fun (signalled, cond, oncond) =>
    { signalled := idName signalled, cond, oncond := oncond.map idName }

-- The decisions of the point; the condition variable is not written.
def decisions (p : NumberedPoint) : List DecisionInfo :=
  (p.signal.map fun (signalled, _, oncond) =>
    DecisionInfo.signal signalled p.caller p.addr 0 oncond).toList ++
  (p.chosen.map fun chosen => DecisionInfo.sched chosen p.caller p.type p.addr p.enabled).toList

def writtens (p : NumberedPoint) : List Written :=
  (p.signal.map fun (signalled, _, oncond) =>
    Written.signal signalled p.caller p.addr "python_gen".toList oncond).toList ++
  (p.chosen.map fun chosen =>
    Written.sched chosen p.caller p.type.toList p.addr p.enabled).toList

end NumberedPoint

namespace Schedule

theorem nameList_idName (threads : List ThrID) :
    nameList (threads.map idName) = some (threadList threads) := by
  rw [nameList, mapM_id_idName]
  simp only [Option.bind_eq_bind, Option.bind_some, threadList, List.flatMap_map,
    String.toList_ofList]
  rfl

theorem outputSignal_toPoint (p : NumberedPoint) (signalled : ThrID) (cond : String)
    (oncond : List ThrID) :
    outputSignal p.toPoint { signalled := idName signalled, cond, oncond := oncond.map idName } =
      some (Written.signal signalled p.caller p.addr "python_gen".toList oncond).text := by
  unfold Written.text Written.front Written.listLine outputSignal
  rw [entry_append]
  simp only [nameList_idName, NumberedPoint.toPoint, idName, addrName, Option.bind_eq_bind,
    Option.bind_some, String.toList_ofList, Option.pure_def]

theorem outputSched_toPoint (p : NumberedPoint) (chosen : ThrID) (hchosen : p.chosen = some chosen) :
    outputSched p.toPoint =
      some (Written.sched chosen p.caller p.type.toList p.addr p.enabled).text := by
  unfold Written.text Written.front Written.listLine outputSched
  rw [entry_append]
  simp only [nameList_idName, NumberedPoint.toPoint, hchosen, idName, addrName,
    Option.bind_eq_bind, Option.bind_some, String.toList_ofList, Option.pure_def]

theorem outputExactPoint_toPoint (p : NumberedPoint) :
    outputExactPoint p.toPoint = some (p.writtens.flatMap Written.text) := by
  have hsignal : p.toPoint.signal = p.signal.map fun (signalled, cond, oncond) =>
      { signalled := idName signalled, cond, oncond := oncond.map idName } := rfl
  have hnone : p.toPoint.chosen.isNone = p.chosen.isNone := by
    rw [NumberedPoint.toPoint]
    cases p.chosen with
    | none => rfl
    | some chosen => rfl
  rw [outputExactPoint, hsignal, NumberedPoint.writtens]
  cases hp : p.signal with
  | none =>
      cases hchosen : p.chosen with
      | none =>
          have htruncated := p.truncated hchosen
          rw [hp] at htruncated
          cases htruncated
      | some chosen =>
          simp [outputSched_toPoint p chosen hchosen]
  | some info =>
      obtain ⟨signalled, cond, oncond⟩ := info
      cases hchosen : p.chosen with
      | none => simp [outputSignal_toPoint, hnone, hchosen]
      | some chosen =>
          simp [outputSignal_toPoint, outputSched_toPoint p chosen hchosen, hnone, hchosen]

theorem outputAddrlist_addrlist (points : AddrPoints) (sched : List SchedulePoint) :
    outputAddrlist { schedule := sched, addrlist := points.addrlist } = points.record :=
  points.record_eq.symm

-- The scripts can write every schedule of numbered points.
theorem outputExactSchedule_toPoint (points : AddrPoints) (sched : List NumberedPoint) :
    outputExactSchedule
        { schedule := sched.map NumberedPoint.toPoint, addrlist := points.addrlist } =
      some (points.record ++
        ((sched.flatMap NumberedPoint.writtens).flatMap Written.text ++ "end_log".toList)) := by
  have hpoints : (sched.map NumberedPoint.toPoint).mapM outputExactPoint =
      some (sched.map fun p => p.writtens.flatMap Written.text) := by
    induction sched with
    | nil => rfl
    | cons p sched ih =>
        rw [List.map_cons, List.mapM_cons, ih, outputExactPoint_toPoint]
        rfl
  rw [outputExactSchedule, hpoints, outputAddrlist_addrlist]
  rw [List.flatMap_assoc]
  rfl

end Schedule

theorem agrees_script (p : NumberedPoint) (hsound : ∀ d ∈ p.decisions, d.Sound) :
    List.Forall₂ DecisionInfo.Agrees p.writtens p.decisions := by
  have hcond : strtoul "python_gen".toList = 0 := by decide
  have hword : Word "python_gen".toList := by decide
  have hlength : "python_gen".toList.length ≤ 244 := by decide
  unfold NumberedPoint.writtens NumberedPoint.decisions at *
  refine List.rel_append ?_ ?_
  · cases hsignal : p.signal with
    | none => exact List.Forall₂.nil
    | some info =>
        obtain ⟨hchosen, hcaller, hidaddr, -⟩ := hsound (.signal info.1 p.caller p.addr 0 info.2.2)
          (by simp [hsignal])
        refine List.Forall₂.cons ⟨?_, rfl, hchosen, hcaller, hidaddr, hword, hlength⟩ .nil
        rw [Written.info, hcond]
        rfl
  · cases hchosen : p.chosen with
    | none => exact List.Forall₂.nil
    | some chosen =>
        have hpoint := hsound (.sched chosen p.caller p.type p.addr p.enabled) (by simp [hchosen])
        exact List.Forall₂.cons ⟨rfl, rfl, hpoint⟩ .nil

-- The files that hold a list of decisions, of either writer.
inductive Writes : List DecisionInfo → List Char → Prop
  | log (logger : Logger) (points : AddrPoints) (hpoints : points.Sound) (final : Final) :
      Writes logger.schedule (logger.printCurrentScheduleToFile points ++ final.print)
  | script (points : AddrPoints) (hpoints : points.Sound) (sched : List NumberedPoint)
      (file : List Char)
      (hfile : Schedule.outputExactSchedule
        { schedule := sched.map NumberedPoint.toPoint, addrlist := points.addrlist } = some file) :
      Writes (sched.flatMap NumberedPoint.decisions) file

theorem Writes.entries {ds : List DecisionInfo} {file : List Char} (hwrites : Writes ds file)
    (hsound : ∀ d ∈ ds, d.Sound) :
    ∃ (points : AddrPoints) (ws : List Written) (final : List Char), points.Sound ∧ List.Forall₂ DecisionInfo.Agrees ws ds ∧
      Logger.isReadfileEnd final = none ∧
        file = points.record ++ (ws.flatMap Written.text ++ final) := by
  cases hwrites with
  | log logger points hpoints final =>
      refine ⟨points, logger.schedule.map DecisionInfo.written, final.print, hpoints, ?_,
        isReadfileEnd_final final, ?_⟩
      · rw [List.forall₂_map_left_iff, List.forall₂_same]
        exact fun d hd => DecisionInfo.agrees_written d (hsound d hd)
      · unfold Logger.printCurrentScheduleToFile
        rw [List.flatMap_map, List.append_assoc]
        simp only [DecisionInfo.text_written]
  | script points hpoints sched file hfile =>
      have hfinal : Logger.isReadfileEnd "end_log".toList = none :=
        Logger.isReadfileEnd_ending "end_log" (by decide) []
      rw [Schedule.outputExactSchedule_toPoint, Option.some.injEq] at hfile
      refine ⟨points, sched.flatMap NumberedPoint.writtens, "end_log".toList, hpoints, ?_, hfinal,
        hfile.symm⟩
      clear hfile
      induction sched with
      | nil => exact List.Forall₂.nil
      | cons p sched ih =>
          simp only [List.flatMap_cons, List.forall_mem_append] at hsound ⊢
          exact List.rel_append (agrees_script p hsound.1) (ih hsound.2)

theorem DecisionInfo.agrees_lists {ws : List Written} {ds : List DecisionInfo}
    (hagrees : List.Forall₂ DecisionInfo.Agrees ws ds) :
    (∀ w ∈ ws, w.Sound) ∧ ws.map Written.info = ds.map DecisionInfo.readInfo ∧
      ((∀ w ∈ ws, w.Fits) ↔ ∀ d ∈ ds, d.listLine.length < MAX_READ_SIZE) := by
  induction hagrees with
  | nil => simp
  | cons hagree _ ih =>
      obtain ⟨hsound, hinfo, hfits⟩ := ih
      refine ⟨List.forall_mem_cons.mpr ⟨hagree.sound, hsound⟩, ?_, ?_⟩
      · rw [List.map_cons, List.map_cons, hagree.info, hinfo]
      · rw [List.forall_mem_cons, List.forall_mem_cons, hfits, Written.Fits, hagree.listLine]

end Thrille
