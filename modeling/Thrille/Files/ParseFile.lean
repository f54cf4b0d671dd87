import Thrille.Files.ParseFinal

namespace Thrille

open Text SchedulePoint

-- A log: a SIGNAL entry without the SCHED entry behind it is the last entry before an assertion
-- of the tool.
structure LogFile where
  points : AddrPoints
  schedule : List LogPoint
  truncated : Option (ThrID × SignalEntry)
  final : Final
  cut : truncated.isSome = true → ∃ file cond, final = .assertFail file cond

namespace LogFile

def decisions (log : LogFile) : List DecisionInfo :=
  log.schedule.flatMap LogPoint.decisions ++
    (log.truncated.map fun (caller, entry) => entry.decision caller).toList

def text (log : LogFile) : List Char :=
  Logger.printCurrentScheduleToFile { schedule := log.decisions } log.points ++ log.final.print

-- The types of the schedule points are words without a colon.
def Sound (log : LogFile) : Prop :=
  (∀ p ∈ log.schedule, Plain p.description.toList) ∧ log.final.Sound

-- What the scripts should read.
def expected (log : LogFile) : Schedule where
  schedule := log.schedule.map (LogPoint.point (List.map idName))
  addrlist := log.points.addrlist
  error := log.final.error

-- The logs that they read.
structure Parses (log : LogFile) : Prop where
  nonempty : log.schedule ≠ []
  complete : log.truncated = none
  typed : ∀ p ∈ log.schedule, p.Typed
  filled : ∀ p ∈ log.schedule, p.enabled ≠ [] ∧ ∀ entry ∈ p.signal, entry.oncond ≠ []
  listed : ∀ p ∈ log.schedule.dropLast, p.Listed
  last : log.final.isAssert = true ∨ ∀ p ∈ log.schedule.getLast?, p.Listed
  clear : log.final.Clear

end LogFile

namespace Schedule

-- The first thread, and one thread for every switch.
theorem length_getThreadOrder (self : Schedule) :
    self.getThreadOrder.length = self._getContextSwitches + 1 ↔ self.schedule ≠ [] := by
  have hswitches : self._getContextSwitches =
      (self.schedule.filter fun x => x.chosen != x.caller).length := by
    rw [_getContextSwitches, List.countP_eq_length_filter]
    simp only [bne_comm]
  rw [getThreadOrder, hswitches]
  cases hschedule : self.schedule with
  | nil => simp
  | cons point rest => simp

-- The lines of the addresses are read until the end of the list.
theorem readlines_addrs (addrs : List String) (haddrs : ∀ x ∈ addrs, '\n' ∉ x.toList)
    (rest : List Char) :
    readlines ((addrs.flatMap fun x => x.toList ++ ['\n']) ++ rest) =
      addrs.map (fun x => x.toList ++ ['\n']) ++ readlines rest := by
  induction addrs with
  | nil => rfl
  | cons x addrs ih =>
      rw [List.forall_mem_cons] at haddrs
      rw [List.flatMap_cons, List.append_assoc, List.append_assoc, List.singleton_append,
        readlines_line x.toList _ haddrs.1, ih haddrs.2]
      rfl

theorem parseAddrlist_addrs (addrs : List String)
    (haddrs : ∀ x ∈ addrs, Word x.toList ∧
      contains "end_addr_list" (x.toList ++ ['\n']) = false) (rest : List (List Char)) :
    parseAddrlist (addrs.map (fun x => x.toList ++ ['\n']) ++
      ("end_addr_list".toList ++ ['\n']) :: rest) = some (addrs, rest) := by
  induction addrs with
  | nil =>
      have hend : contains "end_addr_list" ("end_addr_list".toList ++ ['\n']) = true :=
        contains_of_prefix "end_addr_list" ['\n']
      rw [List.map_nil, List.nil_append, parseAddrlist, if_pos hend]
  | cons x addrs ih =>
      rw [List.forall_mem_cons] at haddrs
      obtain ⟨⟨hword, hend⟩, hrest⟩ := haddrs
      rw [List.map_cons, List.cons_append, parseAddrlist, hend, ih hrest, strip_value x.toList hword]
      simp only [Bool.false_eq_true, if_false, Option.bind_eq_bind, Option.bind_some,
        Option.pure_def, String.ofList_toList]

theorem mem_addrlist (points : AddrPoints) (x : String) (hx : x ∈ points.addrlist) :
    Word x.toList ∧ contains "end_addr_list" (x.toList ++ ['\n']) = false := by
  have hscore (text : List Char) (htext : '_' ∉ text) :
      contains "end_addr_list" (text ++ ['\n']) = false := by
    apply contains_eq_false "end_addr_list" _ '_' (by decide)
    simp [htext]
  rw [AddrPoints.addrlist] at hx
  split at hx
  · rw [List.mem_singleton.mp hx]
    exact ⟨by decide, hscore _ (by decide)⟩
  · obtain ⟨addr, -, rfl⟩ := List.mem_map.mp hx
    rw [addrName, String.toList_ofList]
    exact ⟨word_pointer addr, hscore _ (not_mem_pointer '_' (by decide) (by decide) addr)⟩

end Schedule

namespace LogFile

-- The lines behind the points.
def tail (log : LogFile) : List (List Char) :=
  (match log.truncated with
    | none => []
    | some (caller, entry) => ("SIGNAL".toList ++ ['\n']) :: entry.lines caller) ++
  [log.final.print]

theorem readlines_schedule (points : List LogPoint)
    (htypes : ∀ p ∈ points, Plain p.description.toList) (rest : List Char) :
    readlines ((points.flatMap LogPoint.decisions).flatMap DecisionInfo.printToFile ++ rest) =
      points.flatMap LogPoint.lines ++ readlines rest := by
  induction points with
  | nil => rfl
  | cons p points ih =>
      rw [List.forall_mem_cons] at htypes
      rw [List.flatMap_cons, List.flatMap_append, List.append_assoc,
        LogPoint.readlines_decisions p htypes.1, ih htypes.2, List.flatMap_cons, List.append_assoc]

theorem readlines_tail (log : LogFile) (hfinal : log.final.Sound) :
    readlines ((log.truncated.map fun (caller, entry) => SignalEntry.decision caller entry).toList.flatMap
      DecisionInfo.printToFile ++ log.final.print) = log.tail := by
  have hlast : readlines log.final.print = [log.final.print] := by
    rw [Final.print_eq]
    exact readlines_line log.final.line [] (Final.newline_line log.final hfinal)
  rw [tail]
  cases log.truncated with
  | none => exact hlast
  | some open_entry =>
      obtain ⟨caller, entry⟩ := open_entry
      simp only [Option.map_some, Option.toList_some, List.flatMap_singleton]
      rw [LogPoint.readlines_signal caller entry, hlast]

theorem readlines_text (log : LogFile) (hsound : log.Sound) :
    readlines log.text = ("begin_addr_list".toList ++ ['\n']) ::
      (log.points.addrlist.map (fun x => x.toList ++ ['\n']) ++
        ("end_addr_list".toList ++ ['\n']) :: (log.schedule.flatMap LogPoint.lines ++ log.tail)) := by
  have haddrs : ∀ x ∈ log.points.addrlist, '\n' ∉ x.toList :=
    fun x hx => (Schedule.mem_addrlist log.points x hx).1.newline
  unfold text Logger.printCurrentScheduleToFile decisions
  rw [AddrPoints.record_eq, List.append_assoc, List.append_assoc, List.cons_append,
    readlines_opening "begin_addr_list" (by decide), List.append_assoc,
    Schedule.readlines_addrs _ haddrs, List.append_assoc, List.singleton_append,
    readlines_opening "end_addr_list" (by decide), List.flatMap_append, List.append_assoc,
    readlines_schedule log.schedule hsound.1, readlines_tail log hsound.2]

-- The turns of the loop are enough for the points and the line behind them.
theorem turns_eq (log : LogFile) :
    ∃ turns, (log.schedule.flatMap LogPoint.lines ++ log.tail).length + 1 =
      log.schedule.length + (turns + 1) := by
  have hlines : log.schedule.length ≤ (log.schedule.flatMap LogPoint.lines).length := by
    induction log.schedule with
    | nil => exact Nat.le_refl 0
    | cons p points ih =>
        have hpos : 0 < p.lines.length := by
          rw [LogPoint.lines]
          split <;> exact Nat.succ_pos _
        rw [List.flatMap_cons, List.length_append, List.length_cons]
        omega
  refine ⟨(log.schedule.flatMap LogPoint.lines ++ log.tail).length - log.schedule.length, ?_⟩
  rw [List.length_append]
  omega

-- What the parser makes of a log.
theorem parseFile_text (log : LogFile) (hsound : log.Sound) :
    ∃ turns, Schedule.parseFile log.text =
      if (∀ p ∈ log.schedule, p.Typed) ∧ (∀ p ∈ log.schedule.dropLast, p.Listed) ∧
          (Schedule.isUnchecked log.tail = true ∨ ∀ p ∈ log.schedule.getLast?, p.Listed) then
        (Schedule.parseEntries (turns + 1) log.tail
          (log.schedule.map (LogPoint.point parsedNames))).bind fun (schedule, error) =>
            if schedule = [] then none
            else some { schedule, addrlist := log.points.addrlist, error }
      else none := by
  obtain ⟨turns, hturns⟩ := turns_eq log
  have hbegin : contains "begin_addr_list" ("begin_addr_list".toList ++ ['\n']) = true :=
    contains_of_prefix "begin_addr_list" ['\n']
  refine ⟨turns, ?_⟩
  rw [Schedule.parseFile, readlines_text log hsound]
  simp only [hbegin, guard_true, Option.bind_eq_bind, Option.pure_def, Option.bind_some]
  rw [Schedule.parseAddrlist_addrs log.points.addrlist (Schedule.mem_addrlist log.points)]
  simp only [Option.bind_some]
  rw [hturns, Schedule.parseEntries_points log.schedule hsound.1 log.tail, List.nil_append]
  split
  · apply congrArg
    funext result
    obtain ⟨schedule, error⟩ := result
    have horder := Schedule.length_getThreadOrder
      { schedule, addrlist := log.points.addrlist, error }
    rw [Schedule.getContextSwitches_eq, Option.bind_some]
    simp only [horder]
    by_cases hempty : schedule = []
    · simp [hempty]
    · simp [hempty]
  · rfl

theorem isUnchecked_tail (log : LogFile) (hcomplete : log.truncated = none) :
    Schedule.isUnchecked log.tail = log.final.isAssert := by
  have hline (line : List Char) : Schedule.isUnchecked [line] = contains "assert" line := rfl
  rw [tail, hcomplete, List.nil_append, hline]
  exact Schedule.contains_assert log.final

-- An entry read back is the entry written, where its lists are not empty.
theorem point_parsedNames_iff (points : List LogPoint) :
    points.map (LogPoint.point parsedNames) = points.map (LogPoint.point (List.map idName)) ↔
      ∀ p ∈ points, p.enabled ≠ [] ∧ ∀ entry ∈ p.signal, entry.oncond ≠ [] := by
  have hnames (threads : List ThrID) : parsedNames threads = threads.map idName ↔ threads ≠ [] := by
    rw [parsedNames]
    split
    · rename_i hempty
      simp [hempty]
    · rename_i hne
      simp [hne]
  have hpoint (p : LogPoint) : p.point parsedNames = p.point (List.map idName) ↔
      p.enabled ≠ [] ∧ ∀ entry ∈ p.signal, entry.oncond ≠ [] := by
    obtain ⟨signal, chosen, caller, description, idaddr, enabled⟩ := p
    cases signal with
    | none => simp [LogPoint.point, hnames]
    | some entry => simp [LogPoint.point, hnames]
  induction points with
  | nil => simp
  | cons p points ih =>
      simp only [List.map_cons, List.cons.injEq, hpoint, ih, List.forall_mem_cons]

-- The parser reads a log exactly when it parses.
theorem parseFile_iff (log : LogFile) (hsound : log.Sound) :
    Schedule.parseFile log.text = some log.expected ↔ log.Parses := by
  obtain ⟨turns, hparse⟩ := log.parseFile_text hsound
  rw [hparse]
  cases htruncated : log.truncated with
  | none =>
      have htail : log.tail = [log.final.print] := by
        rw [tail, htruncated]
        rfl
      rw [log.isUnchecked_tail htruncated, htail]
      by_cases hclear : log.final.Clear
      · rw [Schedule.parseEntries_final log.final hclear, Option.bind_some]
        dsimp only
        constructor
        · intro h
          split at h
          · rename_i hconditions
            split at h
            · cases h
            · rename_i hnonempty
              have hpoints := congrArg Schedule.schedule (Option.some.inj h)
              exact ⟨fun hempty => hnonempty (by rw [hempty]; rfl), htruncated, hconditions.1,
                (point_parsedNames_iff log.schedule).mp hpoints, hconditions.2.1,
                hconditions.2.2, hclear⟩
          · cases h
        · intro h
          have hpoints := (point_parsedNames_iff log.schedule).mpr h.filled
          rw [if_pos ⟨h.typed, h.listed, h.last⟩, hpoints, if_neg (by simpa using h.nonempty)]
          rfl
      · constructor
        · intro h
          split at h
          · obtain ⟨⟨schedule, error⟩, hentries, hresult⟩ := Option.bind_eq_some_iff.mp h
            dsimp only at hresult
            split at hresult
            · cases hresult
            · have herror : error = log.final.error :=
                congrArg Schedule.error (Option.some.inj hresult)
              rw [herror] at hentries
              exact absurd hentries
                (Schedule.parseEntries_unclear log.final hclear turns _ schedule)
          · cases h
        · exact fun h => absurd h.clear hclear
  | some open_entry =>
      constructor
      · intro h
        split at h
        · obtain ⟨file, cond, hfinal⟩ := log.cut (by rw [htruncated]; rfl)
          obtain ⟨caller, entry⟩ := open_entry
          have htail : log.tail = ("SIGNAL".toList ++ ['\n']) :: entry.lines caller ++
              [(Final.assertFail file cond).print] := by
            rw [tail, htruncated, hfinal]
          rw [htail, Schedule.parseEntries_truncated, Option.bind_some] at h
          dsimp only at h
          split at h
          · cases h
          · have herror := congrArg Schedule.error (Option.some.inj h)
            rw [expected, hfinal] at herror
            exact absurd (Option.some.inj herror) (Schedule.assertFail_ne_internal file cond)
        · cases h
      · intro h
        have hcomplete := h.complete
        rw [htruncated] at hcomplete
        cases hcomplete

-- A signal and a schedule point of two threads, and a crash.
def twoThreads : LogFile where
  points := { addressToSchedule := [4198412] }
  schedule := [{ signal := some { signalled := 1, idaddr := 4198400, cond := 6295744, oncond := [1] }
                 chosen := 0, caller := 0, description := "Simulate_Signal", idaddr := 4198400
                 enabled := [0, 1] }]
  truncated := none
  final := .segfault 1
  cut := fun h => absurd h (by decide)

theorem parseFile_two_threads : Schedule.parseFile twoThreads.text = some twoThreads.expected := by
  have hsound : twoThreads.Sound := by
    refine ⟨?_, trivial⟩
    unfold Plain
    decide
  refine (parseFile_iff twoThreads hsound).mpr ⟨by simp [twoThreads], rfl, ?_, ?_, ?_, ?_, trivial⟩
  · decide +kernel
  · decide +kernel
  · decide
  · decide

-- No decision at all, and a SIGNAL entry that is the last before an assertion of the tool.
def noDecision : LogFile where
  points := {}
  schedule := []
  truncated := none
  final := .endLog
  cut := fun h => absurd h (by decide)

def lastSignal : LogFile where
  points := {}
  schedule := [{ signal := none, chosen := 0, caller := 0, description := "After_Create"
                 idaddr := 4198400, enabled := [0, 1] }]
  truncated := some (0, { signalled := 1, idaddr := 4198404, cond := 6295744, oncond := [1] })
  final := .assertFail "src/serializer/executiontracker.cpp".toList "isEnabled(target)".toList
  cut := fun _ => ⟨_, _, rfl⟩

theorem parseFile_no_decision_and_last_signal :
    noDecision.Sound ∧ Schedule.parseFile noDecision.text = none ∧ lastSignal.Sound ∧
      lastSignal.expected.error = some "THRILLE INTERNAL ERROR" ∧
        (Schedule.parseFile lastSignal.text).map Schedule.error =
          some (some "thrille assert fail executiontracker.cpp isEnabled(target)") := by
  refine ⟨⟨by simp [noDecision], trivial⟩, by decide +kernel, ⟨?_, by decide, by decide⟩, rfl,
    by decide +kernel⟩
  unfold Plain
  decide

end LogFile

end Thrille
