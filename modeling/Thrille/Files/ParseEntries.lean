import Thrille.Files.ParseLines

namespace Thrille

open Text SchedulePoint

namespace LogPoint

-- The type that the scripts require behind a SIGNAL.
def Typed (p : LogPoint) : Prop :=
  p.signal.isSome = true → contains "Simulate_Signal" p.description.toList = true

-- The chosen and the signalled threads are in the logged lists.
def Listed (p : LogPoint) : Prop :=
  p.chosen ∈ p.enabled ∧ ∀ entry ∈ p.signal, entry.signalled ∈ entry.oncond

instance (p : LogPoint) : Decidable p.Typed := inferInstanceAs (Decidable (_ → _))

instance (p : LogPoint) : Decidable p.Listed := inferInstanceAs (Decidable (_ ∧ _))

end LogPoint

theorem decimal_injective (m n : Nat) (h : decimal m = decimal n) : m = n := by
  have hvalue := congrArg (numeral 10) h
  rwa [decimal, decimal, numeral_toDigits 10 (by decide) (by decide),
    numeral_toDigits 10 (by decide) (by decide)] at hvalue

theorem idName_injective (m n : ThrID) (h : idName m = idName n) : m = n :=
  decimal_injective m n (String.ofList_injective (Option.some.inj h))

theorem mem_parsedNames (thr : ThrID) (threads : List ThrID) :
    idName thr ∈ parsedNames threads ↔ thr ∈ threads := by
  rw [parsedNames]
  by_cases hempty : threads = []
  · have hname : ¬ idName thr = some "" := by
      intro h
      have hdigits := congrArg String.toList (Option.some.inj h)
      rw [String.toList_ofList] at hdigits
      exact decimal_ne_nil thr hdigits
    rw [if_pos hempty, hempty]
    simp [hname]
  · rw [if_neg hempty, List.mem_map]
    constructor
    · rintro ⟨other, hmem, hname⟩
      rwa [idName_injective thr other hname.symm]
    · exact fun hmem => ⟨thr, hmem, rfl⟩

namespace Schedule

theorem isSane_point (p : LogPoint) : isSane (p.point parsedNames) = decide p.Listed := by
  rw [Bool.eq_iff_iff, decide_eq_true_eq, isSane, LogPoint.Listed, Bool.and_eq_true]
  rw [LogPoint.point, List.contains_iff_mem, mem_parsedNames]
  cases p.signal with
  | none => simp
  | some entry => simp [mem_parsedNames]

theorem strip_opening (word : String) (hword : word = "SCHED" ∨ word = "SIGNAL") :
    strip (word.toList ++ ['\n']) = word.toList := by
  rcases hword with rfl | rfl
  · exact strip_value _ (by decide)
  · exact strip_value _ (by decide)

-- A turn of the loop over a point of the log.
theorem parseEntries_lines (turns : Nat) (p : LogPoint) (htype : Plain p.description.toList)
    (rest : List (List Char)) (schedule : List SchedulePoint) :
    parseEntries (turns + 1) (p.lines ++ rest) schedule =
      if p.Typed ∧ (isUnchecked rest = true ∨ p.Listed) then
        parseEntries turns rest (schedule ++ [p.point parsedNames])
      else none := by
  have hSCHED : contains "SCHED" "SCHED".toList = true := by decide +kernel
  have hSIGNAL : contains "SIGNAL" "SIGNAL".toList = true := by decide +kernel
  have hother : contains "SCHED" "SIGNAL".toList = false := by decide +kernel
  have hpoint := isSane_point p
  rw [LogPoint.lines]
  cases hsignal : p.signal with
  | none =>
      have htyped : p.Typed := by
        rw [LogPoint.Typed, hsignal]
        exact fun h => absurd h (by decide)
      have hnone : { p.point parsedNames with signal := none } = p.point parsedNames := by
        rw [LogPoint.point, hsignal]
        rfl
      have htake : (p.schedLines ++ rest).take 5 = p.schedLines := rfl
      have hdrop : (p.schedLines ++ rest).drop 5 = rest := rfl
      have hlength : 5 ≤ (p.schedLines ++ rest).length := by
        rw [List.length_append]
        exact Nat.le_add_right 5 _
      rw [List.cons_append, parseEntries, strip_opening "SCHED" (Or.inl rfl), hSCHED, htake, hdrop,
        init_schedLines p htype, hnone]
      simp only [if_true, hlength, guard_true, Option.bind_eq_bind, Option.pure_def,
        Option.bind_some, hpoint, Bool.or_eq_true, decide_eq_true_eq, htyped, true_and]
      by_cases hchecks : isUnchecked rest = true ∨ p.Listed
      · rw [if_pos hchecks]
        simp [hchecks]
      · rw [if_neg hchecks]
        simp [hchecks]
  | some entry =>
      have htyped : p.Typed ↔ contains "Simulate_Signal" p.description.toList = true := by
        rw [LogPoint.Typed, hsignal]
        simp
      have htake : (entry.lines p.caller ++ ("SCHED".toList ++ ['\n']) :: p.schedLines ++ rest).take 11
          = entry.lines p.caller ++ ("SCHED".toList ++ ['\n']) :: p.schedLines := rfl
      have hdrop : (entry.lines p.caller ++ ("SCHED".toList ++ ['\n']) :: p.schedLines ++ rest).drop 11
          = rest := rfl
      have hlength : ¬ (entry.lines p.caller ++ ("SCHED".toList ++ ['\n']) :: p.schedLines
          ++ rest).length < 11 := by
        rw [List.length_append, not_lt]
        exact Nat.le_add_right 11 _
      dsimp only
      rw [List.cons_append, parseEntries, strip_opening "SIGNAL" (Or.inr rfl), hother, hSIGNAL,
        if_neg hlength, htake, hdrop, init_signalLines p entry hsignal htype]
      simp only [Bool.false_eq_true, if_false, if_true, htyped]
      cases contains "Simulate_Signal" p.description.toList with
      | false => rfl
      | true =>
          simp only [if_true, Option.bind_eq_bind, Option.bind_some, hpoint,
            Bool.or_eq_true, decide_eq_true_eq, true_and]
          by_cases hchecks : isUnchecked rest = true ∨ p.Listed
          · rw [if_pos hchecks]
            simp [hchecks]
          · rw [if_neg hchecks]
            simp [hchecks]

-- The line behind a point that is not the last begins another entry.
theorem isUnchecked_lines (p : LogPoint) (rest : List (List Char)) :
    isUnchecked (p.lines ++ rest) = false := by
  have hsched : contains "assert" ("SCHED".toList ++ ['\n']) = false := by decide +kernel
  have hsignal : contains "assert" ("SIGNAL".toList ++ ['\n']) = false := by decide +kernel
  rw [LogPoint.lines]
  cases p.signal with
  | none => exact hsched
  | some entry => exact hsignal

-- All the points of a log, in front of its last lines.
theorem parseEntries_points (points : List LogPoint)
    (htypes : ∀ p ∈ points, Plain p.description.toList) (tail : List (List Char)) (turns : Nat)
    (schedule : List SchedulePoint) :
    parseEntries (points.length + turns) (points.flatMap LogPoint.lines ++ tail) schedule =
      if (∀ p ∈ points, p.Typed) ∧ (∀ p ∈ points.dropLast, p.Listed) ∧
          (isUnchecked tail = true ∨ ∀ p ∈ points.getLast?, p.Listed) then
        parseEntries turns tail (schedule ++ points.map (LogPoint.point parsedNames))
      else none := by
  induction points generalizing schedule with
  | nil => simp
  | cons p points ih =>
      rw [List.forall_mem_cons] at htypes
      have hturns : (p :: points).length + turns = points.length + turns + 1 := by
        rw [List.length_cons]
        omega
      rw [List.flatMap_cons, List.append_assoc, hturns, parseEntries_lines _ p htypes.1,
        ih htypes.2]
      cases points with
      | nil => simp
      | cons q points =>
          have hnext : isUnchecked ((q :: points).flatMap LogPoint.lines ++ tail) = false := by
            rw [List.flatMap_cons, List.append_assoc]
            exact isUnchecked_lines q _
          have hconditions : ((∀ r ∈ p :: q :: points, r.Typed) ∧
                (∀ r ∈ (p :: q :: points).dropLast, r.Listed) ∧
                  (isUnchecked tail = true ∨ ∀ r ∈ (p :: q :: points).getLast?, r.Listed)) ↔
              p.Typed ∧ p.Listed ∧ (∀ r ∈ q :: points, r.Typed) ∧
                (∀ r ∈ (q :: points).dropLast, r.Listed) ∧
                  (isUnchecked tail = true ∨ ∀ r ∈ (q :: points).getLast?, r.Listed) := by
            rw [List.dropLast_cons_cons, List.getLast?_cons_cons]
            simp only [List.forall_mem_cons]
            tauto
          simp only [hnext, hconditions, Bool.false_eq_true, false_or, List.map_cons,
            List.append_assoc, List.singleton_append]
          by_cases htyped : p.Typed
          · by_cases hlisted : p.Listed
            · simp [htyped, hlisted]
            · simp [hlisted]
          · simp [htyped]

end Schedule

end Thrille
