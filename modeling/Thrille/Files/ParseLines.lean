import Thrille.Files.Lines
import Thrille.Files.Parse

namespace Thrille

open Text

theorem splitOn_field (name : String) (hname : FieldName name) (value : List Char)
    (hvalue : ':' ∉ value) : (field name value).splitOn ':' = [name.toList, value ++ ['\n']] := by
  have hlast : ':' ∉ value ++ ['\n'] := by simp [hvalue]
  rw [field, List.splitOn_append_cons_self_of_not_mem hname.1, List.splitOn_eq_singleton hlast]

theorem strip_value (value : List Char) (hvalue : Word value) :
    strip (value ++ ['\n']) = value := by
  exact stripBy_word isSpace [] value ['\n'] (by simp) isSpace_newline hvalue

namespace SchedulePoint

theorem splitColon_field (name : String) (hname : FieldName name) (value : List Char)
    (hvalue : Plain value) :
    splitColonSeparatedInput (field name value) = some (String.ofList value) := by
  rw [splitColonSeparatedInput, splitOn_field name hname value hvalue.2]
  simp only [strip_value value hvalue.1]

-- The empty list of threads is read as a list with the empty name.
def parsedNames (threads : List ThrID) : List Name :=
  if threads = [] then [some ""] else threads.map idName

-- A list of threads without its last comma.
theorem intercalate_decimal (front : List ThrID) (thr : ThrID) :
    [','].intercalate ((front ++ [thr]).map decimal) = threadList front ++ decimal thr := by
  induction front with
  | nil => simp [threadList]
  | cons other front ih =>
      rw [List.cons_append, List.map_cons, List.intercalate_cons_of_ne_nil (by simp), ih,
        threadList, threadList, List.flatMap_cons]
      simp only [List.append_assoc]

theorem head_threadList (front : List ThrID) (thr : ThrID) :
    ∀ c ∈ (threadList front ++ decimal thr).head?, isDigit 10 c = true := by
  obtain ⟨first, text, htext⟩ : ∃ first text, threadList front ++ decimal thr = decimal first ++ text := by
    cases front with
    | nil => exact ⟨thr, [], by simp [threadList]⟩
    | cons first front =>
        refine ⟨first, ',' :: (threadList front ++ decimal thr), ?_⟩
        simp [threadList]
  obtain ⟨c, digits, hdigits⟩ := toDigits_eq_cons 10 first
  have hc := isDigit_decimal first c (by rw [decimal, hdigits]; exact List.mem_cons_self)
  rw [htext, decimal, hdigits]
  simpa using hc

theorem comma_not_mem_decimal (n : Nat) : ',' ∉ decimal n := by
  intro h
  have hdigit := isDigit_decimal n ',' h
  have hcomma : isDigit 10 ',' = false := by decide
  rw [hcomma] at hdigit
  cases hdigit

theorem splitComma_field (name : String) (hname : FieldName name) (threads : List ThrID) :
    splitCommaSeparatedInput (field name (threadList threads)) = some (parsedNames threads) := by
  obtain ⟨hword, hcolon⟩ := plain_threadList threads
  rw [splitCommaSeparatedInput, splitOn_field name hname _ hcolon]
  simp only [strip_value _ hword, Option.some.injEq]
  by_cases hempty : threads = []
  · rw [hempty]
    rfl
  · obtain ⟨front, thr, rfl⟩ := (List.eq_nil_or_concat' threads).resolve_left hempty
    have hparts : ∀ part ∈ (front ++ [thr]).map decimal, ',' ∉ part := by
      intro part hpart
      obtain ⟨thr, -, rfl⟩ := List.mem_map.mp hpart
      exact comma_not_mem_decimal thr
    have hcomma (c : Char) (hc : isDigit 10 c = true) : (c == ',') = false := by
      rw [beq_eq_false_iff_ne]
      rintro rfl
      exact absurd hc (by decide)
    have hstrip : stripBy (· == ',') (threadList (front ++ [thr])) =
        [','].intercalate ((front ++ [thr]).map decimal) := by
      have hlist : threadList (front ++ [thr]) = (threadList front ++ decimal thr) ++ [','] := by
        simp [threadList]
      rw [hlist, intercalate_decimal]
      apply stripBy_ends
      · simp [decimal_ne_nil]
      · exact fun c hc => hcomma c (head_threadList front thr c hc)
      · intro c hc
        rw [List.getLast?_append_of_ne_nil _ (decimal_ne_nil thr)] at hc
        exact hcomma c (isDigit_decimal thr c (List.mem_of_getLast? hc))
      · simp
    rw [hstrip, List.splitOn_intercalate ',' hparts (by simp), parsedNames, if_neg hempty,
      List.map_map]
    rfl

end SchedulePoint

-- A SIGNAL entry.
structure SignalEntry where
  signalled : ThrID
  idaddr : Addr
  cond : Addr
  oncond : List ThrID

namespace SignalEntry

def decision (caller : ThrID) (entry : SignalEntry) : DecisionInfo :=
  .signal entry.signalled caller entry.idaddr entry.cond entry.oncond

def lines (caller : ThrID) (entry : SignalEntry) : List (List Char) :=
  [field "signalled" (decimal entry.signalled), field "caller" (decimal caller),
    field "idaddr" (pointer entry.idaddr), field "cond" (pointer entry.cond),
    field "oncond" (threadList entry.oncond)]

end SignalEntry

-- A SCHED entry, behind a SIGNAL entry of the same caller or on its own.
structure LogPoint where
  signal : Option SignalEntry
  chosen : ThrID
  caller : ThrID
  description : String
  idaddr : Addr
  enabled : List ThrID

namespace LogPoint

def decisions (p : LogPoint) : List DecisionInfo :=
  (p.signal.map (SignalEntry.decision p.caller)).toList ++
    [.sched p.chosen p.caller p.description p.idaddr p.enabled]

-- The point that the scripts should get, its lists read by `names`.
def point (names : List ThrID → List Name) (p : LogPoint) : SchedulePoint where
  chosen := idName p.chosen
  caller := idName p.caller
  type := p.description
  addr := addrName p.idaddr
  enabled := names p.enabled
  signal := p.signal.map fun entry =>
    { signalled := idName entry.signalled
      cond := addrName entry.cond
      oncond := names entry.oncond }

def schedLines (p : LogPoint) : List (List Char) :=
  [field "chosen" (decimal p.chosen), field "caller" (decimal p.caller),
    field "typstr" p.description.toList, field "idaddr" (pointer p.idaddr),
    field "enable" (threadList p.enabled)]

-- The lines of the point in the log.
def lines (p : LogPoint) : List (List Char) :=
  match p.signal with
  | none => ("SCHED".toList ++ ['\n']) :: p.schedLines
  | some entry => ("SIGNAL".toList ++ ['\n']) ::
      (entry.lines p.caller ++ ("SCHED".toList ++ ['\n']) :: p.schedLines)

end LogPoint

namespace SchedulePoint

theorem contains_field (name : String) (value : List Char) : contains name (field name value) = true :=
  contains_of_prefix name _

theorem initSched_lines (p : LogPoint) (htype : Plain p.description.toList) :
    initSched p.schedLines = some { p.point parsedNames with signal := none } := by
  rw [LogPoint.schedLines, initSched]
  simp only [contains_field, guard_true, Option.bind_eq_bind, Option.pure_def, Option.bind_some]
  rw [splitColon_field "chosen" (by decide) _ (plain_decimal p.chosen),
    splitColon_field "caller" (by decide) _ (plain_decimal p.caller),
    splitColon_field "typstr" (by decide) _ htype,
    splitColon_field "idaddr" (by decide) _ (plain_pointer p.idaddr),
    splitComma_field "enable" (by decide)]
  simp only [Option.bind_some, String.ofList_toList]
  rfl

-- Neither the name of the field nor a numeral has the word.
theorem signalled_not_in_chosen (n : Nat) :
    contains "signalled" (field "chosen" (decimal n)) = false := by
  have hchosen : contains "signalled" "chosen".toList = false := by decide +kernel
  have hvalue : contains "signalled" (decimal n ++ ['\n']) = false := by
    apply contains_eq_false "signalled" _ 's' (by decide)
    intro h
    rcases List.mem_append.mp h with h | h
    · exact absurd (isDigit_decimal n 's' h) (by decide)
    · exact absurd h (by decide)
  rw [field, contains_append_cons "signalled" _ _ ':' (by decide), hchosen, hvalue]
  rfl

theorem init_schedLines (p : LogPoint) (htype : Plain p.description.toList) :
    init p.schedLines = some { p.point parsedNames with signal := none } := by
  rw [← initSched_lines p htype, LogPoint.schedLines, init]
  simp only [signalled_not_in_chosen, Bool.false_eq_true, if_false]

theorem init_signalLines (p : LogPoint) (entry : SignalEntry) (hsignal : p.signal = some entry)
    (htype : Plain p.description.toList) :
    init (entry.lines p.caller ++ ("SCHED".toList ++ ['\n']) :: p.schedLines) =
      if contains "Simulate_Signal" p.description.toList then some (p.point parsedNames)
      else none := by
  have hSCHED : contains "SCHED" ("SCHED".toList ++ ['\n']) = true :=
    contains_of_prefix "SCHED" ['\n']
  have htypstr : contains "Simulate_Signal" (field "typstr" p.description.toList) =
      contains "Simulate_Signal" p.description.toList := by
    have hname : contains "Simulate_Signal" "typstr".toList = false := by decide +kernel
    have hend : contains "Simulate_Signal" [] = false := by decide +kernel
    rw [field, contains_append_cons "Simulate_Signal" _ _ ':' (by decide), hname,
      contains_append_cons "Simulate_Signal" _ _ '\n' (by decide), hend, Bool.false_or,
      Bool.or_false]
  have hsched := initSched_lines p htype
  have hline : p.schedLines[2]? = some (field "typstr" p.description.toList) := rfl
  rw [SignalEntry.lines]
  simp only [List.cons_append, List.nil_append]
  rw [init, if_pos (contains_field _ _), initSignal]
  simp only [contains_field, hSCHED, hline, htypstr, guard_true, Option.bind_eq_bind,
    Option.pure_def, Option.bind_some, hsched]
  rw [splitColon_field "signalled" (by decide) _ (plain_decimal entry.signalled),
    splitColon_field "caller" (by decide) _ (plain_decimal p.caller),
    splitColon_field "cond" (by decide) _ (plain_pointer entry.cond),
    splitComma_field "oncond" (by decide)]
  cases contains "Simulate_Signal" p.description.toList with
  | false => rfl
  | true =>
      simp [LogPoint.point, hsignal, idName, addrName]

end SchedulePoint

theorem readlines_field (name : String) (hname : FieldName name) (value rest : List Char)
    (hvalue : '\n' ∉ value) :
    readlines (field name value ++ rest) = field name value :: readlines rest := by
  rw [field_append, readlines_line _ rest (newline_field name hname value hvalue)]
  simp [field]

theorem readlines_opening (word : String) (hword : '\n' ∉ word.toList) (rest : List Char) :
    readlines (word.toList ++ '\n' :: rest) = (word.toList ++ ['\n']) :: readlines rest :=
  readlines_line word.toList rest hword

namespace LogPoint

theorem readlines_sched (p : LogPoint) (htype : Plain p.description.toList) (rest : List Char) :
    readlines ((DecisionInfo.sched p.chosen p.caller p.description p.idaddr p.enabled).printToFile
        ++ rest) = (("SCHED".toList ++ ['\n']) :: p.schedLines) ++ readlines rest := by
  unfold DecisionInfo.printToFile
  dsimp only
  rw [entry_append, readlines_opening "SCHED" (by decide),
    readlines_field "chosen" (by decide) _ _ (word_decimal p.chosen).newline,
    readlines_field "caller" (by decide) _ _ (word_decimal p.caller).newline,
    readlines_field "typstr" (by decide) _ _ htype.1.newline, List.append_assoc,
    readlines_field "idaddr" (by decide) _ _ (word_pointer p.idaddr).newline,
    readlines_field "enable" (by decide) _ _ (word_threadList p.enabled).newline]
  rfl

theorem readlines_signal (caller : ThrID) (entry : SignalEntry) (rest : List Char) :
    readlines ((entry.decision caller).printToFile ++ rest) =
      (("SIGNAL".toList ++ ['\n']) :: entry.lines caller) ++ readlines rest := by
  unfold SignalEntry.decision DecisionInfo.printToFile
  dsimp only
  rw [entry_append, readlines_opening "SIGNAL" (by decide),
    readlines_field "signalled" (by decide) _ _ (word_decimal entry.signalled).newline,
    readlines_field "caller" (by decide) _ _ (word_decimal caller).newline,
    readlines_field "idaddr" (by decide) _ _ (word_pointer entry.idaddr).newline,
    List.append_assoc,
    readlines_field "cond" (by decide) _ _ (word_pointer entry.cond).newline,
    readlines_field "oncond" (by decide) _ _ (word_threadList entry.oncond).newline]
  rfl

theorem readlines_decisions (p : LogPoint) (htype : Plain p.description.toList)
    (rest : List Char) :
    readlines (p.decisions.flatMap DecisionInfo.printToFile ++ rest) =
      p.lines ++ readlines rest := by
  rw [decisions, lines]
  cases p.signal with
  | none =>
      simp only [Option.map_none, Option.toList_none, List.nil_append, List.flatMap_singleton]
      exact readlines_sched p htype rest
  | some entry =>
      simp only [Option.map_some, Option.toList_some, List.singleton_append, List.flatMap_cons,
        List.flatMap_nil, List.append_nil, List.append_assoc]
      rw [readlines_signal p.caller entry, readlines_sched p htype]
      simp only [List.cons_append, List.append_assoc]

end LogPoint

end Thrille
