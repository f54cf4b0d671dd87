import Thrille.Files.ParseEntries

namespace Thrille

open Text SchedulePoint

namespace Final

-- The last line of a log without its end.
def line : Final → List Char
  | endLog => "end_log".toList
  | assertFail file cond =>
      "thrille assert fail ".toList ++ ((file.reverse.takeWhile (· != '/')).reverse ++ ' ' :: cond)
  | programAssertFail myself ret_addr =>
      "program assert fail [".toList ++ (decimal myself ++ ']' :: ' ' :: pointer ret_addr)
  | programDeadlock => "program deadlock".toList
  | segfault myself => "segfault thread ".toList ++ decimal myself

-- What the scripts should make of it.
def error (final : Final) : Option String :=
  match final with
  | endLog => none
  | assertFail _ _ => some "THRILLE INTERNAL ERROR"
  | _ => some (String.ofList final.line)

def isAssert : Final → Bool
  | assertFail _ _ => true
  | programAssertFail _ _ => true
  | _ => false

-- The text of an assertion of the tool stands in one line.
def Sound : Final → Prop
  | assertFail file cond => '\n' ∉ file ∧ '\n' ∉ cond
  | _ => True

-- The text of an assertion of the tool has none of the words that are looked for before it.
def Clear (final : Final) : Prop :=
  match final with
  | assertFail _ _ => ∀ word ∈ ["SCHED", "SIGNAL", "segfault", "deadlock"],
      contains word (strip final.print) = false
  | _ => True

theorem print_eq (final : Final) : final.print = final.line ++ ['\n'] := by
  cases final with
  | endLog => rfl
  | assertFail file cond =>
      unfold print line
      dsimp only
      rw [List.append_assoc, List.append_assoc, List.cons_append]
  | programAssertFail myself ret_addr =>
      unfold print line
      dsimp only
      rw [List.append_assoc, List.append_assoc, List.cons_append, List.cons_append]
  | programDeadlock => rfl
  | segfault myself =>
      unfold print line
      dsimp only
      rw [List.append_assoc]

theorem newline_line (final : Final) (hsound : final.Sound) : '\n' ∉ final.line := by
  cases final with
  | endLog => decide
  | assertFail file cond =>
      have hfile : '\n' ∉ (file.reverse.takeWhile (· != '/')).reverse := by
        intro h
        exact hsound.1 (List.mem_reverse.mp ((List.takeWhile_sublist _).mem (List.mem_reverse.mp h)))
      have hfront : '\n' ∉ "thrille assert fail ".toList := by decide
      unfold line
      dsimp only
      simp only [List.mem_append, List.mem_cons, not_or]
      exact ⟨hfront, hfile, by decide, hsound.2⟩
  | programAssertFail myself ret_addr =>
      have hfront : '\n' ∉ "program assert fail [".toList := by decide
      unfold line
      dsimp only
      simp only [List.mem_append, List.mem_cons, not_or]
      exact ⟨hfront, (word_decimal myself).newline, by decide, by decide,
        (word_pointer ret_addr).newline⟩
  | programDeadlock => decide
  | segfault myself =>
      have hfront : '\n' ∉ "segfault thread ".toList := by decide
      unfold line
      dsimp only
      rw [List.mem_append, not_or]
      exact ⟨hfront, (word_decimal myself).newline⟩

theorem strip_segfault (myself : ThrID) : strip (segfault myself).print = (segfault myself).line := by
  rw [print_eq]
  unfold line
  dsimp only
  apply stripBy_ends isSpace _ _ (by simp) _ _ isSpace_newline
  · intro c hc
    rw [List.head?_append] at hc
    have hall := forall_mem_option isSpace "segfault thread ".toList.head? (by decide)
    exact hall c (by simpa using hc)
  · intro c hc
    rw [List.getLast?_append_of_ne_nil _ (decimal_ne_nil myself)] at hc
    exact word_decimal myself c (List.mem_of_getLast? hc)

theorem strip_programAssertFail (myself : ThrID) (ret_addr : Addr) :
    strip (programAssertFail myself ret_addr).print = (programAssertFail myself ret_addr).line := by
  have hpointer : pointer ret_addr ≠ [] := by
    rw [pointer]
    split
    · decide
    · simp
  rw [print_eq]
  unfold line
  dsimp only
  apply stripBy_ends isSpace _ _ (by simp) _ _ isSpace_newline
  · intro c hc
    rw [List.head?_append] at hc
    have hall := forall_mem_option isSpace "program assert fail [".toList.head? (by decide)
    exact hall c (by simpa using hc)
  · intro c hc
    have hend : "program assert fail [".toList ++ (decimal myself ++ ']' :: ' ' :: pointer ret_addr)
        = ("program assert fail [".toList ++ (decimal myself ++ [']', ' '])) ++ pointer ret_addr := by
      rw [List.append_assoc, List.append_assoc]
      rfl
    rw [hend, List.getLast?_append_of_ne_nil _ hpointer] at hc
    exact word_pointer ret_addr c (List.mem_of_getLast? hc)

end Final

namespace Schedule

-- The words that the loop looks for in the last line of a crash.
theorem contains_segfault (myself : ThrID) :
    contains "SCHED" (Final.segfault myself).line = false ∧
      contains "SIGNAL" (Final.segfault myself).line = false ∧
        contains "segfault" (Final.segfault myself).line = true := by
  have hS : 'S' ∉ "segfault thread ".toList ++ decimal myself := by
    rw [List.mem_append, not_or]
    exact ⟨by decide, not_mem_decimal 'S' (by decide) myself⟩
  have hfront : "segfault thread ".toList = "segfault".toList ++ " thread ".toList := rfl
  refine ⟨contains_eq_false "SCHED" _ 'S' (by decide) hS,
    contains_eq_false "SIGNAL" _ 'S' (by decide) hS, ?_⟩
  unfold Final.line
  dsimp only
  rw [hfront, List.append_assoc]
  exact contains_of_prefix "segfault" _

theorem contains_programAssertFail (myself : ThrID) (ret_addr : Addr) :
    (∀ word ∈ ["SCHED", "SIGNAL", "segfault", "deadlock", "thrille assert"],
      contains word (Final.programAssertFail myself ret_addr).line = false) ∧
        contains "program assert" (Final.programAssertFail myself ret_addr).line = true := by
  have hletter (c : Char) (hfront : c ∉ "program assert fail [".toList) (hback : c ≠ ']' ∧ c ≠ ' ')
      (hten : isDigit 10 c = false) (hhex : isDigit 16 c = false) (hother : c ∉ "(nil)0x".toList) :
      c ∉ (Final.programAssertFail myself ret_addr).line := by
    unfold Final.line
    dsimp only
    simp only [List.mem_append, List.mem_cons, not_or]
    exact ⟨hfront, not_mem_decimal c hten myself, hback.1, hback.2,
      not_mem_pointer c hhex hother ret_addr⟩
  have hfront : "program assert fail [".toList = "program assert".toList ++ " fail [".toList := rfl
  refine ⟨?_, ?_⟩
  · have hall : ∀ choice ∈ [("SCHED", 'S'), ("SIGNAL", 'S'), ("segfault", 'u'), ("deadlock", 'k'),
          ("thrille assert", 'h')],
        choice.2 ∈ choice.1.toList ∧ choice.2 ∉ "program assert fail [".toList ∧
          (choice.2 ≠ ']' ∧ choice.2 ≠ ' ') ∧ isDigit 10 choice.2 = false ∧
            isDigit 16 choice.2 = false ∧ choice.2 ∉ "(nil)0x".toList := by decide
    have hnot (word : String) (c : Char) (hmem : (word, c) ∈ [("SCHED", 'S'), ("SIGNAL", 'S'),
          ("segfault", 'u'), ("deadlock", 'k'), ("thrille assert", 'h')]) :
        contains word (Final.programAssertFail myself ret_addr).line = false := by
      obtain ⟨hc, hfront, hback, hten, hhex, hother⟩ := hall (word, c) hmem
      exact contains_eq_false word _ c hc (hletter c hfront hback hten hhex hother)
    simp only [List.forall_mem_cons, List.not_mem_nil, false_implies, implies_true, and_true]
    exact ⟨hnot "SCHED" 'S' (by decide), hnot "SIGNAL" 'S' (by decide),
      hnot "segfault" 'u' (by decide), hnot "deadlock" 'k' (by decide),
      hnot "thrille assert" 'h' (by decide)⟩
  · unfold Final.line
    dsimp only
    rw [hfront, List.append_assoc]
    exact contains_of_prefix "program assert" _

theorem contains_assertFail (file cond : List Char) :
    contains "thrille assert" (strip (Final.assertFail file cond).print) = true := by
  have hfront : "thrille assert fail ".toList = "thrille assert".toList ++ " fail ".toList := rfl
  obtain ⟨rest, hrest⟩ := stripBy_front isSpace "thrille assert".toList
    (" fail ".toList ++ ((file.reverse.takeWhile (· != '/')).reverse ++ ' ' :: (cond ++ ['\n'])))
    (by decide) (forall_mem_option isSpace _ (by decide)) (forall_mem_option isSpace _ (by decide))
  unfold Final.print strip
  dsimp only
  rw [hfront, List.append_assoc, hrest]
  exact contains_of_prefix "thrille assert" rest

-- The last turn of the loop.
theorem parseEntries_final (final : Final) (hclear : final.Clear) (turns : Nat)
    (schedule : List SchedulePoint) :
    parseEntries (turns + 1) [final.print] schedule = some (schedule, final.error) := by
  rw [parseEntries]
  cases final with
  | endLog =>
      have hstrip : strip Final.endLog.print = "end_log".toList := by decide
      have hwords : ∀ word ∈ ["SCHED", "SIGNAL", "segfault", "deadlock", "thrille assert",
          "program assert"], contains word "end_log".toList = false := by decide +kernel
      have hend : contains "end_log" "end_log".toList = true := by decide +kernel
      simp only [List.forall_mem_cons] at hwords
      rw [hstrip]
      simp only [hwords, hend, Bool.false_eq_true, if_false]
      rfl
  | assertFail file cond =>
      have hthrille := contains_assertFail file cond
      have hwords : ∀ word ∈ ["SCHED", "SIGNAL", "segfault", "deadlock"],
        contains word (strip (Final.assertFail file cond).print) = false := hclear
      simp only [List.forall_mem_cons] at hwords
      simp only [hwords, hthrille, Bool.false_eq_true, if_false, if_true]
      rfl
  | programAssertFail myself ret_addr =>
      obtain ⟨hwords, hprogram⟩ := contains_programAssertFail myself ret_addr
      simp only [List.forall_mem_cons] at hwords
      rw [Final.strip_programAssertFail]
      simp only [hwords, hprogram, Bool.false_eq_true, if_false, if_true]
      rfl
  | programDeadlock =>
      have hstrip : strip Final.programDeadlock.print = "program deadlock".toList := by decide
      have hwords : ∀ word ∈ ["SCHED", "SIGNAL", "segfault"],
          contains word "program deadlock".toList = false := by decide +kernel
      have hdeadlock : contains "deadlock" "program deadlock".toList = true := by decide +kernel
      simp only [List.forall_mem_cons] at hwords
      rw [hstrip]
      simp only [hwords, hdeadlock, Bool.false_eq_true, if_false, if_true]
      rfl
  | segfault myself =>
      obtain ⟨hSCHED, hSIGNAL, hsegfault⟩ := contains_segfault myself
      rw [Final.strip_segfault]
      simp only [hSCHED, hSIGNAL, hsegfault, Bool.false_eq_true, if_false, if_true]
      rfl

-- What stands first in the line of an assertion stays first.
theorem assertFail_ne_internal (file cond : List Char) :
    String.ofList (strip (Final.assertFail file cond).print) ≠ "THRILLE INTERNAL ERROR" := by
  have hfront : "thrille assert fail ".toList = "thrille".toList ++ " assert fail ".toList := rfl
  obtain ⟨rest, hrest⟩ := stripBy_front isSpace "thrille".toList
    (" assert fail ".toList ++ ((file.reverse.takeWhile (· != '/')).reverse ++
      ' ' :: (cond ++ ['\n']))) (by decide) (forall_mem_option isSpace _ (by decide))
    (forall_mem_option isSpace _ (by decide))
  have hlower : "thrille".toList ++ rest ≠ "THRILLE INTERNAL ERROR".toList := by
    have hthrille : "thrille".toList = 't' :: "hrille".toList := rfl
    have herror : "THRILLE INTERNAL ERROR".toList = 'T' :: "HRILLE INTERNAL ERROR".toList := rfl
    rw [hthrille, herror, List.cons_append]
    exact fun h => absurd (List.cons.inj h).1 (by decide)
  unfold Final.print strip
  dsimp only
  rw [hfront, List.append_assoc, hrest]
  intro h
  have htext := congrArg String.toList h
  rw [String.toList_ofList] at htext
  exact hlower htext

-- Where one of the words stands in the text of an assertion, the loop takes it for another line.
theorem parseEntries_unclear (final : Final) (hclear : ¬ final.Clear) (turns : Nat)
    (schedule points : List SchedulePoint) :
    parseEntries (turns + 1) [final.print] schedule ≠ some (points, final.error) := by
  cases final with
  | assertFail file cond =>
      have hne := assertFail_ne_internal file cond
      have hwords : ¬ ∀ word ∈ ["SCHED", "SIGNAL", "segfault", "deadlock"],
        contains word (strip (Final.assertFail file cond).print) = false := hclear
      have herror : (Final.assertFail file cond).error = some "THRILLE INTERNAL ERROR" := rfl
      simp only [List.forall_mem_cons, List.not_mem_nil, false_implies, implies_true, and_true,
        Bool.eq_false_iff, ne_eq, not_and, not_not] at hwords
      rw [parseEntries, herror]
      by_cases hSCHED : contains "SCHED" (strip (Final.assertFail file cond).print) = true
      · rw [if_pos hSCHED]
        simp
      · rw [if_neg hSCHED]
        by_cases hSIGNAL : contains "SIGNAL" (strip (Final.assertFail file cond).print) = true
        · rw [if_pos hSIGNAL]
          simp
        · rw [if_neg hSIGNAL]
          by_cases hsegfault : contains "segfault" (strip (Final.assertFail file cond).print) = true
          · rw [if_pos hsegfault]
            simp [hne]
          · rw [if_neg hsegfault, if_pos (hwords hSCHED hSIGNAL hsegfault)]
            simp [hne]
  | endLog => exact absurd trivial hclear
  | programAssertFail myself ret_addr => exact absurd trivial hclear
  | programDeadlock => exact absurd trivial hclear
  | segfault myself => exact absurd trivial hclear

theorem contains_assert (final : Final) : contains "assert" final.print = final.isAssert := by
  cases final with
  | endLog =>
      have hline : contains "assert" ("end_log".toList ++ ['\n']) = false := by decide +kernel
      exact hline
  | assertFail file cond =>
      have hfront : "thrille assert fail ".toList =
          "thrille ".toList ++ ("assert".toList ++ " fail ".toList) := rfl
      unfold Final.print
      dsimp only
      rw [hfront, List.append_assoc, List.append_assoc]
      exact contains_middle "assert" _ _
  | programAssertFail myself ret_addr =>
      have hfront : "program assert fail [".toList =
          "program ".toList ++ ("assert".toList ++ " fail [".toList) := rfl
      unfold Final.print
      dsimp only
      rw [hfront, List.append_assoc, List.append_assoc]
      exact contains_middle "assert" _ _
  | programDeadlock =>
      have hline : contains "assert" ("program deadlock".toList ++ ['\n']) = false := by
        decide +kernel
      exact hline
  | segfault myself =>
      have hfront : "segfault thread ".toList = "segfault thread".toList ++ [' '] := rfl
      have hname : contains "assert" "segfault thread".toList = false := by decide +kernel
      have hnumber : contains "assert" (decimal myself ++ ['\n']) = false := by
        apply contains_eq_false "assert" _ 'a' (by decide)
        rw [List.mem_append, not_or]
        exact ⟨not_mem_decimal 'a' (by decide) myself, by decide⟩
      unfold Final.print
      dsimp only
      rw [hfront, List.append_assoc, List.singleton_append,
        contains_append_cons "assert" _ _ ' ' (by decide), hname, hnumber]
      rfl

-- A SIGNAL without the SCHED behind it: the line of the assertion becomes the error.
theorem parseEntries_truncated (caller : ThrID) (entry : SignalEntry) (file cond : List Char)
    (turns : Nat) (schedule : List SchedulePoint) :
    parseEntries (turns + 1) (("SIGNAL".toList ++ ['\n']) :: entry.lines caller ++
        [(Final.assertFail file cond).print]) schedule =
      some (schedule, some (String.ofList (strip (Final.assertFail file cond).print))) := by
  have hSIGNAL : contains "SIGNAL" "SIGNAL".toList = true := by decide +kernel
  have hother : contains "SCHED" "SIGNAL".toList = false := by decide +kernel
  have hlength : (entry.lines caller ++ [(Final.assertFail file cond).print]).length < 11 := by
    rw [List.length_append]
    exact Nat.lt_of_lt_of_le (by decide : 5 + 1 < 11) (Nat.le_refl 11)
  have hlast : (entry.lines caller ++ [(Final.assertFail file cond).print])[5]? =
      some (Final.assertFail file cond).print := rfl
  have hassert : contains "assert" (Final.assertFail file cond).print = true :=
    contains_assert (.assertFail file cond)
  rw [List.cons_append, parseEntries, strip_opening "SIGNAL" (Or.inr rfl), hother, hSIGNAL,
    if_pos hlength, hlast]
  simp only [Bool.false_eq_true, if_false, if_true, Option.bind_eq_bind, Option.bind_some, hassert,
    guard_true, Option.pure_def]

end Schedule

end Thrille
