import Thrille.Files.RelaxedLines
import Thrille.Files.RoundTrip

namespace Thrille

open Text

namespace RelaxedLogger

-- What is read of a block before its signals.
theorem reconstitute_block (turns : Nat) (b : Block) (hsound : b.Sound) (htimes : b.times < 2 ^ 31)
    (rest : List Char) :
    reconstituteRelaxedSchedule (turns + 1) (b.text ++ rest) = (do
      let signals ← readSignalLine turns (chunk 255 (b.signalLine ++ '\n' :: rest)).1
      let relaxed_schedule ←
        reconstituteRelaxedSchedule turns (chunk 255 (b.signalLine ++ '\n' :: rest)).2
      return { b.struct with signals } :: relaxed_schedule) := by
  obtain ⟨tmp, readfile, htoken, hline⟩ := isReadfileEnd_schedLine b hsound.sched
    (b.addrLine ++ '\n' :: (b.signalLine ++ '\n' :: rest))
  obtain ⟨rfl, rfl⟩ := hline htimes
  have hskip : b.skip < 2 ^ 31 := Nat.lt_of_le_of_lt hsound.skip htimes
  have haddr : b.addrText.length ≤ 18 ∧ strtoul b.addrText = b.addr.getD 0 := by
    have hsmall := hsound.addr
    rw [Block.addrText]
    cases haddr : b.addr with
    | none => exact ⟨by decide, by decide⟩
    | some addr =>
        have hlt := hsmall addr (by rw [haddr]; rfl)
        exact ⟨length_pointer addr hlt, Logger.strtoul_pointer_self addr hlt⟩
  have hfits : b.addrLine.length + 1 < MAX_READ_SIZE := by
    have hlength := length_decimal b.skip hskip
    rw [Block.addrLine, List.length_append, List.length_cons, MAX_READ_SIZE]
    omega
  have haddrLine : nextLine (b.schedLine ++ ['\n'])
      (b.addrLine ++ '\n' :: (b.signalLine ++ '\n' :: rest)) =
        (b.addrLine ++ ['\n'], b.signalLine ++ '\n' :: rest) := by
    rw [nextLine, fgets_line MAX_READ_SIZE b.addrLine _ b.newline_addrLine hfits]
    rfl
  have hsignalLine : nextLine (b.addrLine ++ ['\n']) (b.signalLine ++ '\n' :: rest) =
      chunk 255 (b.signalLine ++ '\n' :: rest) := by
    rw [nextLine, fgets, if_neg (by simp), MAX_READ_SIZE]
    rfl
  have hend : ∀ c ∈ ['\n'].head?, isDigit 10 c = false :=
    forall_mem_option (isDigit 10) (some '\n') (by decide)
  have hnumber (n : Nat) (hn : n < 2 ^ 31) (rest : List Char)
      (hrest : ∀ c ∈ rest.head?, isDigit 10 c = false) : atoi (decimal n ++ rest) = n :=
    atoi_decimal [] (by simp) n hn rest hrest
  have hsched : atoi (decimal b.sched) = b.sched := by
    have h := hnumber b.sched hsound.sched [] (by simp)
    rwa [List.append_nil] at h
  have hschedLine : b.schedLine ++ ['\n'] = decimal b.sched ++ ':' :: (decimal b.times ++ ['\n']) := by
    rw [Block.schedLine, List.append_assoc, List.cons_append]
  have haddrSplit : b.addrLine ++ ['\n'] = b.addrText ++ ':' :: (decimal b.skip ++ ['\n']) := by
    rw [Block.addrLine, List.append_assoc, List.cons_append]
  obtain ⟨hbefore, hafter⟩ := split_colon (decimal b.sched) (decimal b.times ++ ['\n'])
    (plain_decimal b.sched).2
  obtain ⟨hbefore', hafter'⟩ := split_colon b.addrText (decimal b.skip ++ ['\n']) b.colon_addrText
  rw [Block.text_append, reconstituteRelaxedSchedule, htoken]
  simp only [haddrLine, hsignalLine]
  rw [hschedLine, haddrSplit, hbefore, hafter, hbefore', hafter', hsched,
    hnumber b.times htimes _ hend, hnumber b.skip hskip _ hend, haddr.2]
  rfl

-- The signals of a line with its mark.
theorem readSignalLine_signalLine (b : Block) (hsound : b.Sound) (turns : Nat) (back : List Char) :
    readSignalLine turns (b.signalLine ++ back) =
      if b.sig.length ≤ turns then some b.struct.signals else none := by
  have hsmall := hsound.sig
  rw [readSignalLine, Block.struct, Block.signalLine, List.append_assoc]
  cases hsig : b.sig with
  | nil =>
      have hend : isSignalsEnd (Block.signalText [] ++ (['#', '#'] ++ back)) = true := by
        simp [Block.signalText, isSignalsEnd, startsWith, List.isPrefixOf]
      rw [if_pos hend, if_pos (by simp)]
      rfl
  | cons thr sig =>
      rw [hsig] at hsmall
      obtain ⟨c, digits, hdigits⟩ := toDigits_eq_cons 10 thr
      have hc := isDigit_decimal thr c (by rw [decimal, hdigits]; exact List.mem_cons_self)
      have hend : isSignalsEnd (Block.signalText (thr :: sig) ++ (['#', '#'] ++ back)) = false := by
        rw [Block.signalText, List.flatMap_cons, decimal, hdigits]
        apply isSignalsEnd_cons
        · rintro rfl
          exact absurd hc (by decide)
        · rintro rfl
          exact absurd hc (by decide)
      have hread := readSignals_signalText [] (by simp) thr sig hsmall back turns
      rw [List.nil_append] at hread
      rw [hend]
      simp only [Bool.false_eq_true, if_false, List.length_cons, Nat.succ_le_iff]
      exact hread

-- A block whose signals fit in the buffer is read back.
theorem reconstitute_fits (turns : Nat) (b : Block) (hsound : b.Sound) (htimes : b.times < 2 ^ 31)
    (hfits : b.Fits) (rest : List Char) :
    reconstituteRelaxedSchedule (turns + 1) (b.text ++ rest) =
      if b.sig.length ≤ turns then
        (reconstituteRelaxedSchedule turns rest).map (b.struct :: ·)
      else none := by
  have hline : chunk 255 (b.signalLine ++ '\n' :: rest) = (b.signalLine ++ ['\n'], rest) := by
    rw [Block.Fits, MAX_READ_SIZE] at hfits
    exact chunk_line 255 b.signalLine rest b.newline_signalLine (by omega)
  rw [reconstitute_block turns b hsound htimes, hline]
  dsimp only
  rw [readSignalLine_signalLine b hsound turns ['\n']]
  split
  · simp only [Option.bind_eq_bind, Option.bind_some]
    cases reconstituteRelaxedSchedule turns rest with
    | none => rfl
    | some structs => rfl
  · rfl

theorem mem_chunk (n : Nat) (line rest : List Char) (hline : '\n' ∉ line) (c : Char)
    (hc : c ∈ (chunk n (line ++ '\n' :: rest)).1) : c ∈ line ∨ c = '\n' := by
  by_cases hfits : line.length < n
  · rw [chunk_line n line rest hline hfits, List.mem_append, List.mem_singleton] at hc
    exact hc
  · rw [chunk_long n line _ hline (by omega)] at hc
    exact Or.inl (List.mem_of_mem_take hc)

-- Two lines without the mark are not the end of the signals, however they are cut.
theorem hash_not_in_lines (tmp first last rest : List Char) (hfirst : '\n' ∉ first)
    (hlast : '\n' ∉ last) (hhash : '#' ∉ first ∧ '#' ∉ last) :
    '#' ∉ (nextLine (nextLine tmp (first ++ '\n' :: (last ++ '\n' :: rest))).1
      (nextLine tmp (first ++ '\n' :: (last ++ '\n' :: rest))).2).1 := by
  have hnext (tmp line rest : List Char) : nextLine tmp (line ++ '\n' :: rest) =
      chunk 255 (line ++ '\n' :: rest) := by
    rw [nextLine, fgets, if_neg (by simp), MAX_READ_SIZE]
    rfl
  have hline (tmp line rest : List Char) (hnewline : '\n' ∉ line) (hmark : '#' ∉ line) :
      '#' ∉ (nextLine tmp (line ++ '\n' :: rest)).1 := by
    intro h
    rw [hnext] at h
    rcases mem_chunk 255 line rest hnewline '#' h with h | h
    · exact hmark h
    · exact absurd h (by decide)
  rw [hnext]
  by_cases hfits : first.length < 255
  · rw [chunk_line 255 first _ hfirst hfits]
    exact hline _ last rest hlast hhash.2
  · rw [chunk_long 255 first _ hfirst (by omega)]
    exact hline _ (first.drop 255) _ (fun h => hfirst (List.mem_of_mem_drop h))
      (fun h => hhash.1 (List.mem_of_mem_drop h))

theorem infix_of_hash (text : List Char) (hhash : '#' ∉ text) : ¬ ['#', '#'] <:+: text :=
  fun h => hhash (h.subset List.mem_cons_self)

theorem readSignalLine_eq_none (turns : Nat) (text : List Char) (hmark : ¬ ['#', '#'] <:+: text) :
    readSignalLine turns text = none := by
  have hend : ¬ isSignalsEnd text = true := fun h => hmark (isSignalsEnd_within text h)
  rw [readSignalLine, if_neg hend, readSignals_eq_none turns text hmark]

-- An end of a line on its own is taken for a block, whose signals never end.
theorem reconstitute_newline (turns : Nat) (blocks : List Block) :
    reconstituteRelaxedSchedule turns ('\n' :: blocks.flatMap Block.text) = none := by
  cases turns with
  | zero => rfl
  | succ turns =>
      have hends : ∀ word ∈ Logger.endings, word.toList.head? ≠ some '\n' := by decide
      have hchunk : chunk 255 ('\n' :: blocks.flatMap Block.text) =
          (['\n'], blocks.flatMap Block.text) := rfl
      have hhash : '#' ∉ (nextLine (nextLine ['\n'] (blocks.flatMap Block.text)).1
          (nextLine ['\n'] (blocks.flatMap Block.text)).2).1 := by
        cases blocks with
        | nil =>
            have hempty : '#' ∉ ['\n'] := by decide
            exact hempty
        | cons b blocks =>
            rw [List.flatMap_cons, Block.text_append]
            exact hash_not_in_lines _ _ _ _ b.newline_schedLine b.newline_addrLine
              ⟨b.hash_schedLine, b.hash_addrLine⟩
      rw [reconstituteRelaxedSchedule, Logger.isReadfileEnd_token '\n' _ hends, hchunk]
      simp only [readSignalLine_eq_none turns _ (infix_of_hash _ hhash), Option.bind_eq_bind,
        Option.bind_none]

theorem infix_concat (text : List Char) (htext : '#' ∉ text) : ¬ ['#', '#'] <:+: text ++ ['#'] := by
  induction text with
  | nil => decide
  | cons c text ih =>
      rw [List.mem_cons, not_or] at htext
      rw [List.cons_append, List.infix_cons_iff, not_or]
      refine ⟨?_, ih htext.2⟩
      intro h
      exact htext.1 (List.cons_prefix_cons.mp h).1

-- The buffer ends before the mark of a longer line does.
theorem take_signalLine (b : Block) (hlong : 256 ≤ b.signalLine.length) :
    ¬ ['#', '#'] <:+: b.signalLine.take 255 := by
  have hhash : '#' ∉ Block.signalText b.sig := by
    intro h
    rcases Block.mem_signalText b.sig '#' h with h | h
    · exact absurd h (by decide)
    · exact absurd h (by decide)
  have hline : b.signalLine = (Block.signalText b.sig ++ ['#']) ++ ['#'] := by
    rw [Block.signalLine, List.append_assoc]
    rfl
  have hlength : 255 ≤ (Block.signalText b.sig ++ ['#']).length := by
    rw [hline, List.length_append] at hlong
    simp only [List.length_cons, List.length_nil] at hlong
    omega
  rw [hline, List.take_append_of_le_length hlength]
  exact fun h => infix_concat _ hhash (h.trans (List.take_prefix _ _).isInfix)

-- A block whose signals do not fit is never read to its end.
theorem reconstitute_long (turns : Nat) (b : Block) (hsound : b.Sound) (htimes : b.times < 2 ^ 31)
    (hlong : ¬ b.Fits) (blocks : List Block) :
    reconstituteRelaxedSchedule turns (b.text ++ blocks.flatMap Block.text) = none := by
  cases turns with
  | zero => rfl
  | succ turns =>
      have hlength : 255 ≤ b.signalLine.length := by
        rw [Block.Fits, MAX_READ_SIZE] at hlong
        omega
      rw [reconstitute_block turns b hsound htimes,
        chunk_long 255 b.signalLine _ b.newline_signalLine hlength]
      by_cases hexact : b.signalLine.length = 255
      · rw [List.drop_eq_nil_of_le (by omega), List.nil_append, reconstitute_newline]
        cases readSignalLine turns (b.signalLine.take 255) with
        | none => rfl
        | some signals => rfl
      · rw [readSignalLine_eq_none turns _ (take_signalLine b (by omega))]
        rfl

-- A count that is read is an `int`.
theorem max_lt (turns : Nat) (readfile : List Char) (struct : RelaxedSchedStruct)
    (structs : List RelaxedSchedStruct)
    (hread : reconstituteRelaxedSchedule turns readfile = some (struct :: structs)) :
    struct.max < 2 ^ 31 := by
  cases turns with
  | zero => cases hread
  | succ turns =>
      rw [reconstituteRelaxedSchedule] at hread
      split at hread
      · cases hread
      · simp only [Option.bind_eq_bind, Option.bind_eq_some_iff, Option.pure_def,
          Option.some.injEq, List.cons.injEq] at hread
        obtain ⟨signals, -, relaxed_schedule, -, rfl, -⟩ := hread
        exact atoi_lt _

theorem length_le_flatten (blocks : List Block) :
    ∀ b ∈ blocks, b.sig.length ≤ (blocks.map Block.sig).flatten.length :=
  fun _ hb => (List.sublist_flatten_of_mem (List.mem_map_of_mem hb)).length_le

theorem reconstitute_blocks (blocks : List Block) (hsound : ∀ b ∈ blocks, b.Sound)
    (hfits : ∀ b ∈ blocks, b.times < 2 ^ 31 ∧ b.Fits) (turns : Nat)
    (hturns : ∀ b ∈ blocks, b.sig.length ≤ turns) :
    reconstituteRelaxedSchedule (blocks.length + turns + 1) (blocks.flatMap Block.text) =
      some (blocks.map Block.struct) := by
  induction blocks with
  | nil => rfl
  | cons b blocks ih =>
      rw [List.forall_mem_cons] at hsound hfits hturns
      have hrest := ih hsound.2 hfits.2 hturns.2
      have hlength : (b :: blocks).length + turns + 1 = blocks.length + turns + 1 + 1 := by
        rw [List.length_cons]
        omega
      rw [hlength, List.flatMap_cons, reconstitute_fits _ b hsound.1 hfits.1.1 hfits.1.2, hrest,
        if_pos (by omega)]
      rfl

-- Blocks can be read back if and only if the signals of each fit in the buffer and its count is
-- an `int`.
theorem reconstitute_iff (blocks : List Block) (hsound : ∀ b ∈ blocks, b.Sound) :
    (∃ turns, reconstituteRelaxedSchedule turns (blocks.flatMap Block.text) =
      some (blocks.map Block.struct)) ↔ ∀ b ∈ blocks, b.times < 2 ^ 31 ∧ b.Fits := by
  constructor
  · induction blocks with
    | nil => simp
    | cons b blocks ih =>
        rintro ⟨turns, hread⟩
        rw [List.forall_mem_cons] at hsound
        rw [List.flatMap_cons, List.map_cons] at hread
        have htimes : b.times < 2 ^ 31 := by
          have hmax : (b.times : Int) < 2 ^ 31 := max_lt turns _ b.struct _ hread
          omega
        have hfits : b.Fits := by
          by_contra hlong
          rw [reconstitute_long turns b hsound.1 htimes hlong] at hread
          cases hread
        rw [List.forall_mem_cons]
        refine ⟨⟨htimes, hfits⟩, ih hsound.2 ?_⟩
        cases turns with
        | zero => cases hread
        | succ turns =>
            refine ⟨turns, ?_⟩
            rw [reconstitute_fits turns b hsound.1 htimes hfits] at hread
            split at hread
            · obtain ⟨structs, hstructs, hcons⟩ := Option.map_eq_some_iff.mp hread
              rw [hstructs, (List.cons.inj hcons).2]
            · cases hread
  · intro hfits
    exact ⟨_, reconstitute_blocks blocks hsound hfits _ (length_le_flatten blocks)⟩

end RelaxedLogger

namespace SchedulePoint

-- The names of the point are ids and its address is a pointer.
structure Numbered (x : SchedulePoint) : Prop where
  chosen : ∃ thr < 2 ^ 31, x.chosen = idName thr
  caller : ∃ thr < 2 ^ 31, x.caller = idName thr
  addr : ∃ addr < 2 ^ 64, x.addr = addrName addr
  signal : ∀ info ∈ x.signal, ∃ thr < 2 ^ 31, info.signalled = idName thr

theorem Numbered.signalled {x : SchedulePoint} (hx : x.Numbered) :
    ∃ sig : List ThrID, x.signalled = sig.map idName ∧ ∀ thr ∈ sig, thr < 2 ^ 31 := by
  have hsignal := hx.signal
  rw [SchedulePoint.signalled]
  cases hinfo : x.signal with
  | none => exact ⟨[], rfl, by simp⟩
  | some info =>
      obtain ⟨thr, hthr, hname⟩ := hsignal info (by rw [hinfo]; rfl)
      refine ⟨[thr], ?_, by simpa using hthr⟩
      simp [hname]

end SchedulePoint

namespace Schedule

-- Where the names are ids, so are those of the blocks; an address is passed at most as often as
-- the thread is scheduled.
theorem relaxedSteps_blocks (last : ThrID) (hlast : last < 2 ^ 31) (sched : List SchedulePoint)
    (hsched : ∀ x ∈ sched, x.Numbered) (state : RelaxedState) (sig : List ThrID)
    (hsig : state.signal_list = sig.map idName) (hsmall : ∀ thr ∈ sig, thr < 2 ^ 31)
    (hdict : ∀ addr, state.addr_dict addr ≤ state.times_scheduled) :
    ∃ blocks : List Block, relaxedSteps (idName last) state sched = blocks.map Block.step ∧
      ∀ b ∈ blocks, b.Sound := by
  induction sched generalizing state sig with
  | nil =>
      refine ⟨[{ sched := last, times := state.times_scheduled, addr := none, skip := 0, sig }],
        ?_, ?_⟩
      · simp [relaxedSteps, Block.step, hsig]
      · rw [List.forall_mem_singleton]
        exact ⟨hlast, by simp, Nat.zero_le _, hsmall⟩
  | cons tmp rest ih =>
      rw [List.forall_mem_cons] at hsched
      obtain ⟨more, hmore, hmoreSmall⟩ := hsched.1.signalled
      have hsig' : (state.count tmp).signal_list = (sig ++ more).map idName := by
        rw [RelaxedState.count, List.map_append, ← hsig, ← hmore]
      have hsmall' : ∀ thr ∈ sig ++ more, thr < 2 ^ 31 := by
        rw [List.forall_mem_append]
        exact ⟨hsmall, hmoreSmall⟩
      have hdict' (addr : String) : (state.count tmp).addr_dict addr ≤
          (state.count tmp).times_scheduled := by
        have h := hdict addr
        simp only [RelaxedState.count]
        split <;> omega
      rw [relaxedSteps]
      by_cases hswitch : tmp.chosen ≠ tmp.caller
      · obtain ⟨caller, hcaller, hcallerName⟩ := hsched.1.caller
        obtain ⟨addr, haddr, haddrName⟩ := hsched.1.addr
        obtain ⟨blocks, hblocks, hblocksSound⟩ := ih hsched.2 { times_scheduled := 1 } [] rfl
          (by simp) (fun _ => Nat.zero_le 1)
        refine ⟨{ sched := caller, times := (state.count tmp).times_scheduled - 1, addr := some addr
                  skip := (state.count tmp).addr_dict tmp.addr - 1, sig := sig ++ more } :: blocks,
          ?_, ?_⟩
        · rw [if_pos hswitch, hblocks, List.map_cons]
          simp [Block.step, hsig', hcallerName, haddrName]
        · rw [List.forall_mem_cons]
          refine ⟨⟨hcaller, by simpa using haddr, ?_, hsmall'⟩, hblocksSound⟩
          exact Nat.sub_le_sub_right (hdict' tmp.addr) 1
      · rw [if_neg hswitch]
        exact ih hsched.2 (state.count tmp) (sig ++ more) hsig' hsmall' hdict'

theorem relaxedFile_blocks (points : AddrPoints) (sched : List SchedulePoint) (hne : sched ≠ [])
    (hsched : ∀ x ∈ sched, x.Numbered) :
    ∃ blocks : List Block,
      outputRelaxedSchedule { schedule := sched, addrlist := points.addrlist } =
        some (blocks.map Block.step) ∧
      relaxedFile { schedule := sched, addrlist := points.addrlist } =
        some (points.record ++ blocks.flatMap Block.text) ∧ ∀ b ∈ blocks, b.Sound := by
  obtain ⟨front, final, rfl⟩ := (List.eq_nil_or_concat' sched).resolve_left hne
  obtain ⟨last, hlast, hname⟩ := (hsched final (by simp)).chosen
  obtain ⟨blocks, hblocks, hsound⟩ := relaxedSteps_blocks last hlast (front ++ [final]) hsched {} []
    rfl (by simp) (fun _ => Nat.le_refl 0)
  have hsteps : outputRelaxedSchedule
      { schedule := front ++ [final], addrlist := points.addrlist } =
        some (blocks.map Block.step) := by
    rw [outputRelaxedSchedule, List.getLast?_concat]
    simp only [Option.bind_eq_bind, Option.bind_some, Option.pure_def, hname, hblocks]
  have htexts : (blocks.map Block.step).mapM outputScheduleStep =
      some (blocks.map Block.text) := by
    clear hblocks hsteps hsound
    induction blocks with
    | nil => rfl
    | cons b blocks ih =>
        rw [List.map_cons, List.mapM_cons, ih, outputScheduleStep_step]
        rfl
  refine ⟨blocks, hsteps, ?_, hsound⟩
  rw [relaxedFile, hsteps]
  simp only [Option.bind_eq_bind, Option.bind_some, htexts, outputAddrlist_addrlist,
    Option.pure_def, List.flatMap_def]

end Schedule

namespace RelaxedLogger

theorem readLog_record (points : AddrPoints) (hpoints : points.Sound) (turns : Nat)
    (rest : List Char) :
    readLog turns (points.record ++ rest) =
      if points.listed.length < turns then
        (reconstituteRelaxedSchedule turns rest).map fun structs => (points.read, structs)
      else none := by
  rw [readLog, Logger.setSchedulableAddresses_record points hpoints]
  split
  · simp only [Option.bind_eq_bind, Option.bind_some]
    cases reconstituteRelaxedSchedule turns rest with
    | none => rfl
    | some structs => rfl
  · rfl

end RelaxedLogger

-- A relaxed schedule can be read back exactly when no block signals more threads than the buffer
-- holds and no thread is scheduled more often than an `int` counts.
theorem readRelaxedLog_iff (points : AddrPoints) (hpoints : points.Sound)
    (sched : List SchedulePoint) (hne : sched ≠ []) (hsched : ∀ x ∈ sched, x.Numbered) :
    ∃ (blocks : List Block) (file : List Char),
      Schedule.outputRelaxedSchedule { schedule := sched, addrlist := points.addrlist } =
        some (blocks.map Block.step) ∧
      Schedule.relaxedFile { schedule := sched, addrlist := points.addrlist } = some file ∧
      ((∃ turns read, RelaxedLogger.readLog turns file = some (read, blocks.map Block.struct)) ↔
        ∀ b ∈ blocks, b.times < 2 ^ 31 ∧ b.Fits) := by
  obtain ⟨blocks, hsteps, hfile, hsound⟩ := Schedule.relaxedFile_blocks points sched hne hsched
  refine ⟨blocks, _, hsteps, hfile, ?_⟩
  constructor
  · rintro ⟨turns, read, hread⟩
    rw [RelaxedLogger.readLog_record points hpoints] at hread
    split at hread
    · obtain ⟨structs, hstructs, heq⟩ := Option.map_eq_some_iff.mp hread
      refine (RelaxedLogger.reconstitute_iff blocks hsound).mp ⟨turns, ?_⟩
      rw [hstructs, (Prod.mk.inj heq).2]
    · cases hread
  · intro hfits
    have hturns : ∀ b ∈ blocks,
        b.sig.length ≤ (blocks.map Block.sig).flatten.length + points.listed.length :=
      fun b hb => Nat.le_add_right_of_le (RelaxedLogger.length_le_flatten blocks b hb)
    refine ⟨blocks.length + ((blocks.map Block.sig).flatten.length + points.listed.length) + 1,
      points.read, ?_⟩
    rw [RelaxedLogger.readLog_record points hpoints, RelaxedLogger.reconstitute_blocks blocks hsound
      hfits _ hturns, if_pos (by omega)]
    rfl

-- A switch to a second thread and a signal of it, of which the second block is the last.
def twoBlocks : List SchedulePoint :=
  [{ chosen := idName 0, caller := idName 0, type := "Simulate_Signal", addr := addrName 4198400
     enabled := [idName 0, idName 1]
     signal := some { signalled := idName 1, cond := "0x601080", oncond := [idName 1] } },
    { chosen := idName 1, caller := idName 0, type := "Before_Join", addr := addrName 4198412
      enabled := [idName 1] }]

theorem readRelaxedLog_two_blocks :
    ∃ (blocks : List Block) (file : List Char),
      Schedule.outputRelaxedSchedule { schedule := twoBlocks, addrlist := ["all"] } =
        some (blocks.map Block.step) ∧
      Schedule.relaxedFile { schedule := twoBlocks, addrlist := ["all"] } = some file ∧
      ((∃ turns read, RelaxedLogger.readLog turns file = some (read, blocks.map Block.struct)) ↔
        ∀ b ∈ blocks, b.times < 2 ^ 31 ∧ b.Fits) := by
  refine readRelaxedLog_iff { scheduleAll := true } ?_ twoBlocks (by simp [twoBlocks]) ?_
  · intro addr haddr
    cases haddr
  · rw [twoBlocks, List.forall_mem_cons, List.forall_mem_singleton]
    refine ⟨⟨⟨0, by decide, rfl⟩, ⟨0, by decide, rfl⟩, ⟨4198400, by decide, rfl⟩, ?_⟩,
      ⟨⟨1, by decide, rfl⟩, ⟨0, by decide, rfl⟩, ⟨4198412, by decide, rfl⟩, ?_⟩⟩
    · intro info hinfo
      cases hinfo
      exact ⟨1, by decide, rfl⟩
    · intro info hinfo
      cases hinfo

-- A thread that signals a hundred and thirty times before any other runs.
def manySignals : List SchedulePoint :=
  List.replicate 130
    { chosen := idName 0, caller := idName 0, type := "Simulate_Signal", addr := addrName 4198400
      enabled := [idName 0, idName 1]
      signal := some { signalled := idName 1, cond := "0x601080", oncond := [idName 1] } }

def manySignalsBlock : Block where
  sched := 0
  times := 130
  addr := none
  skip := 0
  sig := List.replicate 130 1

theorem readRelaxedLog_many_signals :
    manySignals ≠ [] ∧ (∀ x ∈ manySignals, x.Numbered) ∧
      ∃ file, Schedule.relaxedFile { schedule := manySignals, addrlist := ["all"] } = some file ∧
        ∀ turns, RelaxedLogger.readLog turns file = none := by
  have hpoints : AddrPoints.Sound { scheduleAll := true } := by
    intro addr haddr
    cases haddr
  have hsound : manySignalsBlock.Sound := by
    refine ⟨by decide, ?_, by decide, ?_⟩
    · intro addr haddr
      cases haddr
    · intro thr hthr
      rw [List.eq_of_mem_replicate hthr]
      decide
  have hlong : ¬ manySignalsBlock.Fits := by
    unfold Block.Fits
    decide +kernel
  have hsteps : Schedule.outputRelaxedSchedule { schedule := manySignals, addrlist := ["all"] } =
      some [manySignalsBlock.step] := by decide +kernel
  have hrecord : Schedule.outputAddrlist { schedule := manySignals, addrlist := ["all"] } =
      AddrPoints.record { scheduleAll := true } :=
    Schedule.outputAddrlist_addrlist { scheduleAll := true } manySignals
  refine ⟨by decide, ?_, AddrPoints.record { scheduleAll := true } ++ manySignalsBlock.text, ?_, ?_⟩
  · intro x hx
    rw [List.eq_of_mem_replicate hx]
    refine ⟨⟨0, by decide, rfl⟩, ⟨0, by decide, rfl⟩, ⟨4198400, by decide, rfl⟩, ?_⟩
    intro info hinfo
    cases hinfo
    exact ⟨1, by decide, rfl⟩
  · rw [Schedule.relaxedFile, hsteps]
    simp only [Option.bind_eq_bind, Option.bind_some, List.mapM_cons, List.mapM_nil,
      outputScheduleStep_step, hrecord, Option.pure_def, List.flatten_cons, List.flatten_nil,
      List.append_nil]
  · intro turns
    have hread := RelaxedLogger.reconstitute_long turns manySignalsBlock hsound (by decide) hlong []
    rw [List.flatMap_nil, List.append_nil] at hread
    rw [RelaxedLogger.readLog_record _ hpoints, hread]
    split
    · rfl
    · rfl

end Thrille
