import Thrille.Files.Relaxed
import Thrille.Files.Written

namespace Thrille

open Text

-- A block with ids and an address in place of their names; the last block has no address.
structure Block where
  sched : ThrID
  times : Nat
  addr : Option Addr
  skip : Nat
  sig : List ThrID

namespace Block

def step (b : Block) : RelaxedStep where
  sched := idName b.sched
  times := b.times
  addr := (b.addr.map addrName).getD "0"
  skip := b.skip
  sig := b.sig.map idName

-- What a reader has to get back.
def struct (b : Block) : RelaxedSchedStruct where
  current := b.sched
  max := b.times
  addr := b.addr.getD 0
  pass := b.skip
  signals := b.sig.map Int.ofNat

structure Sound (b : Block) : Prop where
  sched : b.sched < 2 ^ 31
  addr : ∀ addr ∈ b.addr, addr < 2 ^ 64
  skip : b.skip ≤ b.times
  sig : ∀ thr ∈ b.sig, thr < 2 ^ 31

-- The three lines of the block, the signals without the end of their line.
def schedLine (b : Block) : List Char := decimal b.sched ++ ':' :: decimal b.times

def addrText (b : Block) : List Char := (b.addr.map pointer).getD ['0']

def addrLine (b : Block) : List Char := b.addrText ++ ':' :: decimal b.skip

def signalText (sig : List ThrID) : List Char := sig.flatMap fun thr => decimal thr ++ [' ']

def signalLine (b : Block) : List Char := signalText b.sig ++ ['#', '#']

def text (b : Block) : List Char :=
  b.schedLine ++ '\n' :: (b.addrLine ++ '\n' :: (b.signalLine ++ ['\n']))

-- The line of the signals, with its end, is read at once.
def Fits (b : Block) : Prop := b.signalLine.length + 1 < MAX_READ_SIZE

end Block

namespace Block

theorem text_append (b : Block) (rest : List Char) :
    b.text ++ rest =
      b.schedLine ++ '\n' :: (b.addrLine ++ '\n' :: (b.signalLine ++ '\n' :: rest)) := by
  rw [text]
  simp only [List.append_assoc, List.cons_append, List.nil_append]

theorem word_addrText (b : Block) : Word b.addrText := by
  rw [addrText]
  cases b.addr with
  | none =>
      have hzero : Word ['0'] := by decide
      exact hzero
  | some addr => exact word_pointer addr

theorem newline_addrLine (b : Block) : '\n' ∉ b.addrLine := by
  rw [addrLine, List.mem_append, List.mem_cons, not_or, not_or]
  exact ⟨b.word_addrText.newline, by decide, (word_decimal b.skip).newline⟩

theorem newline_schedLine (b : Block) : '\n' ∉ b.schedLine := by
  rw [schedLine, List.mem_append, List.mem_cons, not_or, not_or]
  exact ⟨(word_decimal b.sched).newline, by decide, (word_decimal b.times).newline⟩

theorem hash_schedLine (b : Block) : '#' ∉ b.schedLine := by
  rw [schedLine, List.mem_append, List.mem_cons, not_or, not_or]
  exact ⟨not_mem_decimal '#' (by decide) b.sched, by decide, not_mem_decimal '#' (by decide) b.times⟩

theorem hash_addrLine (b : Block) : '#' ∉ b.addrLine := by
  rw [addrLine, List.mem_append, List.mem_cons, not_or, not_or]
  refine ⟨?_, by decide, not_mem_decimal '#' (by decide) b.skip⟩
  rw [addrText]
  cases b.addr with
  | none => simp
  | some addr => exact not_mem_pointer '#' (by decide) (by decide) addr

theorem colon_addrText (b : Block) : ':' ∉ b.addrText := by
  rw [addrText]
  cases b.addr with
  | none => simp
  | some addr => exact (plain_pointer addr).2

theorem mem_signalText (sig : List ThrID) (c : Char) (hc : c ∈ signalText sig) :
    isDigit 10 c = true ∨ c = ' ' := by
  obtain ⟨thr, -, hc⟩ := List.mem_flatMap.mp hc
  rcases List.mem_append.mp hc with hc | hc
  · exact Or.inl (isDigit_decimal thr c hc)
  · exact Or.inr (List.mem_singleton.mp hc)

theorem newline_signalLine (b : Block) : '\n' ∉ b.signalLine := by
  have hmark : '\n' ∉ ['#', '#'] := by decide
  rw [signalLine, List.mem_append, not_or]
  refine ⟨?_, hmark⟩
  intro h
  rcases mem_signalText b.sig '\n' h with h | h
  · exact absurd h (by decide)
  · exact absurd h (by decide)

end Block

theorem outputScheduleStep_step (b : Block) : Schedule.outputScheduleStep b.step = some b.text := by
  have haddr : b.step.addr.toList = b.addrText := by
    rw [Block.step, Block.addrText]
    cases b.addr with
    | none => exact (by decide : "0".toList = ['0'])
    | some addr => exact String.toList_ofList
  have hsched : b.step.sched = some (String.ofList (decimal b.sched)) := rfl
  have hsig : b.step.sig = b.sig.map idName := rfl
  rw [Schedule.outputScheduleStep, hsched, hsig, mapM_id_idName]
  simp only [Option.bind_eq_bind, Option.bind_some, haddr, List.flatMap_map, String.toList_ofList,
    Option.pure_def, Option.some.injEq, Block.text, Block.schedLine, Block.addrLine,
    Block.signalLine, Block.signalText, List.append_assoc, List.cons_append, List.nil_append]
  rfl

namespace RelaxedLogger

theorem split_colon (first last : List Char) (hfirst : ':' ∉ first) :
    beforeColon (first ++ ':' :: last) = first ∧ afterColon (first ++ ':' :: last) = last := by
  have hall : ∀ c ∈ first, (c != ':') = true := by
    intro c hc
    rw [bne_iff_ne]
    rintro rfl
    exact hfirst hc
  rw [beforeColon, afterColon, if_pos (by simp), List.takeWhile_append_of_pos hall,
    List.dropWhile_append_of_pos hall]
  simp

theorem isSignalsEnd_within (text : List Char) (hend : isSignalsEnd text = true) :
    ['#', '#'] <:+: text := by
  rw [isSignalsEnd, Bool.or_eq_true, startsWith, startsWith, List.isPrefixOf_iff_prefix,
    List.isPrefixOf_iff_prefix] at hend
  rcases hend with h | h
  · exact h.isInfix
  · have hmark : ['#', '#'] <:+: " ##".toList := ⟨[' '], [], rfl⟩
    exact hmark.trans h.isInfix

-- Without the mark, the loop over the signals goes on for ever.
theorem readSignals_eq_none (turns : Nat) (text : List Char) (htext : ¬ ['#', '#'] <:+: text) :
    readSignals turns text = none := by
  induction turns generalizing text with
  | zero => rfl
  | succ turns ih =>
      have hrest : ¬ ['#', '#'] <:+: (strtol text).2 :=
        fun h => htext (h.trans (strtol_suffix text).isInfix)
      have hend : isSignalsEnd (strtol text).2 = false := by
        rw [Bool.eq_false_iff]
        exact fun h => hrest (isSignalsEnd_within _ h)
      rw [readSignals]
      simp only [hend, ih _ hrest, Bool.false_eq_true, if_false, Option.bind_eq_bind,
        Option.bind_none]

theorem isSignalsEnd_cons (c : Char) (text : List Char) (hc : c ≠ '#') (hspace : c ≠ ' ') :
    isSignalsEnd (c :: text) = false := by
  have hmark := Logger.startsWith_eq_false "##" (by decide) c text (by simpa using hc.symm)
  have hblank := Logger.startsWith_eq_false " ##" (by decide) c text (by simpa using hspace.symm)
  rw [isSignalsEnd, hmark, hblank]
  rfl

-- Behind a number: the mark, or a blank and the next number.
theorem isSignalsEnd_signalText (sig : List ThrID) (back : List Char) :
    isSignalsEnd (' ' :: (Block.signalText sig ++ '#' :: '#' :: back)) = decide (sig = []) := by
  cases sig with
  | nil => simp [Block.signalText, isSignalsEnd, startsWith, List.isPrefixOf]
  | cons thr sig =>
      obtain ⟨c, digits, hdigits⟩ := toDigits_eq_cons 10 thr
      have hc := isDigit_decimal thr c (by rw [decimal, hdigits]; exact List.mem_cons_self)
      have hhash : ¬ c = '#' := by
        rintro rfl
        exact absurd hc (by decide)
      rw [Block.signalText, List.flatMap_cons, decimal, hdigits]
      have hblank : ('#' == c) = false := by
        rw [beq_eq_false_iff_ne]
        exact fun h => hhash h.symm
      simp [isSignalsEnd, startsWith, List.isPrefixOf, hblank]

-- One turn of the loop over the signals.
theorem readSignals_turn (turns : Nat) (blanks : List Char)
    (hblanks : ∀ c ∈ blanks, isSpace c = true) (thr : ThrID) (hthr : thr < 2 ^ 31)
    (sig : List ThrID) (back : List Char) :
    readSignals (turns + 1) (blanks ++ (Block.signalText (thr :: sig) ++ '#' :: '#' :: back)) =
      if sig = [] then some [(thr : Int)]
      else (readSignals turns (' ' :: (Block.signalText sig ++ '#' :: '#' :: back))).map
        ((thr : Int) :: ·) := by
  have htext : blanks ++ (Block.signalText (thr :: sig) ++ '#' :: '#' :: back) =
      blanks ++ (decimal thr ++ ' ' :: (Block.signalText sig ++ '#' :: '#' :: back)) := by
    rw [Block.signalText, Block.signalText, List.flatMap_cons]
    simp only [List.append_assoc, List.cons_append, List.nil_append]
  have hvalue : (thr : Int).bmod (2 ^ 32) = thr := bmod_of_lt thr hthr
  have hstop : ∀ c ∈ (' ' :: (Block.signalText sig ++ '#' :: '#' :: back)).head?,
      isDigit 10 c = false := forall_mem_option (isDigit 10) (some ' ') (by decide)
  rw [readSignals, htext, strtol_decimal blanks hblanks thr (Nat.lt_trans hthr (by decide)) _ hstop]
  simp only [isSignalsEnd_signalText, hvalue, decide_eq_true_eq]
  by_cases hempty : sig = []
  · rw [if_pos hempty, if_pos hempty]
    rfl
  · rw [if_neg hempty, if_neg hempty]
    cases readSignals turns (' ' :: (Block.signalText sig ++ '#' :: '#' :: back)) with
    | none => rfl
    | some signals => rfl

theorem readSignals_signalText (blanks : List Char) (hblanks : ∀ c ∈ blanks, isSpace c = true)
    (thr : ThrID) (sig : List ThrID) (hsig : ∀ other ∈ thr :: sig, other < 2 ^ 31)
    (back : List Char) (turns : Nat) :
    readSignals turns (blanks ++ (Block.signalText (thr :: sig) ++ '#' :: '#' :: back)) =
      if sig.length < turns then some ((thr :: sig).map Int.ofNat) else none := by
  have hblank : ∀ c ∈ [' '], isSpace c = true := List.all_eq_true.mp (by decide)
  induction sig generalizing blanks thr turns with
  | nil =>
      cases turns with
      | zero => rfl
      | succ turns =>
          rw [readSignals_turn turns blanks hblanks thr (hsig thr List.mem_cons_self) [] back, if_pos rfl,
            if_pos (by simp)]
          rfl
  | cons next sig ih =>
      rw [List.forall_mem_cons] at hsig
      cases turns with
      | zero => rfl
      | succ turns =>
          have hrest := ih [' '] hblank next hsig.2 turns
          rw [List.singleton_append] at hrest
          rw [readSignals_turn turns blanks hblanks thr hsig.1 (next :: sig) back, if_neg (by simp), hrest]
          simp only [List.length_cons, Nat.add_lt_add_iff_right]
          split
          · rfl
          · rfl

-- The lines of a block up to its signals.
theorem isReadfileEnd_schedLine (b : Block) (hsched : b.sched < 2 ^ 31) (rest : List Char) :
    ∃ tmp readfile, Logger.isReadfileEnd (b.schedLine ++ '\n' :: rest) = some (tmp, readfile) ∧
      (b.times < 2 ^ 31 → tmp = b.schedLine ++ ['\n'] ∧ readfile = rest) := by
  obtain ⟨c, digits, hdigits⟩ := toDigits_eq_cons 10 b.sched
  have hc := isDigit_decimal b.sched c (by rw [decimal, hdigits]; exact List.mem_cons_self)
  have hends : ∀ word ∈ Logger.endings, word.toList.head?.all (fun d => !isDigit 10 d) = true := by
    decide
  have hnot : ∀ word ∈ Logger.endings, word.toList.head? ≠ some c := by
    intro word hword hd
    have hall := hends word hword
    rw [hd] at hall
    simp [hc] at hall
  have htoken : Logger.isReadfileEnd (b.schedLine ++ '\n' :: rest) =
      some (chunk 255 (b.schedLine ++ '\n' :: rest)) := by
    rw [Block.schedLine, decimal, hdigits]
    exact Logger.isReadfileEnd_token c _ hnot
  refine ⟨_, _, htoken, ?_⟩
  intro htimes
  have hlength : b.schedLine.length < 255 := by
    have hfirst := length_decimal b.sched hsched
    have hlast := length_decimal b.times htimes
    rw [Block.schedLine, List.length_append, List.length_cons]
    omega
  rw [chunk_line 255 b.schedLine rest b.newline_schedLine hlength]
  exact ⟨rfl, rfl⟩

end RelaxedLogger

end Thrille
