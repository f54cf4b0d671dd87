import Thrille.Files.Addresses
import Thrille.Racer.Races
import Mathlib.Data.List.Rotate

namespace Thrille

open Text

-- A stream prints a pointer as `%p` does, but for the null pointer.
def streamPointer (p : Nat) : List Char := if p = 0 then ['0'] else pointer p

theorem word_streamPointer (p : Nat) : Word (streamPointer p) := by
  unfold streamPointer
  split
  · intro c hc
    rw [List.mem_singleton.mp hc]
    decide
  · exact word_pointer p

theorem length_streamPointer (p : Nat) (hp : p < 2 ^ 64) : (streamPointer p).length ≤ 18 := by
  unfold streamPointer
  split
  · simp
  · exact length_pointer p hp

theorem strtoul_streamPointer (p : Nat) (hp : p < 2 ^ 64) :
    strtoul (streamPointer p ++ ['\n']) = p := by
  unfold streamPointer
  split
  · rename_i hnull
    subst hnull
    decide
  · refine strtoul_pointer p hp ['\n'] fun c hc => ?_
    have hnewline : '\n' = c := by simpa using hc
    subst hnewline
    decide

-- A race as the file of the targets has it.
structure TargetRecord where
  isLock : Bool
  record : RaceRecord

namespace TargetRecord

def kind (self : TargetRecord) : List Char :=
  if self.isLock then "LOCK".toList else "DATA".toList

-- The three lines of a record.
def lines (self : TargetRecord) : List Char :=
  self.kind ++ '\n' :: (streamPointer self.record.left ++ '\n' ::
    (streamPointer self.record.right ++ ['\n']))

def targets (self : TargetRecord) : Addr × Addr := (self.record.left, self.record.right)

end TargetRecord

-- The records in the order in which `dumpRaces` writes them.
def RaceReporter.records (self : RaceReporter) : List TargetRecord :=
  self.foundraces.map (TargetRecord.mk false) ++ self.foundlockraces.map (TargetRecord.mk true)

-- What the file has after `dumpRaces`.
def RaceReporter.dumpRaces (self : RaceReporter) : List Char :=
  self.records.flatMap TargetRecord.lines

-- What an active tester takes from the file at its start.
structure TestingTargets where
  target1 : Addr
  target2 : Addr
  log : AddrPoints
  file : List Char
  deriving DecidableEq

namespace TestingTargets

-- `MAX_READ_SIZE`.
def readSize : Nat := 256

-- A call of `fgets` whose result is not looked at: at the end of the file the buffer stays.
def nextLine (in_ file : List Char) : List Char × List Char :=
  (fgets readSize file).getD (in_, file)

-- `strncat`.
def strncat (text in_ : List Char) (size : Nat) : List Char := text ++ in_.take size

-- The copy that a rotation makes, with the running count of its characters.
structure Rotated where
  rotated : List Char := []
  written : Nat := 0
  log : AddrPoints

-- A line behind the copy; `none` is the failed assertion.
def Rotated.append (self : Rotated) (in_ : List Char) (size : Nat) : Option Rotated := do
  let written := self.written + in_.length
  guard (written < size)
  return { self with rotated := strncat self.rotated in_ readSize, written }

def Rotated.setMemoryAsSchedulingPoint (self : Rotated) (mem : List Char) : Rotated :=
  { self with
    log := { self.log with
      addressToSchedule :=
        AddrPoints.addAddressToSchedule self.log.addressToSchedule (strtoul mem) } }

-- The loop of `rotateInputFile`, which reads at least a character in every round.
def rotateLoop (size : Nat) : Nat → List Char → Rotated → Option Rotated
  | 0, _, rotated => some rotated
  | fuel + 1, file, rotated =>
      match fgets readSize file with
      | none => some rotated
      | some (in_, file) => do
          let rotated ← rotated.append in_ size
          let (in_, file) := nextLine in_ file
          let rotated ← (rotated.setMemoryAsSchedulingPoint in_).append in_ size
          let (in_, file) := nextLine in_ file
          let rotated ← (rotated.setMemoryAsSchedulingPoint in_).append in_ size
          rotateLoop size fuel file rotated

-- The last copy comes before its assertion; where that fails it has left the buffer. The call of
-- `sparsifyMemorySchedulingPoints` keeps one of one address, which is all of them.
def rotateInputFile (file read_token : List Char) (size : Nat) (log : AddrPoints) :
    Option (List Char × AddrPoints) := do
  let rotated ← rotateLoop size file.length file { log }
  let written := rotated.written + read_token.length
  guard (written < size)
  return (strncat rotated.rotated read_token (3 * readSize),
    { rotated.log with scheduleAll := false })

-- The first record as it is read: its text, the targets, and the rest of the file.
def setTargets (file : List Char) (size : Nat) :
    Option (List Char × Addr × Addr × List Char) := do
  let (string_in, file) := nextLine [] file
  guard ("LOCK".toList.isPrefixOf string_in ∨ "DATA".toList.isPrefixOf string_in)
  let result := string_in.take size
  let (string_in, file) := nextLine string_in file
  let target1 := strtoul string_in
  let result := strncat result string_in size
  let (string_in, file) := nextLine string_in file
  let target2 := strtoul string_in
  let result := strncat result string_in size
  -- a text that fills the buffer has written past it
  guard (result.length < size)
  return (result, target1, target2, file)

def setTestingTargets (log : AddrPoints) (file : List Char) : Option TestingTargets := do
  let (read_string, target1, target2, rest) ← setTargets file readSize
  let (out_string, log) ← rotateInputFile rest read_string 8192 log
  let addressToSchedule := AddrPoints.addAddressToSchedule
    (AddrPoints.addAddressToSchedule log.addressToSchedule target1) target2
  return { target1, target2, log := { log with addressToSchedule }, file := out_string }

-- Start-ups one after the other, each of them with the file that the one before it has left.
def startUps (log : AddrPoints) : Nat → List Char → Option (List (Addr × Addr) × List Char)
  | 0, file => some ([], file)
  | n + 1, file => do
      let started ← setTestingTargets log file
      let (targets, file) ← startUps log n started.file
      return ((started.target1, started.target2) :: targets, file)

theorem nextLine_line (in_ line text : List Char) (hline : Word line)
    (hfits : line.length ≤ 18) :
    nextLine in_ (line ++ '\n' :: text) = (line ++ ['\n'], text) := by
  rw [nextLine, fgets_line readSize line text hline.newline (by rw [readSize]; omega)]
  rfl

theorem take_line (line : List Char) (hfits : line.length ≤ 18) :
    (line ++ ['\n']).take readSize = line ++ ['\n'] := by
  refine List.take_of_length_le ?_
  rw [List.length_append, List.length_singleton, readSize]
  omega

theorem strncat_line (text line : List Char) (hfits : line.length ≤ 18) :
    strncat text (line ++ ['\n']) readSize = text ++ (line ++ ['\n']) := by
  rw [strncat, take_line line hfits]

end TestingTargets

namespace TargetRecord

open TestingTargets

-- The two instructions are addresses of the program.
structure Valid (x : TargetRecord) : Prop where
  left : x.record.left < 2 ^ 64
  right : x.record.right < 2 ^ 64

theorem word_kind (self : TargetRecord) : Word self.kind := by
  unfold kind
  split
  · decide
  · decide

theorem length_kind (self : TargetRecord) : self.kind.length = 4 := by
  unfold kind
  split
  · rfl
  · rfl

theorem length_lines (self : TargetRecord) :
    self.lines.length = (streamPointer self.record.left).length +
      (streamPointer self.record.right).length + 7 := by
  simp only [lines, List.length_append, List.length_cons, List.length_nil, self.length_kind]
  omega

theorem lines_append (self : TargetRecord) (text : List Char) :
    self.lines ++ text = self.kind ++ '\n' :: (streamPointer self.record.left ++ '\n' ::
      (streamPointer self.record.right ++ '\n' :: text)) := by
  simp [lines]

theorem setTargets_lines (self : TargetRecord) (hself : self.Valid) (text : List Char) :
    setTargets (self.lines ++ text) readSize =
      some (self.lines, self.record.left, self.record.right, text) := by
  have hleft := length_streamPointer _ hself.left
  have hright := length_streamPointer _ hself.right
  have hkind := self.length_kind
  have hprefix : "LOCK".toList.isPrefixOf (self.kind ++ ['\n']) ∨
      "DATA".toList.isPrefixOf (self.kind ++ ['\n']) := by
    unfold kind
    split
    · exact Or.inl rfl
    · exact Or.inr rfl
  have hresult : strncat (strncat ((self.kind ++ ['\n']).take readSize)
      (streamPointer self.record.left ++ ['\n']) readSize)
      (streamPointer self.record.right ++ ['\n']) readSize = self.lines := by
    rw [take_line _ (by omega), strncat_line _ _ hleft, strncat_line _ _ hright]
    simp [lines]
  have hfits : self.lines.length < readSize := by
    rw [self.length_lines, readSize]
    omega
  rw [lines_append, setTargets, nextLine_line _ _ _ self.word_kind (by omega)]
  dsimp only
  rw [nextLine_line _ _ _ (word_streamPointer _) hleft]
  dsimp only
  rw [nextLine_line _ _ _ (word_streamPointer _) hright]
  dsimp only
  rw [hresult, strtoul_streamPointer _ hself.left, strtoul_streamPointer _ hself.right]
  simp only [guard, if_pos hprefix, if_pos hfits, Option.pure_def, Option.bind_eq_bind,
    Option.bind_some]

end TargetRecord

namespace TestingTargets

-- What the loop adds to the log for a record.
def addTargets (log : AddrPoints) (x : TargetRecord) : AddrPoints :=
  { log with
    addressToSchedule := AddrPoints.addAddressToSchedule
      (AddrPoints.addAddressToSchedule log.addressToSchedule x.record.left) x.record.right }

theorem append_eq (self : Rotated) (in_ : List Char) (size : Nat) :
    self.append in_ size =
      if self.written + in_.length < size then
        some { self with
          rotated := strncat self.rotated in_ readSize, written := self.written + in_.length }
      else none := by
  by_cases hroom : self.written + in_.length < size
  · simp [Rotated.append, guard, hroom]
  · simp [Rotated.append, guard, hroom]

-- A round of the loop takes a record, where there is room for it.
theorem rotateLoop_lines (size fuel : Nat) (x : TargetRecord) (hx : x.Valid) (text : List Char)
    (self : Rotated) :
    rotateLoop size (fuel + 1) (x.lines ++ text) self =
      if self.written + x.lines.length < size then
        rotateLoop size fuel text
          { rotated := self.rotated ++ x.lines, written := self.written + x.lines.length,
            log := addTargets self.log x }
      else none := by
  have hleft := length_streamPointer _ hx.left
  have hright := length_streamPointer _ hx.right
  have hkind := x.length_kind
  have hlength := x.length_lines
  have hread : fgets readSize (x.kind ++ '\n' :: (streamPointer x.record.left ++ '\n' ::
      (streamPointer x.record.right ++ '\n' :: text))) = some (x.kind ++ ['\n'],
      streamPointer x.record.left ++ '\n' :: (streamPointer x.record.right ++ '\n' :: text)) :=
    fgets_line readSize _ _ x.word_kind.newline (by rw [readSize]; omega)
  rw [TargetRecord.lines_append, rotateLoop, hread]
  dsimp only
  rw [nextLine_line _ _ _ (word_streamPointer _) hleft]
  dsimp only
  rw [nextLine_line _ _ _ (word_streamPointer _) hright]
  dsimp only [Rotated.setMemoryAsSchedulingPoint]
  simp only [append_eq, List.length_append, List.length_singleton]
  by_cases hfits : self.written + x.lines.length < size
  · rw [if_pos hfits, if_pos (by omega)]
    simp only [Option.bind_eq_bind, Option.bind_some]
    rw [if_pos (by omega)]
    simp only [Option.bind_some]
    rw [if_pos (by omega)]
    simp only [Option.bind_some]
    rw [strncat_line _ _ hleft, strncat_line _ _ hright, strncat_line _ x.kind (by omega),
      strtoul_streamPointer _ hx.left, strtoul_streamPointer _ hx.right]
    congr 1
    simp only [addTargets, Rotated.mk.injEq, and_true]
    refine ⟨?_, ?_⟩
    · simp [TargetRecord.lines]
    · omega
  · -- the third line at the latest does not fit
    rw [if_neg hfits]
    by_cases hfirst : self.written + (x.kind.length + 1) < size
    · rw [if_pos hfirst]
      simp only [Option.bind_eq_bind, Option.bind_some]
      by_cases hsecond : self.written + (x.kind.length + 1) +
          ((streamPointer x.record.left).length + 1) < size
      · rw [if_pos hsecond]
        simp only [Option.bind_some]
        rw [if_neg (by omega)]
        rfl
      · rw [if_neg hsecond]
        rfl
    · rw [if_neg hfirst]
      rfl

theorem rotateLoop_records (size fuel : Nat) (records : List TargetRecord)
    (hrecords : ∀ x ∈ records, x.Valid) (self : Rotated)
    (hfuel : (records.flatMap TargetRecord.lines).length ≤ fuel) (hroom : self.written < size) :
    rotateLoop size fuel (records.flatMap TargetRecord.lines) self =
      if self.written + (records.flatMap TargetRecord.lines).length < size then
        some { rotated := self.rotated ++ records.flatMap TargetRecord.lines,
               written := self.written + (records.flatMap TargetRecord.lines).length,
               log := records.foldl addTargets self.log }
      else none := by
  induction records generalizing fuel self with
  | nil =>
      rw [List.flatMap_nil, List.length_nil, Nat.add_zero, if_pos hroom, List.append_nil]
      cases fuel with
      | zero => rfl
      | succ fuel => rfl
  | cons x records ih =>
      have hx := hrecords x List.mem_cons_self
      have hlength := x.length_lines
      rw [List.flatMap_cons, List.length_append] at hfuel ⊢
      obtain ⟨fuel, rfl⟩ : ∃ k, fuel = k + 1 := ⟨fuel - 1, by omega⟩
      rw [rotateLoop_lines size fuel x hx]
      by_cases hfits : self.written + x.lines.length < size
      · rw [if_pos hfits, ih fuel (fun y hy => hrecords y (List.mem_cons_of_mem x hy)) _ (by omega)
          hfits]
        simp only [List.append_assoc, List.foldl_cons, Nat.add_assoc]
      · rw [if_neg hfits, if_neg (by omega)]

-- One start-up: what it takes and leaves, where the whole file fits its buffer.
theorem setTestingTargets_records (log : AddrPoints) (x : TargetRecord)
    (records : List TargetRecord) (hx : x.Valid) (hrecords : ∀ y ∈ records, y.Valid) :
    setTestingTargets log ((x :: records).flatMap TargetRecord.lines) =
      if ((x :: records).flatMap TargetRecord.lines).length < 8192 then
        some { target1 := x.record.left, target2 := x.record.right,
               log := addTargets { records.foldl addTargets log with scheduleAll := false } x,
               file := (records ++ [x]).flatMap TargetRecord.lines }
      else none := by
  have hleft := length_streamPointer _ hx.left
  have hright := length_streamPointer _ hx.right
  have hlength := x.length_lines
  have hkept : x.lines.take (3 * readSize) = x.lines := by
    refine List.take_of_length_le ?_
    rw [readSize]
    omega
  rw [List.flatMap_cons, List.length_append, setTestingTargets, x.setTargets_lines hx]
  simp only [Option.bind_eq_bind, Option.bind_some, rotateInputFile]
  rw [rotateLoop_records 8192 _ records hrecords _ (Nat.le_refl _)
    (Nat.succ_pos 8191)]
  simp only [Nat.zero_add, List.nil_append]
  by_cases hrest : (records.flatMap TargetRecord.lines).length < 8192
  · rw [if_pos hrest]
    simp only [Option.bind_some, strncat, hkept]
    by_cases hfits : x.lines.length + (records.flatMap TargetRecord.lines).length < 8192
    · rw [if_pos hfits, guard, if_pos (by omega)]
      simp [addTargets]
    · rw [if_neg hfits, guard, if_neg (by omega)]
      rfl
  · rw [if_neg hrest, if_neg (by omega)]
    rfl

theorem setTestingTargets_long (log : AddrPoints) (records : List TargetRecord) (hne : records ≠ [])
    (hrecords : ∀ x ∈ records, x.Valid)
    (hlong : 8192 ≤ (records.flatMap TargetRecord.lines).length) :
    setTestingTargets log (records.flatMap TargetRecord.lines) = none := by
  obtain ⟨x, rest, rfl⟩ := List.exists_cons_of_ne_nil hne
  rw [setTestingTargets_records log x rest (hrecords x List.mem_cons_self)
    (fun y hy => hrecords y (List.mem_cons_of_mem x hy)), if_neg (by omega)]

theorem length_rotated (x : TargetRecord) (rest : List TargetRecord) :
    ((rest ++ [x]).flatMap TargetRecord.lines).length =
      ((x :: rest).flatMap TargetRecord.lines).length := by
  simp [Nat.add_comm]

-- Start-ups for the records of `front`, which end up behind the others.
theorem startUps_append (log : AddrPoints) (front back : List TargetRecord)
    (hvalid : ∀ x ∈ front ++ back, x.Valid)
    (hfits : ((front ++ back).flatMap TargetRecord.lines).length < 8192) :
    startUps log front.length ((front ++ back).flatMap TargetRecord.lines) =
      some (front.map TargetRecord.targets, (back ++ front).flatMap TargetRecord.lines) := by
  induction front generalizing back with
  | nil => simp [startUps]
  | cons x front ih =>
      have hx := hvalid x List.mem_cons_self
      have hothers : ∀ y ∈ front ++ back, y.Valid :=
        fun y hy => hvalid y (List.mem_cons_of_mem x hy)
      rw [List.cons_append] at hfits ⊢
      have hrest := ih (back ++ [x])
        (fun y hy => by
          rw [← List.append_assoc, List.mem_append, List.mem_singleton] at hy
          rcases hy with hy | rfl
          · exact hothers y hy
          · exact hx)
        (by rw [← List.append_assoc, length_rotated]; exact hfits)
      rw [← List.append_assoc] at hrest
      rw [List.length_cons, startUps, setTestingTargets_records log x _ hx hothers, if_pos hfits]
      simp only [Option.bind_eq_bind, Option.bind_some, hrest]
      simp [TargetRecord.targets]

-- The file that a race detector has written is rotated once through, where it fits the buffer.
theorem startUps_dumpRaces_iff (self : RaceReporter) (log : AddrPoints) (hne : self.records ≠ [])
    (hvalid : ∀ x ∈ self.records, x.Valid) :
    ((∀ k x rest, self.records.rotate k = x :: rest →
        ∃ started, setTestingTargets log ((x :: rest).flatMap TargetRecord.lines) = some started ∧
          started.target1 = x.record.left ∧ started.target2 = x.record.right ∧
          started.file = (rest ++ [x]).flatMap TargetRecord.lines) ∧
      startUps log self.records.length self.dumpRaces =
        some (self.records.map TargetRecord.targets, self.dumpRaces)) ↔
    self.dumpRaces.length < 8192 := by
  constructor
  · rintro ⟨hstart, -⟩
    obtain ⟨x, rest, hrecords⟩ := List.exists_cons_of_ne_nil hne
    obtain ⟨started, hstarted, -⟩ := hstart 0 x rest (by rw [List.rotate_zero, hrecords])
    rw [← hrecords] at hstarted
    by_contra hlong
    rw [setTestingTargets_long log self.records hne hvalid (by rw [← RaceReporter.dumpRaces]; omega)]
      at hstarted
    cases hstarted
  · intro hfits
    refine ⟨fun k x rest hrotate => ?_, ?_⟩
    · have hperm : (x :: rest).Perm self.records := hrotate ▸ List.rotate_perm self.records k
      have hlength : ((x :: rest).flatMap TargetRecord.lines).length < 8192 := by
        rw [(hperm.flatMap_right TargetRecord.lines).length_eq]
        exact hfits
      have hrotated : ∀ y ∈ x :: rest, y.Valid := fun y hy => hvalid y (hperm.mem_iff.mp hy)
      rw [setTestingTargets_records log x rest (hrotated x List.mem_cons_self)
        (fun y hy => hrotated y (List.mem_cons_of_mem x hy)), if_pos hlength]
      exact ⟨_, rfl, rfl, rfl, rfl⟩
    · have hall := startUps_append log self.records [] (by rwa [List.append_nil])
        (by rwa [List.append_nil])
      rwa [List.append_nil, List.nil_append] at hall

-- A data race and a lock race, tested in two start-ups.
theorem startUps_dumpRaces_two :
    let tracker : RaceReporter :=
      { ModifiedRaceTracker.new 8 8 with
        foundraces := [⟨0x4005f4, 0x400610⟩], foundlockraces := [⟨0, 0x400700⟩] }
    startUps {} 2 tracker.dumpRaces =
      some ([(0x4005f4, 0x400610), (0, 0x400700)], tracker.dumpRaces) := by
  intro tracker
  have hlength : tracker.dumpRaces.length < 8192 := by decide +kernel
  have hvalid : ∀ x ∈ tracker.records, x.Valid := by
    intro x hx
    rcases List.mem_pair.mp hx with rfl | rfl
    · exact ⟨by decide, by decide⟩
    · exact ⟨by decide, by decide⟩
  exact ((startUps_dumpRaces_iff tracker {} (List.cons_ne_nil _ _) hvalid).mpr hlength).2

-- Races between 432 pairs of instructions are more than the buffer holds.
def manyRaces : RaceReporter :=
  { ModifiedRaceTracker.new 8 8 with
    foundraces := (List.range 432).map fun i => ⟨0x1000 + i, 0x2000 + i⟩ }

theorem setTestingTargets_manyRaces :
    manyRaces.records ≠ [] ∧ (∀ x ∈ manyRaces.records, x.Valid) ∧
      setTestingTargets {} manyRaces.dumpRaces = none := by
  have hne : manyRaces.records ≠ [] := by decide +kernel
  have hvalid : ∀ x ∈ manyRaces.records, x.Valid := by
    intro x hx
    simp only [RaceReporter.records, manyRaces, List.map_nil, List.append_nil, List.mem_map,
      List.mem_range] at hx
    obtain ⟨_, ⟨i, hi, rfl⟩, rfl⟩ := hx
    have hleft : (0x1000 + i : Nat) < 2 ^ 64 := by omega
    have hright : (0x2000 + i : Nat) < 2 ^ 64 := by omega
    exact ⟨hleft, hright⟩
  refine ⟨hne, hvalid, setTestingTargets_long {} manyRaces.records hne hvalid ?_⟩
  decide +kernel

end TestingTargets

end Thrille
