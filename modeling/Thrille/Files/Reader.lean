import Thrille.Files.Log

namespace Thrille

open Text

def MAX_READ_SIZE : Nat := 256

-- `strncmp` with the length of the word.
def startsWith (word : String) (line : List Char) : Bool := word.toList.isPrefixOf line

-- What `read_schedule` keeps of an entry.
inductive ReadInfo
  | sched (chosen caller : Int) (description : List Char) (idaddr : Addr)
  | signal (chosen caller : Int) (idaddr cond : Addr)
  deriving DecidableEq, Repr

namespace Logger

-- The blanks run over the end of the buffer where there is no colon.
def setWhitespaceToColon (line : List Char) : Option (List Char) :=
  if ':' ∈ line then
    some (List.replicate (line.idxOf ':' + 1) ' ' ++ line.drop (line.idxOf ':' + 1))
  else none

-- The next line with the name of its field blanked out.
def nextValue (readfile : List Char) : Option (List Char × List Char) := do
  let (line, readfile) ← fgets MAX_READ_SIZE readfile
  let line ← setWhitespaceToColon line
  return (line, readfile)

def parseNextReadfileLineAsThrID (readfile : List Char) : Option (Int × List Char) := do
  let (line, readfile) ← nextValue readfile
  return (atoi line, readfile)

def parseNextReadfileLineAsCharStar (readfile : List Char) : Option (List Char × List Char) := do
  let (line, readfile) ← nextValue readfile
  return (strip line, readfile)

def parseNextReadfileLineAsVoidStar (readfile : List Char) : Option (Addr × List Char) := do
  let (s, readfile) ← parseNextReadfileLineAsCharStar readfile
  return (strtoul s, readfile)

def clearLineFromReadfile (readfile : List Char) : List Char :=
  ((fgets MAX_READ_SIZE readfile).map Prod.snd).getD readfile

-- `none` at the end of the log, else the token.
def isReadfileEnd (readfile : List Char) : Option (List Char × List Char) := do
  let (token, readfile) ← fgets MAX_READ_SIZE readfile
  guard !(startsWith "end_log" token || startsWith "thrille assert" token ||
    startsWith "program deadlock" token || startsWith "segfault" token ||
    startsWith "program assert" token)
  return (token, readfile)

def reconstituteSched (readfile : List Char) : Option (ReadInfo × List Char) := do
  let (chosen, readfile) ← parseNextReadfileLineAsThrID readfile
  let (caller, readfile) ← parseNextReadfileLineAsThrID readfile
  let (desc, readfile) ← parseNextReadfileLineAsCharStar readfile
  let (idaddr, readfile) ← parseNextReadfileLineAsVoidStar readfile
  return (.sched chosen caller desc idaddr, clearLineFromReadfile readfile)

def reconstituteSignal (readfile : List Char) : Option (ReadInfo × List Char) := do
  let (chosen, readfile) ← parseNextReadfileLineAsThrID readfile
  let (caller, readfile) ← parseNextReadfileLineAsThrID readfile
  let (idaddr, readfile) ← parseNextReadfileLineAsVoidStar readfile
  let (cond, readfile) ← parseNextReadfileLineAsVoidStar readfile
  return (.signal chosen caller idaddr cond, clearLineFromReadfile readfile)

-- One turn of the loop, behind its token.
def reconstituteEntry (token readfile : List Char) : Option (ReadInfo × List Char) :=
  if startsWith "SCHED" token then reconstituteSched readfile
  else do
    guard (startsWith "SIGNAL" token)
    reconstituteSignal readfile

-- `none` is a failed assertion, or a loop that is not over after so many turns.
def reconstituteSchedule : Nat → List Char → Option (List ReadInfo)
  | 0, _ => none
  | turns + 1, readfile =>
      match isReadfileEnd readfile with
      | none => some []
      | some (token, readfile) => do
          let (info, readfile) ← reconstituteEntry token readfile
          let read_schedule ← reconstituteSchedule turns readfile
          return info :: read_schedule

-- The loop of `setSchedulableAddresses`.
def readAddresses : Nat → List Char → Option (AddrPoints × List Char)
  | 0, _ => none
  | turns + 1, readfile => do
      let (line, readfile) ← fgets MAX_READ_SIZE readfile
      if startsWith "end_addr_list" line then return ({}, readfile)
      if startsWith "all" line then
        let (line, readfile) ← fgets MAX_READ_SIZE readfile
        guard (startsWith "end_addr_list" line)
        return ({ scheduleAll := true }, readfile)
      let (points, readfile) ← readAddresses turns readfile
      return ({ points with addressToSchedule := strtoul line :: points.addressToSchedule },
        readfile)

def setSchedulableAddresses (turns : Nat) (readfile : List Char) :
    Option (AddrPoints × List Char) := do
  let (line, readfile) ← fgets MAX_READ_SIZE readfile
  guard (startsWith "begin_addr_list" line)
  readAddresses turns readfile

-- What the constructor reads.
def readLog (turns : Nat) (readfile : List Char) : Option (AddrPoints × List ReadInfo) := do
  let (points, readfile) ← setSchedulableAddresses turns readfile
  let read_schedule ← reconstituteSchedule turns readfile
  return (points, read_schedule)

end Logger

end Thrille
