import Thrille.Files.Reader

namespace Thrille

open Text

namespace Schedule

-- `none` where a name is `None`, which cannot be written.
def outputScheduleStep (step : RelaxedStep) : Option (List Char) := do
  let sched ← step.sched
  let sig ← step.sig.mapM id
  return sched.toList ++ ':' :: (decimal step.times ++ '\n' ::
    (step.addr.toList ++ ':' :: (decimal step.skip ++ '\n' ::
      ((sig.flatMap fun x => x.toList ++ [' ']) ++ ['#', '#', '\n']))))

-- The file of `outputRelaxedSchedule`.
def relaxedFile (self : Schedule) : Option (List Char) := do
  let steps ← self.outputRelaxedSchedule
  let blocks ← steps.mapM outputScheduleStep
  return self.outputAddrlist ++ blocks.flatten

end Schedule

structure RelaxedSchedStruct where
  current : Int
  max : Int
  addr : Addr
  pass : Int
  signals : List Int
  deriving DecidableEq, Repr

namespace RelaxedLogger

-- `in.substr(0, in.find(":"))`, and `in.substr(in.find(":") + 1, in.size())`, which is the whole
-- text where there is no colon.
def beforeColon (text : List Char) : List Char := text.takeWhile (· != ':')

def afterColon (text : List Char) : List Char :=
  if ':' ∈ text then (text.dropWhile (· != ':')).tail else text

def isSignalsEnd (continuation : List Char) : Bool :=
  startsWith "##" continuation || startsWith " ##" continuation

-- The loop over the signals; `none` where it is not over after so many turns.
def readSignals : Nat → List Char → Option (List Int)
  | 0, _ => none
  | turns + 1, continuation => do
      let (sig, continuation) := strtol continuation
      if isSignalsEnd continuation then return [sig.bmod (2 ^ 32)]
      let signals ← readSignals turns continuation
      return sig.bmod (2 ^ 32) :: signals

def readSignalLine (turns : Nat) (line : List Char) : Option (List Int) :=
  if isSignalsEnd line then some [] else readSignals turns line

-- At the end of the file the buffer keeps what it holds.
def nextLine (tmp readfile : List Char) : List Char × List Char :=
  (fgets MAX_READ_SIZE readfile).getD (tmp, readfile)

-- `none` is a loop that is not over after so many turns.
def reconstituteRelaxedSchedule : Nat → List Char → Option (List RelaxedSchedStruct)
  | 0, _ => none
  | turns + 1, readfile =>
      match Logger.isReadfileEnd readfile with
      | none => some []
      | some (tmp, readfile) => do
          let (addrLine, readfile) := nextLine tmp readfile
          let (signalLine, readfile) := nextLine addrLine readfile
          let signals ← readSignalLine turns signalLine
          let relaxed_schedule ← reconstituteRelaxedSchedule turns readfile
          return { current := atoi (beforeColon tmp), max := atoi (afterColon tmp)
                   addr := strtoul (beforeColon addrLine), pass := atoi (afterColon addrLine)
                   signals } :: relaxed_schedule

-- What the constructor reads.
def readLog (turns : Nat) (readfile : List Char) :
    Option (AddrPoints × List RelaxedSchedStruct) := do
  let (points, readfile) ← Logger.setSchedulableAddresses turns readfile
  let relaxed_schedule ← reconstituteRelaxedSchedule turns readfile
  return (points, relaxed_schedule)

end RelaxedLogger

end Thrille
