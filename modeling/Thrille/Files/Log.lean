import Thrille.Lib.Text
import Thrille.Schedule
import Thrille.Serializer.Logger

namespace Thrille

open Text

-- A line `name:value`.
def field (name : String) (value : List Char) : List Char :=
  name.toList ++ ':' :: (value ++ ['\n'])

-- Every thread of a list is followed by a comma.
def threadList (threads : List ThrID) : List Char :=
  threads.flatMap fun thr => decimal thr ++ [',']

def DecisionInfo.printToFile : DecisionInfo → List Char
  | sched chosen caller description idaddr enabled =>
      "SCHED".toList ++ '\n' :: (field "chosen" (decimal chosen) ++
        (field "caller" (decimal caller) ++ (field "typstr" description.toList ++
          (field "idaddr" (pointer idaddr) ++ field "enable" (threadList enabled)))))
  | signal chosen caller idaddr cond oncond =>
      "SIGNAL".toList ++ '\n' :: (field "signalled" (decimal chosen) ++
        (field "caller" (decimal caller) ++ (field "idaddr" (pointer idaddr) ++
          (field "cond" (pointer cond) ++ field "oncond" (threadList oncond)))))

-- The addresses at which a run schedules.
structure AddrPoints where
  scheduleAll : Bool := false
  addressToSchedule : List Addr := []
  deriving DecidableEq, Repr

def AddrPoints.record (self : AddrPoints) : List Char :=
  "begin_addr_list".toList ++ '\n' :: ((if self.scheduleAll then "all".toList ++ ['\n']
    else self.addressToSchedule.flatMap fun addr => pointer addr ++ ['\n']) ++
      ("end_addr_list".toList ++ ['\n']))

-- The last line of a log.
inductive Final
  | endLog
  | assertFail (file cond : List Char)
  | programAssertFail (myself : ThrID) (ret_addr : Addr)
  | programDeadlock
  | segfault (myself : ThrID)
  deriving DecidableEq, Repr

def Final.print : Final → List Char
  | endLog => "end_log".toList ++ ['\n']
  | assertFail file cond =>
      "thrille assert fail ".toList ++ ((file.reverse.takeWhile (· != '/')).reverse ++
        ' ' :: (cond ++ ['\n']))
  | programAssertFail myself ret_addr =>
      "program assert fail [".toList ++ (decimal myself ++ ']' :: ' ' ::
        (pointer ret_addr ++ ['\n']))
  | programDeadlock => "program deadlock".toList ++ ['\n']
  | segfault myself => "segfault thread ".toList ++ (decimal myself ++ ['\n'])

def Logger.printCurrentScheduleToFile (self : Logger) (points : AddrPoints) : List Char :=
  points.record ++ self.schedule.flatMap DecisionInfo.printToFile

namespace Schedule

def nameList (names : List Name) : Option (List Char) := do
  let names ← names.mapM id
  return names.flatMap fun name => name.toList ++ [',']

-- `none` where a name is `None`, which cannot be written.
def outputSignal (x : SchedulePoint) (info : SignalInfo) : Option (List Char) := do
  let signalled ← info.signalled
  let caller ← x.caller
  let oncond ← nameList info.oncond
  return "SIGNAL".toList ++ '\n' :: (field "signalled" signalled.toList ++
    (field "caller" caller.toList ++ (field "idaddr" x.addr.toList ++
      (field "cond" "python_gen".toList ++ field "oncond" oncond))))

def outputSched (x : SchedulePoint) : Option (List Char) := do
  let chosen ← x.chosen
  let caller ← x.caller
  let enabled ← nameList x.enabled
  return "SCHED".toList ++ '\n' :: (field "chosen" chosen.toList ++
    (field "caller" caller.toList ++ (field "typstr" x.type.toList ++
      (field "idaddr" x.addr.toList ++ field "enable" enabled))))

-- One turn of the loop of `outputExactSchedule`.
def outputExactPoint (x : SchedulePoint) : Option (List Char) :=
  match x.signal with
  | none => outputSched x
  | some info => do
      let signal ← outputSignal x info
      if x.chosen.isNone then return signal
      let sched ← outputSched x
      return signal ++ sched

def outputAddrlist (self : Schedule) : List Char :=
  "begin_addr_list".toList ++ '\n' :: ((self.addrlist.flatMap fun x => x.toList ++ ['\n']) ++
    ("end_addr_list".toList ++ ['\n']))

def outputExactSchedule (self : Schedule) : Option (List Char) := do
  let points ← self.schedule.mapM outputExactPoint
  return self.outputAddrlist ++ (points.flatten ++ "end_log".toList)

end Schedule

end Thrille
