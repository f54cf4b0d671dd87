import Thrille.Serializer.Types

namespace Thrille

-- `DecisionInfo` and its two subclasses.
inductive DecisionInfo
  | sched (chosen caller : ThrID) (description : String) (idaddr : Addr) (enabled : List ThrID)
  | signal (chosen caller : ThrID) (idaddr cond : Addr) (oncond : List ThrID)
  deriving DecidableEq, Repr

namespace DecisionInfo

def getChosen : DecisionInfo → ThrID
  | sched chosen .. => chosen
  | signal chosen .. => chosen

def getCaller : DecisionInfo → ThrID
  | sched _ caller .. => caller
  | signal _ caller .. => caller

def isSched : DecisionInfo → Bool
  | sched .. => true
  | signal .. => false

def changeSpacesToUnderscores (my_str : String) : String :=
  my_str.map fun c => if c = ' ' then '_' else c

end DecisionInfo

-- The entries of a `map<thrID, T *>` that are not NULL.
abbrev PtrMap := ThrMap Addr

-- The threads that a loop over the whole map finds at an address, in the order of the loop.
def PtrMap.threadsAt (map : PtrMap) (addr : Addr) : List ThrID :=
  (map.toList.filter fun entry => entry.2 == addr).map Prod.fst

structure SignalPointInfo where
  ret_addr : Addr
  isBroadcast : Bool
  thread : ThrID
  cond : Addr
  cond_map : PtrMap

structure Logger where
  schedule : List DecisionInfo := []
  read_schedule : List DecisionInfo := []

namespace Logger

def getNextChoice (self : Logger) : Option ThrID × Logger :=
  match self.read_schedule with
  | [] => (none, self)
  | d :: rest => (some d.getChosen, { self with read_schedule := rest })

def getNextSignalChoice (self : Logger) : Option ThrID × Logger := self.getNextChoice

def getNextScheduleChoice (self : Logger) : Option ThrID × Logger := self.getNextChoice

def enabledThreads (enabled : ThrMap Bool) : List ThrID :=
  (enabled.toList.filter fun entry => entry.2).map Prod.fst

def scheduling (self : Logger) (target : ThrID) (s : SchedPointInfo) : Logger :=
  { self with
    schedule := self.schedule ++ [.sched target s.thread
      (DecisionInfo.changeSpacesToUnderscores s.type) s.ret_addr (enabledThreads s.enabled)] }

-- The record as `fairScheduling` shows it to `scheduling`; the saved map is put back afterwards.
def fairScheduled (s : SchedPointInfo) : SchedPointInfo := { s with enabled := s.fenmap }

def fairScheduling (self : Logger) (target : ThrID) (s : SchedPointInfo) : Logger :=
  self.scheduling target (fairScheduled s)

-- A broadcast is not logged.
def signalScheduling (self : Logger) (target : ThrID) (s : SignalPointInfo) : Logger :=
  if s.isBroadcast then self
  else { self with
    schedule := self.schedule ++ [.signal target s.thread s.ret_addr s.cond
      (s.cond_map.threadsAt s.cond)] }

end Logger

end Thrille
