import Thrille.Serializer.Types

namespace Thrille

-- `map<thrID, int>`, counting without a bound; a message is a clock.
abbrev VectorClock := ThrMap Nat

structure VectorClockTracker where
  vcs : ThrMap VectorClock
  messagemap : Std.TreeMap Addr VectorClock := ∅

namespace VectorClockTracker

-- The tracker as the constructor leaves it.
def new : VectorClockTracker where
  vcs := (∅ : ThrMap VectorClock).insert 0 ((∅ : VectorClock).insert 0 1)

def incrementMyClock (self : VectorClockTracker) (id : ThrID) : VectorClockTracker :=
  let myclock := self.vcs.getD id ∅
  let currentClock := myclock.getD id 0 + 1
  { self with vcs := self.vcs.insert id (myclock.insert id currentClock) }

-- The loop of `receiveMessage` over the entries of the message.
def receiveEntries (newvc : VectorClock) (msg : List (ThrID × Nat)) : VectorClock :=
  msg.foldl
    (fun newvc entry =>
      match newvc[entry.1]? with
      | some time => newvc.insert entry.1 (if entry.2 < time then time else entry.2)
      | none => newvc.insert entry.1 entry.2) newvc

def receiveMessage (self : VectorClockTracker) (thr : ThrID) (msg : VectorClock) :
    VectorClockTracker :=
  { self with vcs := self.vcs.insert thr (receiveEntries (self.vcs.getD thr ∅) msg.toList) }

def getVectorClock (self : VectorClockTracker) (thr : ThrID) : VectorClock := self.vcs.getD thr ∅

def isHappensBefore (before after : VectorClock) : Bool :=
  before.toList.all fun entry => !decide (after.getD entry.1 0 < entry.2)

def afterJoin (self : VectorClockTracker) (me thrjoined : ThrID) : VectorClockTracker :=
  self.receiveMessage me (self.vcs.getD thrjoined ∅)

def beforeSignal (self : VectorClockTracker) (me : ThrID) (cond : Addr) : VectorClockTracker :=
  let newvc := self.vcs.getD me ∅
  { self with messagemap := self.messagemap.insert cond newvc }.incrementMyClock me

def afterWait (self : VectorClockTracker) (me : ThrID) (cond : Addr) : VectorClockTracker :=
  self.receiveMessage me (self.messagemap.getD cond ∅)

def beforeCreate (self : VectorClockTracker) (me child : ThrID) : VectorClockTracker :=
  let mine := self.vcs.getD me ∅
  ({ self with vcs := self.vcs.insert child mine }.incrementMyClock me).incrementMyClock child

-- One call to the tracker. An access records the clock of its thread and changes nothing.
inductive Op
  | beforeCreate (me child : ThrID)
  | afterJoin (me thrjoined : ThrID)
  | beforeSignal (me : ThrID) (cond : Addr)
  | afterWait (me : ThrID) (cond : Addr)
  | access (me : ThrID)
  deriving DecidableEq, Repr

def Op.me : Op → ThrID
  | beforeCreate me _ => me
  | afterJoin me _ => me
  | beforeSignal me _ => me
  | afterWait me _ => me
  | access me => me

def Op.creates : Op → Option ThrID
  | beforeCreate _ child => some child
  | _ => none

def Op.joins : Op → Option ThrID
  | afterJoin _ thrjoined => some thrjoined
  | _ => none

def Op.signals : Op → Option Addr
  | beforeSignal _ cond => some cond
  | _ => none

def Op.waits : Op → Option Addr
  | afterWait _ cond => some cond
  | _ => none

def apply (self : VectorClockTracker) : Op → VectorClockTracker
  | .beforeCreate me child => self.beforeCreate me child
  | .afterJoin me thrjoined => self.afterJoin me thrjoined
  | .beforeSignal me cond => self.beforeSignal me cond
  | .afterWait me cond => self.afterWait me cond
  | .access _ => self

-- The tracker right before the `n`-th operation, and the clock that an access records there.
def stateAt (ops : List Op) (n : Nat) : VectorClockTracker := (ops.take n).foldl apply new

def clockAt (ops : List Op) (n : Nat) (thr : ThrID) : VectorClock :=
  (stateAt ops n).getVectorClock thr

end VectorClockTracker

end Thrille
