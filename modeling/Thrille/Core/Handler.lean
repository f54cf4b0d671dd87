import Mathlib.Logic.Function.Basic
import Thrille.Core.ThreadTracker

namespace Thrille

-- The threads in the order in which the system made them. This is not an id of the tool.
abbrev Thread := Nat

-- Where a thread is between two steps.
inductive Place
  | unborn
  | my_start_routine
  | program
  -- in `thrille_create`
  | getNextTID
  | returnTID
  | beforeCreate (child_id : Int)
  | clearStart (child_id : Int)
  | pthread_create (child_id : Int)
  | awaitStart (child_id : Int)
  -- in `thrille_join`
  | pthread_join (target : Thread)
  | afterJoin (target : Thread)
  | finished
  | joined
  deriving DecidableEq, Repr

-- A step: a section under a mutex, a statement outside of one, or what the program and the system
-- decide.
inductive Action
  | thrille_create
  | getNextTID
  | returnTID
  | beforeCreate
  | clearStart
  | pthread_create (newthread : Option Handle)
  | awaitStart
  | my_start_routine
  | thrille_join (target : Thread)
  | pthread_join
  | afterJoin
  | finish
  deriving DecidableEq, Repr

structure Handler where
  threadtracker : ThreadTracker
  thread_start_map : Int → Bool := fun _ => false
  places : Thread → Place
  -- the handle of a thread, and the `tid` that its `my_start_routine` is given
  handles : Thread → Handle
  tids : Thread → Int
  made : Nat := 1
  -- what `getNextTID` has returned so far
  given : List Int

namespace Handler

-- The constructor registers the thread that runs it.
def initial (handle : Handle) : Handler :=
  let threadtracker := ({} : ThreadTracker).getNextTID
  let myself := threadtracker.curr_id
  { threadtracker := threadtracker.setTID myself handle
    places := fun t => if t = 0 then .program else .unborn
    handles := fun _ => handle
    tids := fun _ => myself
    given := [myself] }

variable (self : Handler) (t : Thread)

def goto (place : Place) : Handler := { self with places := Function.update self.places t place }

@[simp] theorem goto_places (place : Place) :
    (self.goto t place).places = Function.update self.places t place := rfl

def getThrID : Option Int := self.threadtracker.translateHandleToTID (self.handles t)

-- A handle is free again when its thread is joined.
def isFree (handle : Handle) : Bool :=
  (List.range self.made).all fun u => self.handles u != handle || self.places u == .joined

-- The new thread, when `pthread_create` makes one.
def make (child_id : Int) (handle : Handle) : Handler :=
  { self with
    places := Function.update self.places self.made .my_start_routine
    handles := Function.update self.handles self.made handle
    tids := Function.update self.tids self.made child_id
    made := self.made + 1 }

-- `while (!thread_start_map[child_id])`, where the signals may wake a waiting thread at any time.
def pastStart (child_id : Int) : Place :=
  if self.thread_start_map child_id then .program else .awaitStart child_id

def step (action : Action) : Option Handler :=
  match action, self.places t with
  | .thrille_create, .program => some (self.goto t .getNextTID)
  | .getNextTID, .getNextTID =>
      some ({ self with threadtracker := self.threadtracker.getNextTID }.goto t .returnTID)
  | .returnTID, .returnTID =>
      let child_id := self.threadtracker.curr_id
      some ({ self with given := self.given ++ [child_id] }.goto t (.beforeCreate child_id))
  | .beforeCreate, .beforeCreate child_id => do
      -- the race detector's `BeforeCreate` asks for the id of its thread
      let _ ← self.getThrID t
      return self.goto t (.clearStart child_id)
  | .clearStart, .clearStart child_id =>
      some ({ self with
        thread_start_map := Function.update self.thread_start_map child_id false
        }.goto t (.pthread_create child_id))
  | .pthread_create none, .pthread_create child_id =>
      some (self.goto t (self.pastStart child_id))
  | .pthread_create (some handle), .pthread_create child_id => do
      guard (self.isFree handle)
      return (self.make child_id handle).goto t (self.pastStart child_id)
  | .awaitStart, .awaitStart child_id => do
      guard (self.thread_start_map child_id)
      return self.goto t .program
  | .my_start_routine, .my_start_routine =>
      some ({ self with
        threadtracker := self.threadtracker.setTID (self.tids t) (self.handles t)
        thread_start_map := Function.update self.thread_start_map (self.tids t) true
        }.goto t .program)
  | .thrille_join target, .program => do
      guard (target < self.made && self.places target != .joined)
      return self.goto t (.pthread_join target)
  | .pthread_join, .pthread_join target => do
      guard (self.places target == .finished)
      return (self.goto target .joined).goto t (.afterJoin target)
  | .afterJoin, .afterJoin target => do
      let _ ← self.threadtracker.translateHandleToTID (self.handles target)
      let _ ← self.getThrID t
      return self.goto t .program
  | .finish, .program => some (self.goto t .finished)
  | _, _ => none

-- The runs whose steps are all allowed.
inductive Reaches (allowed : Handler → Thread → Action → Prop) : Handler → Prop
  | initial (handle : Handle) : Reaches allowed (initial handle)
  | step (s s' : Handler) (t : Thread) (action : Action) (hreaches : Reaches allowed s)
      (hallowed : allowed s t action) (hstep : s.step t action = some s') : Reaches allowed s'

def run (allowed : Handler → Thread → Action → Prop)
    [∀ s t action, Decidable (allowed s t action)] (s : Handler)
    (steps : List (Thread × Action)) : Option Handler :=
  steps.foldlM (fun s (t, action) => if allowed s t action then s.step t action else none) s

theorem Reaches.run {allowed : Handler → Thread → Action → Prop}
    [∀ s t action, Decidable (allowed s t action)] {s s' : Handler}
    (steps : List (Thread × Action)) (hreaches : Reaches allowed s)
    (hrun : Handler.run allowed s steps = some s') : Reaches allowed s' := by
  induction steps generalizing s with
  | nil =>
      cases hrun
      exact hreaches
  | cons first steps ih =>
      obtain ⟨t, action⟩ := first
      rw [Handler.run, List.foldlM_cons] at hrun
      obtain ⟨s1, hfirst, hrest⟩ := Option.bind_eq_some_iff.mp hrun
      obtain ⟨hallowed, hstep⟩ := Option.ite_none_right_eq_some.mp hfirst
      exact ih (hreaches.step s s1 t action hallowed hstep) hrest

end Handler

end Thrille
