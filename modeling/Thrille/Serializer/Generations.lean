import Thrille.Serializer.Traced

namespace Thrille

-- What happens on one barrier: it is initialised, and `pthread_barrier_wait` is called and returns.
inductive BarrierEvent
  | init (count : Nat)
  | call (t : ThrID)
  | ret (t : ThrID) (ret_val : Int)
  deriving DecidableEq, Repr

def PTHREAD_BARRIER_SERIAL_THREAD : Int := -1

-- A barrier as POSIX has it, but for the results. `waiting` are the calls of the generation that
-- is not complete, and `complete` those of the others, in the order of their arrival. `current` is
-- the generation of a call under way, and `results` is what the calls of a generation have
-- returned so far.
structure Generations where
  count : Nat := 0
  waiting : List ThrID := []
  complete : List (List ThrID) := []
  current : ThrID → Option Nat := fun _ => none
  results : Nat → List Int := fun _ => []

namespace Generations

-- A call returns only when its generation is complete, which it is with the last of its `count`
-- calls.
inductive Rule (self : Generations) : BarrierEvent → Generations → Prop
  | init (count : Nat) (hpos : 1 ≤ count) (hnobody : self.waiting = []) :
      Rule self (.init count) { self with count }
  | wait (t : ThrID) (hmore : self.waiting.length + 1 < self.count) :
      Rule self (.call t) { self with
        waiting := self.waiting ++ [t]
        current := Function.update self.current t (some self.complete.length) }
  | last (t : ThrID) (hlast : self.waiting.length + 1 = self.count) :
      Rule self (.call t) { self with
        waiting := []
        complete := self.complete ++ [self.waiting ++ [t]]
        current := Function.update self.current t (some self.complete.length) }
  | ret (t : ThrID) (ret_val : Int) (k : Nat) (hcurrent : self.current t = some k)
      (hcomplete : k < self.complete.length) :
      Rule self (.ret t ret_val) { self with
        current := Function.update self.current t none
        results := Function.update self.results k (self.results k ++ [ret_val]) }

-- How many threads wait, and for how many, after some events.
def counts : Nat × Nat → BarrierEvent → Nat × Nat
  | (_, waiting), .init count => (count, waiting)
  | (count, waiting), .call _ => (count, if waiting + 1 < count then waiting + 1 else 0)
  | counts, .ret _ _ => counts

-- The barrier is initialised for at least one thread, and never while a thread waits on it.
def Proper (past : List BarrierEvent) : Prop :=
  ∀ front count back, past = front ++ .init count :: back →
    1 ≤ count ∧ (front.foldl counts (0, 0)).2 = 0

theorem Proper.front {front back : List BarrierEvent} (h : Proper (front ++ back)) :
    Proper front := by
  intro before count after heq
  exact h before count (after ++ back) (by rw [heq]; simp)

-- One call of a complete generation has returned the special value, the others 0.
def SerialOnce (results : List Int) : Prop :=
  results.count PTHREAD_BARRIER_SERIAL_THREAD = 1 ∧ results.count 0 = results.length - 1

-- All calls of the generation have returned.
def Returned (self : Generations) (k : Nat) : Prop :=
  ∃ members, self.complete[k]? = some members ∧ (self.results k).length = members.length

open Traces

-- The fold is what a run of the rules says.
theorem counts_of_runs {g g' : Generations} {past : List BarrierEvent} (h : Runs Rule g past g') :
    past.foldl counts (g.count, g.waiting.length) = (g'.count, g'.waiting.length) := by
  induction h with
  | nil g => rfl
  | cons g g' g'' e events hrule _ ih =>
      rw [List.foldl_cons, ← ih]
      congr 1
      cases hrule with
      | init count hpos hnobody => rfl
      | wait t hmore => simp [counts, hmore]
      | last t hlast => simp [counts, hlast]
      | ret t ret_val k hcurrent hcomplete => rfl

end Generations

end Thrille
