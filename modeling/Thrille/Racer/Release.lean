import Thrille.Racer.Hybridtrack
import Thrille.Racer.Theorems

namespace Thrille.VectorClockTracker

open Relation

-- `signaller` is the one that released `waiter`, which is in its wait at `signalled` and leaves
-- it at `woken`: until then the waiter calls nothing.
structure Releases (ops : List Op) (signalled woken : Nat) (signaller waiter : ThrID)
    (cond : Addr) : Prop where
  later : signalled < woken
  others : signaller ≠ waiter
  signals : ops[signalled]? = some (.beforeSignal signaller cond)
  wakes : ops[woken]? = some (.afterWait waiter cond)
  born : Created ops signalled waiter
  waits : ∀ k op, signalled < k → k < woken → ops[k]? = some op → op.me ≠ waiter

-- The event that the handler builds for an access of `thread` before the `n`-th operation.
def accessEvent (ops : List Op) (n : Nat) (thread : ThrID) (iid addr : Addr) (isread : Bool)
    (ls : LockSet) : DataRaceEvent :=
  { iid, thread, addr, isread, vc := clockAt ops n thread, ls }

-- The accesses of one thread before its `i`-th operation and those of the other from the `j`-th
-- operation on are never reported as a race.
def Unreported (ops : List Op) (i j : Nat) (before after : ThrID) : Prop :=
  ∀ m n, m < i → j < n → ops[m]? = some (.access before) → ops[n]? = some (.access after) →
    ∀ iid iid' addr addr' isread isread' ls ls',
      let e := accessEvent ops m before iid addr isread ls
      let e' := accessEvent ops n after iid' addr' isread' ls'
      HybridRaceTracker.isRacing e e' = false ∧ HybridRaceTracker.isRacing e' e = false

section

variable {ops : List Op} {signalled woken : Nat} {signaller waiter : ThrID} {cond : Addr}

theorem Releases.not_knows (hvalid : Valid ops)
    (hreleases : Releases ops signalled woken signaller waiter cond) :
    ¬Knows ops woken signalled waiter := by
  rintro ⟨j, op, hj, hop, hbelongs, hreach⟩
  obtain ⟨_, hothers, hsignals, _, hborn, hwaits⟩ := hreleases
  have hle := Reach.le hreach
  rcases Nat.lt_or_eq_of_le hle with hlt | rfl
  · rcases hbelongs with hme | hcreates
    · exact hwaits j op hlt hj hop hme
    · exact (hvalid j op hop).not_created waiter hcreates (hborn.mono hle)
  · cases hsignals.symm.trans hop
    rcases hbelongs with hme | hcreates
    · exact hothers hme
    · cases hcreates

-- Having called nothing since the signal, the waiter learns of it from the condition only.
theorem Releases.knows_iff (hvalid : Valid ops)
    (hreleases : Releases ops signalled woken signaller waiter cond) :
    Knows ops (woken + 1) signalled waiter ↔ Heard ops woken signalled cond := by
  have hnot := hreleases.not_knows hvalid
  obtain ⟨hlater, _, _, hwakes, _, _⟩ := hreleases
  rw [knows_succ hwakes, reach_iff hwakes signalled hlater]
  constructor
  · rintro (hknows | ⟨_, hknows | ⟨thr, hjoins, _⟩ | ⟨cond', hwait, hheard⟩⟩)
    · exact absurd hknows hnot
    · exact absurd hknows hnot
    · cases hjoins
    · cases hwait
      exact hheard
  · intro hheard
    exact Or.inr ⟨Or.inl rfl, Or.inr (Or.inr ⟨cond, rfl, hheard⟩)⟩

-- What the signaller did before its signal then comes before the wake-up too.
theorem Releases.reach (hreleases : Releases ops signalled woken signaller waiter cond)
    (hheard : Heard ops woken signalled cond) (m : Nat) (op : Op) (hm : m < signalled)
    (hop : ops[m]? = some op) (hme : op.me = signaller) : Reach ops m woken := by
  obtain ⟨hlater, _, hsignals, hwakes, _, _⟩ := hreleases
  have hprogram : Edge ops m signalled := Edge.program op _ hm hop hsignals (Or.inl hme)
  obtain ⟨s, sop, hs, hsop, hssignals, hlatest, hreach⟩ := hheard
  have hearlier : Heard ops woken m cond :=
    ⟨s, sop, hs, hsop, hssignals, hlatest, hreach.head hprogram⟩
  apply (reach_iff hwakes m (by omega)).mpr
  exact Or.inr (Or.inr ⟨cond, rfl, hearlier⟩)

end

-- The clock of a released waiter dominates the clock of the thread that released it exactly when
-- the latest signal on the condition is that thread's, or one that comes after it.
theorem release_dominates_iff (ops : List Op) (hvalid : Valid ops) (signalled woken : Nat)
    (signaller waiter : ThrID) (cond : Addr)
    (hreleases : Releases ops signalled woken signaller waiter cond) :
    (isHappensBefore (clockAt ops signalled signaller) (clockAt ops (woken + 1) waiter) = true ∧
      Unreported ops signalled woken signaller waiter) ↔
    Heard ops woken signalled cond := by
  have hlen : woken + 1 ≤ ops.length := (List.getElem?_eq_some_iff.mp hreleases.wakes).1
  have hdominates : isHappensBefore (clockAt ops signalled signaller)
      (clockAt ops (woken + 1) waiter) = true ↔ Heard ops woken signalled cond := by
    rw [← hreleases.knows_iff hvalid]
    exact isHappensBefore_iff_knows hvalid signalled (.beforeSignal signaller cond)
      (Nat.lt_succ_of_lt hreleases.later) hlen hreleases.signals waiter
  rw [hdominates]
  refine ⟨And.left, fun hheard => ⟨hheard, ?_⟩⟩
  intro m n hm hn hbefore hafter iid iid' addr addr' isread isread' ls ls' e e'
  have hn' : n ≤ ops.length := Nat.le_of_lt (List.getElem?_eq_some_iff.mp hafter).1
  have hmn : m < n := by
    have := hreleases.later
    omega
  have hknows : Knows ops n m waiter :=
    ⟨woken, _, hn, hreleases.wakes, Or.inl rfl, hreleases.reach hheard m _ hm hbefore rfl⟩
  apply HybridRaceTracker.isRacing_of_happensBefore
  exact (isHappensBefore_iff_knows hvalid m (.access signaller) hmn hn' hbefore waiter).mpr hknows

-- Thread 1 waits on condition 7 when thread 0 signals it, after an access.
def signalled : List Op := [.beforeCreate 0 1, .access 0, .beforeSignal 0 7, .afterWait 1 7,
  .access 1]

theorem signalled_releases : Releases signalled 2 3 0 1 7 where
  later := by decide
  others := by decide
  signals := rfl
  wakes := rfl
  born := Or.inr ⟨_, List.mem_cons_self, rfl⟩
  waits k op hk hkn := by omega

theorem release_dominates_iff_signalled :
    (isHappensBefore (clockAt signalled 2 0) (clockAt signalled 4 1) = true ∧
      Unreported signalled 2 3 0 1) ↔ Heard signalled 3 2 7 :=
  release_dominates_iff signalled (by decide) 2 3 0 1 7 signalled_releases

-- Before thread 1, which thread 0 has released, is back from its wait, thread 2 signals as well.
def overwritten : List Op := [.beforeCreate 0 1, .beforeCreate 0 2, .access 0, .beforeSignal 0 7,
  .beforeSignal 2 7, .afterWait 1 7, .access 1]

theorem overwritten_releases : Releases overwritten 3 5 0 1 7 where
  later := by decide
  others := by decide
  signals := rfl
  wakes := rfl
  born := Or.inr ⟨_, List.mem_cons_self, rfl⟩
  waits k op hk hkn hop := by
    obtain rfl : k = 4 := by omega
    cases hop
    decide

-- The message of thread 0 is gone, and the two accesses, which share no mutex, are reported.
theorem overwritten_reported :
    Valid overwritten ∧ Releases overwritten 3 5 0 1 7 ∧
      isHappensBefore (clockAt overwritten 3 0) (clockAt overwritten 6 1) = false ∧
      HybridRaceTracker.isRacing (accessEvent overwritten 2 0 1 64 false ∅)
        (accessEvent overwritten 6 1 2 64 false ∅) = true :=
  ⟨by decide, overwritten_releases, by decide +kernel, by decide +kernel⟩

end Thrille.VectorClockTracker
