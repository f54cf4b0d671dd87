import Thrille.Files.RelaxedLines
import Thrille.Files.ParseEntries

namespace Thrille

open Text

namespace LogPoint

-- The point as the scripts have it.
def named (p : LogPoint) : SchedulePoint := p.point (List.map idName)

def signals (p : LogPoint) : List ThrID := (p.signal.map (·.signalled)).toList

end LogPoint

-- The encoder on ids: the times the thread is scheduled so far, the addresses that it has
-- passed, latest first, and its signals.
def encodeFrom (last : ThrID) (times : Nat) (passed : List Addr) (sig : List ThrID) :
    List LogPoint → List Block
  | [] => [{ sched := last, times, addr := none, skip := 0, sig }]
  | p :: rest =>
      if p.chosen ≠ p.caller then
        { sched := p.caller, times, addr := some p.idaddr, skip := passed.count p.idaddr
          sig := sig ++ p.signals } :: encodeFrom last 1 [] [] rest
      else encodeFrom last (times + 1) (p.idaddr :: passed) (sig ++ p.signals) rest

-- What the first block has in common with the points before its end.
structure Opens (times : Nat) (passed : List Addr) (sig : List ThrID) (b : Block) : Prop where
  times : times ≤ b.times
  skip : ∀ addr ∈ b.addr, passed.count addr ≤ b.skip
  sig : sig <+: b.sig

theorem encodeFrom_eq_cons (last : ThrID) (times : Nat) (passed : List Addr) (sig : List ThrID)
    (sched : List LogPoint) :
    ∃ b blocks, encodeFrom last times passed sig sched = b :: blocks ∧
      Opens times passed sig b := by
  induction sched generalizing times passed sig with
  | nil => exact ⟨_, [], rfl, Nat.le_refl times, by simp, List.prefix_rfl⟩
  | cons p rest ih =>
      rw [encodeFrom]
      by_cases hpoint : p.chosen ≠ p.caller
      · rw [if_pos hpoint]
        refine ⟨_, _, rfl, Nat.le_refl times, ?_, List.prefix_append _ _⟩
        intro addr haddr
        cases haddr
        exact Nat.le_refl _
      · rw [if_neg hpoint]
        obtain ⟨b, blocks, hblocks, hopens⟩ := ih (times + 1) (p.idaddr :: passed) (sig ++ p.signals)
        refine ⟨b, blocks, hblocks, Nat.le_of_succ_le hopens.times, ?_,
          (List.prefix_append _ _).trans hopens.sig⟩
        intro addr haddr
        have hskip := hopens.skip addr haddr
        rw [List.count_cons] at hskip
        omega

-- The first block belongs to the thread that runs, and the last to the thread chosen last.
def lastChosen (current : ThrID) : List LogPoint → ThrID
  | [] => current
  | p :: rest => lastChosen p.chosen rest

-- Every point is called by the thread that the point before it chose.
def ChainFrom (current : ThrID) : List LogPoint → Prop
  | [] => True
  | p :: rest => p.caller = current ∧ ChainFrom p.chosen rest

theorem encodeFrom_sched (current : ThrID) (times : Nat) (passed : List Addr) (sig : List ThrID)
    (sched : List LogPoint) (hchain : ChainFrom current sched) :
    ∃ b blocks, encodeFrom (lastChosen current sched) times passed sig sched = b :: blocks ∧
      Opens times passed sig b ∧ b.sched = current := by
  obtain ⟨b, blocks, hblocks, hopens⟩ :=
    encodeFrom_eq_cons (lastChosen current sched) times passed sig sched
  refine ⟨b, blocks, hblocks, hopens, ?_⟩
  clear hopens
  induction sched generalizing current times passed sig b blocks with
  | nil =>
      cases hblocks
      rfl
  | cons p rest ih =>
      obtain ⟨hcaller, hrest⟩ := hchain
      rw [encodeFrom] at hblocks
      by_cases hpoint : p.chosen ≠ p.caller
      · rw [if_pos hpoint] at hblocks
        cases hblocks
        exact hcaller
      · rw [if_neg hpoint] at hblocks
        have hsame : p.chosen = current := by
          rw [not_not.mp hpoint]
          exact hcaller
        rw [hsame] at hrest
        rw [lastChosen, hsame] at hblocks
        exact ih current _ _ _ hrest b blocks hblocks

end Thrille
