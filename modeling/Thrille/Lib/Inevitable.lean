import Mathlib.Logic.Basic

namespace Thrille

variable {σ : Type} {step : σ → σ → Prop} {goal : σ → Prop}

-- Every run that goes on as long as it can comes to the goal.
inductive Inevitable (step : σ → σ → Prop) (goal : σ → Prop) : σ → Prop
  | now (s : σ) (hgoal : goal s) : Inevitable step goal s
  | later (s : σ) (hsome : ∃ s', step s s') (hall : ∀ s', step s s' → Inevitable step goal s') :
      Inevitable step goal s

-- An invariant from which there is always a step, and a measure that every step decreases.
theorem Inevitable.of_measure (inv : σ → Prop) (measure : σ → Nat)
    (hsome : ∀ s, inv s → ∃ s', step s s')
    (hstep : ∀ s s', inv s → step s s' → goal s' ∨ inv s' ∧ measure s' < measure s) (s : σ)
    (hinv : inv s) : Inevitable step goal s := by
  have hbelow (n : Nat) : ∀ s, inv s → measure s < n → Inevitable step goal s := by
    induction n with
    | zero => exact fun s _ hlt => absurd hlt (Nat.not_lt_zero _)
    | succ n ih =>
        intro s hinv hlt
        refine .later s (hsome s hinv) fun s' hs' => ?_
        rcases hstep s s' hinv hs' with hgoal | ⟨hinv', hless⟩
        · exact .now s' hgoal
        · exact ih s' hinv' (by omega)
  exact hbelow (measure s + 1) s hinv (Nat.lt_succ_self _)

end Thrille
