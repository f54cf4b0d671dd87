import Thrille.Serializer.Stages

namespace Thrille

open OrderedMap

theorem safe_assert_bind {α : Type} (cond : Bool) (stop : Stop) (f : Unit → Except Stop α)
    (result : α) :
    (safe_assert cond stop >>= f) = .ok result ↔ cond = true ∧ f () = .ok result := by
  cases cond
  · refine ⟨fun h => ?_, fun h => ?_⟩
    · cases h
    · cases h.1
  · refine ⟨fun h => ⟨rfl, h⟩, fun h => h.2⟩

theorem ok_bind {α β : Type} (x : Except Stop α) (f : α → Except Stop β) (result : β) :
    (x >>= f) = .ok result ↔ ∃ a, x = .ok a ∧ f a = .ok result := by
  cases x with
  | error stop =>
      refine ⟨fun h => ?_, fun ⟨a, ha, _⟩ => ?_⟩
      · cases h
      · cases ha
  | ok a =>
      refine ⟨fun h => ⟨a, rfl, h⟩, fun ⟨b, hb, h⟩ => ?_⟩
      cases hb
      exact h

-- The maps agree with the stages of all threads.
structure Consistent (tr : ExecutionTracker) (st : ThrID → Stage) : Prop where
  fits : ∀ t, (st t).Fits tr.finish_map (tr.entries t)
  joins : ∀ t u, tr.finish_map t = false → (tr.join_map t = some u ↔ st u = .pending (.join t))
  born : ∀ t, (tr.sem_map t).isSome = true ↔ st t ≠ .unborn
  targets : ∀ t u, st u = .pending (.join t) → st t ≠ .unborn

namespace Consistent

variable {tr tr' : ExecutionTracker} {st : ThrID → Stage} {t : ThrID}

theorem finished_eq (hc : Consistent tr st) (u : ThrID) :
    tr.finish_map u = decide (st u = .finished) := by
  have hfit := hc.fits u
  have hentry : tr.finish_map u = (tr.entries u).finished := rfl
  rw [hentry]
  cases hst : st u with
  | pending k =>
      rw [hst] at hfit
      cases k <;> simp only [Stage.Fits, Pending.Fits] at hfit <;> grind
  | resumed k =>
      rw [hst] at hfit
      obtain ⟨hfit, _⟩ := hfit
      cases k <;> simp only [Pending.Fits] at hfit <;> grind
  | _ =>
      rw [hst] at hfit
      simp only [Stage.Fits] at hfit
      rw [hfit]
      rfl

theorem same (hc : Consistent tr st) (hfinish : tr'.finish_map = tr.finish_map)
    (hjoin : tr'.join_map = tr.join_map) (hsem : tr'.sem_map = tr.sem_map)
    (hentries : ∀ u, tr'.entries u = tr.entries u) : Consistent tr' st := by
  refine ⟨fun u => ?_, ?_, ?_, hc.targets⟩
  · rw [hfinish, hentries]
    exact hc.fits u
  · rw [hfinish, hjoin]
    exact hc.joins
  · rw [hsem]
    exact hc.born

-- Posting changes no entry.
theorem reposted (hc : Consistent tr st) (hfinish : tr'.finish_map = tr.finish_map)
    (hjoin : tr'.join_map = tr.join_map)
    (hsem : ∀ u, (tr'.sem_map u).isSome = (tr.sem_map u).isSome)
    (hentries : ∀ u, tr'.entries u = tr.entries u) : Consistent tr' st := by
  refine ⟨fun u => ?_, ?_, fun u => ?_, hc.targets⟩
  · rw [hfinish, hentries]
    exact hc.fits u
  · rw [hfinish, hjoin]
    exact hc.joins
  · rw [hsem]
    exact hc.born u

-- An enabled thread that comes out of its pause can complete its operation; the thread that it
-- joins has finished.
theorem takeTurn (hc : Consistent tr st) (k : Pending) (hst : st t = .pending k)
    (henabled : tr.isEnabled t = true) : Consistent tr (Function.update st t (.resumed k)) := by
  have hfit := hc.fits t
  rw [hst] at hfit
  have hentry : (tr.entries t).enabled = true := henabled
  have hunborn (u : ThrID) :
      Function.update st t (.resumed k) u = .unborn ↔ st u = .unborn := by
    by_cases hu : u = t
    · subst hu
      simp [hst]
    · simp [hu]
  refine ⟨fun u => ?_, fun x u hx => ?_, fun u => ?_, fun x u hu => ?_⟩
  · by_cases hu : u = t
    · rw [hu, Function.update_self]
      exact ⟨hfit, hentry⟩
    · rw [Function.update_of_ne hu]
      exact hc.fits u
  · rw [hc.joins x u hx]
    by_cases hu : u = t
    · subst hu
      rw [Function.update_self, hst]
      refine ⟨fun heq => ?_, fun heq => by cases heq⟩
      cases heq
      rw [show tr.entries u = { enabled := tr.finish_map x } from hfit] at hentry
      rw [show tr.finish_map x = true from hentry] at hx
      cases hx
    · rw [Function.update_of_ne hu]
  · rw [hc.born u]
    exact not_congr (hunborn u).symm
  · rw [Ne, hunborn]
    by_cases hut : u = t
    · rw [hut, Function.update_self] at hu
      cases hu
    · rw [Function.update_of_ne hut] at hu
      exact hc.targets x u hu

-- A thread that is not joining takes a step that leaves joins alone.
theorem move (hc : Consistent tr st) (stg : Stage) (hfinish : tr'.finish_map = tr.finish_map)
    (hjoin : tr'.join_map = tr.join_map) (hsem : tr'.sem_map = tr.sem_map)
    (hself : stg.Fits tr.finish_map (tr'.entries t))
    (hothers : ∀ u, u ≠ t → (st u).Fits tr.finish_map (tr'.entries u))
    (hold : ∀ x, st t ≠ .pending (.join x)) (hnew : ∀ x, stg ≠ .pending (.join x))
    (hborn : st t ≠ .unborn) (hborn' : stg ≠ .unborn) :
    Consistent tr' (Function.update st t stg) := by
  have hstage (u : ThrID) (x : ThrID) :
      Function.update st t stg u = .pending (.join x) ↔ st u = .pending (.join x) := by
    by_cases hu : u = t
    · subst hu
      simp [hold x, hnew x]
    · simp [hu]
  have hunborn (u : ThrID) : Function.update st t stg u = .unborn ↔ st u = .unborn := by
    by_cases hu : u = t
    · subst hu
      simp [hborn, hborn']
    · simp [hu]
  refine ⟨fun u => ?_, fun x u hx => ?_, fun u => ?_, fun x u hu => ?_⟩
  · rw [hfinish]
    by_cases hu : u = t
    · subst hu
      simpa using hself
    · simpa [hu] using hothers u hu
  · rw [hjoin, hstage]
    exact hc.joins x u (hfinish ▸ hx)
  · rw [hsem, hc.born u]
    exact not_congr (hunborn u).symm
  · exact fun h => hc.targets x u ((hstage u x).mp hu) ((hunborn x).mp h)

-- A thread goes on in a way that its entries allow.
theorem goOn (hc : Consistent tr st) (stg : Stage) (hself : stg.Fits tr.finish_map (tr.entries t))
    (hold : ∀ x, st t ≠ .pending (.join x)) (hnew : ∀ x, stg ≠ .pending (.join x))
    (hborn : st t ≠ .unborn) (hborn' : stg ≠ .unborn) :
    Consistent tr (Function.update st t stg) :=
  hc.move stg rfl rfl rfl hself (fun u _ => hc.fits u) hold hnew hborn hborn'

end Consistent

end Thrille
