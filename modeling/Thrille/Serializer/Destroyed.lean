import Thrille.Serializer.Lifetimes

namespace Thrille

namespace Consistent

variable {tr : ExecutionTracker} {st : ThrID → Stage} {t : ThrID}

-- A thread that waits on a barrier is disabled.
theorem waiting_disabled (hc : Consistent tr st) (barrier : Addr)
    (hwaits : t ∈ tr.bt.getThreadsWaitingOnBarrier barrier) : tr.isEnabled t = false := by
  have hentry : (tr.entries t).barrier = some barrier := (PtrMap.mem_threadsAt _ _ _).mp hwaits
  have hfit := hc.fits t
  change (tr.entries t).enabled = false
  generalize tr.entries t = e at hentry hfit
  cases hst : st t with
  | pending k =>
      rw [hst] at hfit
      cases k <;> simp only [Stage.Fits, Pending.Fits] at hfit <;> grind
  | resumed k =>
      rw [hst] at hfit
      obtain ⟨hfit, henabled⟩ := hfit
      cases k <;> simp only [Pending.Fits] at hfit <;> grind
  | _ =>
      rw [hst] at hfit
      simp only [Stage.Fits] at hfit
      subst hfit
      cases hentry

theorem semReady (hc : Consistent tr st) (sem : Addr) (hst : st t = .resumed (.semWait sem)) :
    tr.sem_ready_map[t]? = some sem := by
  have hfit := hc.fits t
  rw [hst] at hfit
  obtain ⟨hready | hwait, henabled⟩ := hfit
  · exact congrArg Entries.semReady hready
  · rw [hwait] at henabled
    cases henabled

end Consistent

namespace ExecutionTracker

variable {self : ExecutionTracker} {st : ThrID → Stage} {t : ThrID}

end ExecutionTracker

namespace System

variable {σ : Type} {v : Virtual σ}

end System

end Thrille
