import Thrille.Relaxed.Runs

namespace Thrille

namespace RelaxedTracker

variable {σ : Type} {self : RelaxedTracker σ}

end RelaxedTracker

-- A point as its event, where just the threads of the list are enabled.
def LogPoint.event (p : LogPoint) : RelaxedEvent where
  signals := p.signal.isSome
  info := { ret_addr := p.idaddr, type := p.description, thread := p.caller
            enabled := p.enabled.foldl (fun enabled thr => enabled.insert thr true) ∅
            isYield := false }

end Thrille
