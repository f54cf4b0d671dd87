import Thrille.Serializer.Entries

namespace Thrille

-- How far a thread is with its operation, as far as the maps are concerned.
inductive Stage
  | unborn
  | active
  | between (w : Wait)
  | waiting (w : Wait)
  | pending (k : Pending)
  | resumed (k : Pending)
  | finished
  deriving DecidableEq

def Rest.stage : Rest → Stage
  | pause k => .pending k
  | wait w => .waiting w
  | exit => .finished

def Pc.stage : Pc → Stage
  | unborn => .unborn
  | created => .pending .start
  | threadStart => .pending .start
  | launched r => r.stage
  | leaving r => r.stage
  | blocked r => r.stage
  | simulateWait w => .between w
  | woken w => .waiting w
  | relock w => .between w
  | signalReady w => .pending (.relock w false)
  | checkTimeout w => .pending (.relock w false)
  | resume k => .resumed k
  | _ => .active

-- The entries of a thread whose operation is pending.
def Pending.Fits (finished : ThrID → Bool) (e : Entries) : Pending → Prop
  | lock m => e = { enabled := true, lockReady := some m } ∨
      e = { enabled := false, lockWait := some m }
  | relock w _ => e = { enabled := true, lockReady := some w.lock } ∨
      e = { enabled := false, lockWait := some w.lock }
  | semWait s => e = { enabled := true, semReady := some s } ∨
      e = { enabled := false, semWait := some s }
  | join target => e = { enabled := finished target }
  | barrier b => e = { enabled := true } ∨ e = { enabled := false, barrier := some b }
  | _ => e = { enabled := true }

def Stage.Fits (done : ThrID → Bool) (e : Entries) : Stage → Prop
  | unborn => e = { enabled := false }
  | active => e = { enabled := true }
  | between w => e = { enabled := w.timed }
  | waiting w => e = { enabled := w.timed, cond := some w.cond }
  | pending k => k.Fits done e
  | resumed k => k.Fits done e ∧ e.enabled = true
  | finished => e = { enabled := false, finished := true }

section Loops

variable {finished : ThrID → Bool} {e : Entries}

-- A loop changes the entries of a pending thread only where it finds the object that the thread
-- is pending on, and then between the two forms that they can have.

theorem Pending.Fits.acquired {k : Pending} (h : k.Fits finished e) (lock : Addr) :
    k.Fits finished (e.acquired lock) := by
  unfold Entries.acquired
  split
  · rename_i hready
    cases k <;> simp only [Fits] at h ⊢ <;> grind
  · exact h

theorem Pending.Fits.released {k : Pending} (h : k.Fits finished e) (lock : Addr) :
    k.Fits finished (e.released lock) := by
  unfold Entries.released
  split
  · rename_i hwait
    cases k <;> simp only [Fits] at h ⊢ <;> grind
  · exact h

theorem Pending.Fits.drained {k : Pending} (h : k.Fits finished e) (sem : Addr) :
    k.Fits finished (e.drained sem) := by
  unfold Entries.drained
  split
  · rename_i hready
    cases k <;> simp only [Fits] at h ⊢ <;> grind
  · exact h

theorem Pending.Fits.posted {k : Pending} (h : k.Fits finished e) (sem : Addr) :
    k.Fits finished (e.posted sem) := by
  unfold Entries.posted
  split
  · rename_i hwait
    cases k <;> simp only [Fits] at h ⊢ <;> grind
  · exact h

theorem Pending.Fits.opened {k : Pending} (h : k.Fits finished e) (barrier : Addr) :
    k.Fits finished (e.opened barrier) := by
  unfold Entries.opened
  split
  · rename_i hwait
    cases k <;> simp only [Fits] at h ⊢ <;> grind
  · exact h

-- Only the threads that join a thread look at whether it is finished.
theorem Pending.Fits.congr {k : Pending} {done : ThrID → Bool} (h : k.Fits finished e)
    (hjoin : ∀ t, k = .join t → done t = finished t) : k.Fits done e := by
  cases k with
  | join target =>
      have heq : done target = finished target := hjoin target rfl
      simpa only [Fits, heq] using h
  | _ => exact h

variable {st : Stage}

theorem Stage.Fits.congr {done : ThrID → Bool} (h : st.Fits finished e)
    (hjoin : ∀ t, st = .pending (.join t) ∨ st = .resumed (.join t) → done t = finished t) :
    st.Fits done e := by
  cases st with
  | pending k => exact Pending.Fits.congr h fun t hk => hjoin t (Or.inl (by rw [hk]))
  | resumed k => exact ⟨Pending.Fits.congr h.1 fun t hk => hjoin t (Or.inr (by rw [hk])), h.2⟩
  | _ => exact h

-- The loops that disable threads must not meet one that is on its way to take its object.

theorem Stage.Fits.acquired (h : st.Fits finished e) (hst : ∀ k, st ≠ .resumed k) (lock : Addr) :
    st.Fits finished (e.acquired lock) := by
  cases st with
  | pending k => exact Pending.Fits.acquired h lock
  | resumed k => exact absurd rfl (hst k)
  | _ => cases h; simp [Fits, Entries.acquired]

theorem Stage.Fits.drained (h : st.Fits finished e) (hst : ∀ k, st ≠ .resumed k) (sem : Addr) :
    st.Fits finished (e.drained sem) := by
  cases st with
  | pending k => exact Pending.Fits.drained h sem
  | resumed k => exact absurd rfl (hst k)
  | _ => cases h; simp [Fits, Entries.drained]

theorem Stage.Fits.released (h : st.Fits finished e) (lock : Addr) :
    st.Fits finished (e.released lock) := by
  cases st with
  | pending k => exact Pending.Fits.released h lock
  | resumed k =>
      refine ⟨Pending.Fits.released h.1 lock, ?_⟩
      unfold Entries.released
      split
      · rfl
      · exact h.2
  | _ => cases h; simp [Fits, Entries.released]

theorem Stage.Fits.posted (h : st.Fits finished e) (sem : Addr) :
    st.Fits finished (e.posted sem) := by
  cases st with
  | pending k => exact Pending.Fits.posted h sem
  | resumed k =>
      refine ⟨Pending.Fits.posted h.1 sem, ?_⟩
      unfold Entries.posted
      split
      · rfl
      · exact h.2
  | _ => cases h; simp [Fits, Entries.posted]

theorem Stage.Fits.opened (h : st.Fits finished e) (barrier : Addr) :
    st.Fits finished (e.opened barrier) := by
  cases st with
  | pending k => exact Pending.Fits.opened h barrier
  | resumed k =>
      refine ⟨Pending.Fits.opened h.1 barrier, ?_⟩
      unfold Entries.opened
      split
      · rfl
      · exact h.2
  | _ => cases h; simp [Fits, Entries.opened]

end Loops

end Thrille
