import Thrille.Randact.Picks

namespace Thrille

open ExecutionTracker

-- A postponed trylock is re-enabled as if it were a lock.
def Pending.locked : Pending → Pending
  | trylock m => .lock m
  | k => k

def Rest.locked : Rest → Rest
  | pause k => .pause k.locked
  | r => r

def Pc.locked : Pc → Pc
  | launched r => .launched r.locked
  | leaving r => .leaving r.locked
  | blocked r => .blocked r.locked
  | resume k => .resume k.locked
  | pc => pc

theorem Pending.mutex_locked (k : Pending) : k.locked.mutex = k.mutex := by
  cases k <;> rfl

theorem Rest.mutex_locked (r : Rest) : r.locked.stage.mutex = r.stage.mutex := by
  cases r with
  | pause k => exact k.mutex_locked
  | _ => rfl

theorem Pc.mutex_locked (pc : Pc) : pc.locked.stage.mutex = pc.stage.mutex := by
  cases pc with
  | launched r => exact r.mutex_locked
  | leaving r => exact r.mutex_locked
  | blocked r => exact r.mutex_locked
  | resume k => exact k.mutex_locked
  | _ => rfl

theorem Rest.sem_locked (r : Rest) : r.locked.stage.sem = r.stage.sem := by
  cases r with
  | pause k => cases k <;> rfl
  | _ => rfl

theorem Pc.sem_locked (pc : Pc) : pc.locked.stage.sem = pc.stage.sem := by
  cases pc with
  | launched r => exact r.sem_locked
  | leaving r => exact r.sem_locked
  | blocked r => exact r.sem_locked
  | resume k => cases k <;> rfl
  | _ => rfl

theorem Pc.stage_locked (pc : Pc) : pc.locked.stage = pc.stage ∨ ∃ m,
    pc.stage = .pending (.trylock m) ∧ pc.locked.stage = .pending (.lock m) ∨
      pc.stage = .resumed (.trylock m) ∧ pc.locked.stage = .resumed (.lock m) := by
  have hrest (r : Rest) : r.locked.stage = r.stage ∨ ∃ m,
      r.stage = .pending (.trylock m) ∧ r.locked.stage = .pending (.lock m) ∨
        r.stage = .resumed (.trylock m) ∧ r.locked.stage = .resumed (.lock m) := by
    cases r with
    | pause k =>
        cases k with
        | trylock m => exact Or.inr ⟨m, Or.inl ⟨rfl, rfl⟩⟩
        | _ => exact Or.inl rfl
    | _ => exact Or.inl rfl
  cases pc with
  | launched r => exact hrest r
  | leaving r => exact hrest r
  | blocked r => exact hrest r
  | resume k =>
      cases k with
      | trylock m => exact Or.inr ⟨m, Or.inr ⟨rfl, rfl⟩⟩
      | _ => exact Or.inl rfl
  | _ => exact Or.inl rfl

-- Where a thread is another one only in the arguments of what it does.
inductive Pc.Kin : Pc → Pc → Prop
  | trylock (ret_addr lock : Addr) :
      Kin (.enter ret_addr (.mutexTrylock lock)) (.enter ret_addr (.mutexLock lock))
  | handoff (info : SignalPointInfo) (u w : ThrID) : Kin (.handoff info u) (.handoff info w)

section Kin

variable {σ : Type} {s : System σ} {t : ThrID} {c : Control} {pc' : Pc}

theorem Serial.kin (h : Serial s c) {pc : Pc} (hpc : s.pcs t = pc) (hkin : pc.Kin pc') :
    Serial (s.goto t pc') c := by
  have hruns : (s.pcs t).runs = true ∧ (s.pcs t).wakes = none ∧
      ∀ sig u, s.pcs t ≠ .waitReady sig u := by
    rw [hpc]
    cases hkin <;> exact ⟨rfl, rfl, nofun⟩
  obtain rfl := h.controlled.runner hruns.1 hruns.2.1 hruns.2.2
  have hcopy (sig : SignalPointInfo) (u : ThrID) (hat : pc' = .handoff sig u) :
      sig.cond_map = s.tracker.cond_map := by
    cases hkin with
    | trylock ret_addr lock => cases hat
    | handoff info u' w =>
        cases hat
        exact h.controlled.copy t _ u' hpc
  refine h.stay s.issued s.global_lock ?_ ?_ nofun rfl
  · rw [hpc]
    cases hkin <;> rfl
  · refine h.controlled.goto pc' rfl rfl rfl rfl (Nat.le_refl _) ?_ ?_ ?_ ?_ ?_ ?_ ?_ ?_ ?_ hcopy
      fun _ _ _ _ _ => rfl
    all_goals cases hkin <;> simp [hpc, Control.timedOut, Control.Role, Pc.runs, Pc.wakes]

theorem System.Tracked.kin (h : s.Tracked) {pc : Pc} (hpc : s.pcs t = pc) (hkin : pc.Kin pc') :
    (s.goto t pc').Tracked := by
  have hstage : pc'.stage = (s.pcs t).stage := by
    rw [hpc]
    cases hkin <;> rfl
  refine h.move pc' rfl rfl rfl rfl rfl (by rw [hstage]) (by rw [hstage])
    (fun k hk => by rwa [← hstage]) ?_ (fun ret_addr op hat => ?_) fun m hat => ?_
  · rw [hpc]
    cases hkin <;> rfl
  · cases hkin with
    | trylock addr lock =>
        cases hat
        obtain ⟨halive, _⟩ := h.asked t ret_addr _ hpc
        exact ⟨halive, trivial⟩
    | handoff info u w => cases hat
  · cases hkin <;> cases hat

end Kin

end Thrille
