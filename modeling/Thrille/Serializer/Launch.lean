import Thrille.Serializer.Token

namespace Thrille

theorem Pc.stage_of_heading (signalled : Bool) (pc : Pc) (r : Rest)
    (h : pc.heading signalled = some r) : pc.stage = r.stage := by
  cases pc with
  | checkTimeout w =>
      simp only [heading] at h
      split at h <;> cases h
      rfl
  | threadStart => cases h; rfl
  | launched r' => cases h; rfl
  | leaving r' => cases h; rfl
  | blocked r' => cases h; rfl
  | _ => cases h

theorem Pc.heading_wait_congr {signalled : Bool} {pc : Pc} {w : Wait}
    (h : pc.heading signalled = some (.wait w)) (signalled' : Bool) :
    pc.heading signalled' = some (.wait w) := by
  cases pc with
  | checkTimeout w' =>
      simp only [heading] at h
      split at h <;> cases h
  | _ => exact h

-- A resting thread that waits for a condition is heading for its second semaphore.
theorem Pc.Rests.heading_wait {signalled : Bool} {pc : Pc} (h : pc.Rests signalled) (w : Wait)
    (hst : pc.stage = .waiting w) : pc.heading signalled = some (.wait w) := by
  rcases h with rfl | rfl | hsome
  · cases hst
  · cases hst
  · obtain ⟨r, hr⟩ := Option.isSome_iff_exists.mp hsome
    rw [stage_of_heading signalled pc r hr] at hst
    cases r with
    | wait w' =>
        cases hst
        exact hr
    | pause k => cases hst
    | exit => cases hst

-- Only a thread that waits has an entry in `cond_map`.
theorem Stage.Fits.cond {done : ThrID → Bool} {e : Entries} {st : Stage} (h : st.Fits done e)
    (cond : Addr) (he : e.cond = some cond) : ∃ w, st = .waiting w ∧ w.cond = cond := by
  cases st with
  | waiting w =>
      rw [Fits] at h
      rw [h] at he
      exact ⟨w, rfl, Option.some.inj he⟩
  | pending k => cases k <;> simp only [Fits, Pending.Fits] at h <;> grind
  | resumed k => cases k <;> simp only [Fits, Pending.Fits] at h <;> grind
  | _ =>
      rw [Fits] at h
      rw [h] at he
      cases he

namespace Controlled

variable {tr tr' : ExecutionTracker} {pcs : ThrID → Pc} {c : Control} {t : ThrID}

-- The runner has scheduled, and nobody has been let go yet.
theorem giveUp (h : Controlled tr pcs (.running t)) (r : Rest)
    (hspecial : (pcs t).special = false) (hborn : pcs t ≠ .unborn)
    (hsem : tr'.sem_map = tr.sem_map)
    (hwait : tr'.wait_sem_map = tr.wait_sem_map) (hready : tr'.wait_ready_map = tr.wait_ready_map)
    (hsignalled : tr'.was_signalled_map = Function.update tr.was_signalled_map t true)
    (hnext : tr'.next_id = tr.next_id) :
    Controlled tr' (Function.update pcs t (.launched r)) .nobody := by
  have hunborn := Pc.update_unborn pcs t (.launched r) hborn nofun
  refine of_not_special (fun u => ?_) (fun u hu => ?_) (fun u hu => ?_) (fun u hu => ?_)
    (fun u hu => ?_) (fun u => ?_) (fun u hu => ?_)
  · by_cases hut : u = t
    · rw [hut, Function.update_self]
      rfl
    · rw [Function.update_of_ne hut]
      apply h.not_special u
      intro x hx
      cases hx
      exact hspecial
  · rw [hsem]
    exact h.sem u (mt (hunborn u).mpr hu)
  · rw [hwait]
    exact h.waitSem u (mt (hunborn u).mpr hu)
  · rw [hready]
    exact h.ready u (mt (hunborn u).mpr hu)
  · rw [hsignalled]
    by_cases hut : u = t
    · rw [hut, Function.update_self]
      rfl
    · rw [Function.update_of_ne hut, h.signalled u (mt (hunborn u).mpr hu)]
      simp [Control.timedOut, hut]
  · simp only [Control.Role]
    by_cases hut : u = t
    · rw [hut, Function.update_self]
      exact Or.inr (Or.inr rfl)
    · rw [Function.update_of_ne hut, hsignalled, Function.update_of_ne hut]
      exact h.others u hut
  · rw [hnext] at hu
    exact (hunborn u).mpr (h.fresh u hu)

-- The thread that is launched has to be enabled, so it rests, and gets its post on the semaphore
-- that it is heading for.
theorem launch (h : Controlled tr pcs .nobody) (hc : Consistent tr fun u => (pcs u).stage)
    (target : ThrID) (henabled : tr.isEnabled target = true)
    (hlaunch : tr.launch target = .ok tr') :
    ∃ c', Controlled tr' pcs c' ∧ (c' = .posted target ∨ c' = .timeout target) := by
  have hfit := hc.fits target
  have hentry : (tr.entries target).enabled = true := henabled
  have hspecial (u : ThrID) : (pcs u).special = false := h.not_special u nofun
  have hrests : (pcs target).Rests (tr.was_signalled_map target) := h.role target
  have hborn : pcs target ≠ .unborn := by
    intro hnew
    rw [hnew] at hfit
    rw [show tr.entries target = { enabled := false } from hfit] at hentry
    cases hentry
  rcases hrests with hnew | hcreated | hsome
  · exact absurd hnew hborn
  · obtain ⟨r, ra, rv, hc, _⟩ := h.created target hcreated
    cases hc
  · obtain ⟨r, hr⟩ := Option.isSome_iff_exists.mp hsome
    rw [Pc.stage_of_heading _ _ r hr] at hfit
    cases r with
    | exit =>
        rw [show tr.entries target = { enabled := false, finished := true } from hfit] at hentry
        cases hentry
    | pause k =>
        have hcond : tr.cond_map[target]? = none := by
          by_contra hsome
          obtain ⟨cond, hcond⟩ := Option.ne_none_iff_exists'.mp hsome
          obtain ⟨w, hw, _⟩ := hfit.cond cond hcond
          cases hw
        have hmem : target ∉ tr.cond_map := by
          rw [Std.TreeMap.mem_iff_isSome_getElem?, hcond]
          exact Bool.false_ne_true
        have hsem : tr.sem_map target = some 0 := h.sem target hborn
        simp only [ExecutionTracker.launch, if_neg hmem, ExecutionTracker.wakeThread, hsem]
          at hlaunch
        cases hlaunch
        refine ⟨.posted target, of_not_special hspecial (fun u hu => ?_) h.waitSem h.ready
          h.signalled (fun u => ?_) h.fresh, Or.inl rfl⟩
        · have hu' := h.sem u hu
          by_cases hut : u = target
          · simp [hut, Control.semOf]
          · simpa [hut, Control.semOf] using hu'
        · by_cases hut : u = target
          · subst hut
            simp only [Control.Role, if_true]
            exact ⟨k, hr⟩
          · simp only [Control.Role, if_neg hut]
            exact h.role u
    | wait w =>
        have hentries : tr.entries target = { enabled := w.timed, cond := some w.cond } := hfit
        have htimed : w.timed = true := by
          rw [hentries] at hentry
          exact hentry
        have hcond : tr.cond_map[target]? = some w.cond := by
          have hfield : (tr.entries target).cond = some w.cond := by rw [hentries]
          exact hfield
        have hmem : target ∈ tr.cond_map := by
          rw [Std.TreeMap.mem_iff_isSome_getElem?, hcond]
          rfl
        have hsem : (tr.setSignalled target false).wait_sem_map target = some 0 :=
          h.waitSem target hborn
        simp only [ExecutionTracker.launch, if_pos hmem, ExecutionTracker.waitWakeThread, hsem]
          at hlaunch
        cases hlaunch
        have hsignalled (u : ThrID) (hut : u ≠ target) :
            ((tr.setSignalled target false).setWaitSem target (0 + 1)).was_signalled_map u =
            tr.was_signalled_map u := by
          simp [hut]
        refine ⟨.timeout target, of_not_special hspecial h.sem (fun u hu => ?_) h.ready
          (fun u hu => ?_) (fun u => ?_) h.fresh, Or.inr rfl⟩
        · have hu' := h.waitSem u hu
          by_cases hut : u = target
          · simp [hut, Control.waitSemOf]
          · simpa [hut, Control.waitSemOf] using hu'
        · have hu' := h.signalled u hu
          by_cases hut : u = target
          · simp [hut, Control.timedOut]
          · have hbeq : (u == target) = false := by simpa using hut
            rw [hsignalled u hut, hu']
            simp [Control.timedOut, hbeq]
        · by_cases hut : u = target
          · subst hut
            simp only [Control.Role, if_true]
            exact ⟨w, Pc.heading_wait_congr hr _, htimed⟩
          · simp only [Control.Role, if_neg hut]
            rw [hsignalled u hut]
            exact h.role u

end Controlled

end Thrille
