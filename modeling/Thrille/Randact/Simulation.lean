import Thrille.Randact.Guided

namespace Thrille

open ExecutionTracker

variable {ρ : Type}

-- A run of a tester (`x`) over a run of the base class (`s`), in which a postponed trylock is a
-- lock and nothing is postponed.
structure Sim (isLockRace : Bool) (s x : System (RandomActiveTester ρ)) (c : Control) : Prop where
  serial : Serial s c
  tracked : s.Tracked
  running : x.stopped = none
  failed : x.scheduler.failed = none
  read : s.log.read_schedule = []
  lock : s.global_lock = x.global_lock
  barriers : s.barriers = x.barriers
  pcs : ∀ u, s.pcs u = x.pcs u ∨ s.pcs u = (x.pcs u).locked
  covers : Covers isLockRace (fun u => (s.pcs u).stage) (fun u => s.pcs u ≠ x.pcs u) s.tracker
    (x.tracker, x.scheduler)
  posted : ∀ u n, s.tracker.sem_map u = some (n + 1) → x.scheduler.isPaused u = false

theorem Shadow.congr {P H H' : ThrID → Prop} {D : Prop} {s x : ExecutionTracker}
    (h : Shadow P H D s x) (hH : ∀ u, P u → (H' u ↔ H u)) : Shadow P H' D s x where
  same := h.same
  free := h.free
  bare := h.bare
  shown u hu hnot := h.shown u hu fun hhidden => hnot ((hH u hu).mpr hhidden)
  hidden u hu hhidden := h.hidden u hu ((hH u hu).mp hhidden)
  down := h.down

-- A thread can be postponed only where it rests with an operation that is pending.
theorem Postponed.pending {isLockRace : Bool} {addr : Addr} {st : Stage}
    (h : Postponed isLockRace addr st) : ∃ k, st = .pending k ∧ k ≠ .start ∧ ∀ x, k ≠ .join x := by
  cases isLockRace with
  | false =>
      refine ⟨_, h, nofun, fun _ => nofun⟩
  | true =>
      obtain ⟨k, hst, hmutex, _⟩ : ∃ k : Pending, st = .pending k ∧ k.mutex = some addr ∧
        ∀ m, k ≠ .trylock m := h
      refine ⟨k, hst, ?_, ?_⟩
      · rintro rfl
        cases hmutex
      · rintro x rfl
        cases hmutex

namespace Sim

variable {isLockRace : Bool} {s x : System (RandomActiveTester ρ)} {c : Control} {t : ThrID}
  {ret_addr : Addr} {op : Op}

theorem pcs_eq (h : Sim isLockRace s x c) {pc : Pc} (hpc : x.pcs t = pc)
    (hlocked : pc.locked = pc) : s.pcs t = pc := by
  rcases h.pcs t with heq | heq
  · exact heq.trans hpc
  · rw [heq, hpc, hlocked]

theorem stage_of_paused (h : Sim isLockRace s x c) {u : ThrID}
    (hu : x.scheduler.isPaused u = true) :
    ∃ k, (s.pcs u).stage = .pending k ∧ k ≠ .start ∧ ∀ x, k ≠ .join x :=
  (h.covers.known u hu).2.pending

theorem posix (h : Sim isLockRace s x c) (hposix : x.Posix t ret_addr op) :
    s.Posix t ret_addr op := by
  refine hposix.congr ?_ (fun u => ?_) (fun u => ?_) h.barriers
  · have hsame : s.tracker.shade x.tracker = x.tracker := h.covers.shadow.same
    rw [← hsame]
    rfl
  · rcases h.pcs u with heq | heq
    · rw [heq]
    · rw [heq, Pc.mutex_locked]
  · rcases h.pcs u with heq | heq
    · rw [heq]
    · rw [heq, Pc.sem_locked]

theorem sem_map (h : Sim isLockRace s x c) : x.tracker.sem_map = s.tracker.sem_map ∧
    x.tracker.wait_sem_map = s.tracker.wait_sem_map := by
  have hsame : s.tracker.shade x.tracker = x.tracker := h.covers.shadow.same
  rw [← hsame]
  exact ⟨rfl, rfl⟩

-- Where thread `u` comes to in the two runs. A postponed thread gets no further with its operation.
structure Moved (s x : System (RandomActiveTester ρ)) (u : ThrID) (spc xpc : Pc) : Prop where
  alike : spc = xpc ∨ spc = xpc.locked
  kept : x.scheduler.isPaused u = true → spc.stage = (s.pcs u).stage ∧
    (spc ≠ xpc ↔ s.pcs u ≠ x.pcs u)

theorem moved_refl (h : Sim isLockRace s x c) (u : ThrID) : Moved s x u (s.pcs u) (x.pcs u) :=
  ⟨h.pcs u, fun _ => ⟨rfl, Iff.rfl⟩⟩

theorem moved_of_free {pc : Pc} {u : ThrID} (hfree : x.scheduler.isPaused u = false) :
    Moved s x u pc pc :=
  ⟨Or.inl rfl, fun hpaused => by rw [hfree] at hpaused; cases hpaused⟩

theorem moved_update (h : Sim isLockRace s x c) {spc xpc : Pc} (hself : Moved s x t spc xpc)
    (u : ThrID) :
    Moved s x u (Function.update s.pcs t spc u) (Function.update x.pcs t xpc u) := by
  by_cases hut : u = t
  · subst hut
    rw [Function.update_self, Function.update_self]
    exact hself
  · rw [Function.update_of_ne hut, Function.update_of_ne hut]
    exact h.moved_refl u

-- What has to be said of a step that changes nothing but the posts and the places of the threads.
theorem next (h : Sim isLockRace s x c) {s' x' : System (RandomActiveTester ρ)}
    (hnext : (∃ c', Serial s' c') ∧ s'.Tracked) (hrunning : x'.stopped = none)
    (hscheduler : ∃ access, x'.scheduler = { x.scheduler with access }) (hlog : s'.log = s.log)
    (hlock : s'.global_lock = x'.global_lock) (hbarriers : s'.barriers = x'.barriers)
    (hpcs : ∀ u, Moved s x u (s'.pcs u) (x'.pcs u))
    (hshadow : Shadow (fun u => x.scheduler.isPaused u = true) (fun u => s.pcs u ≠ x.pcs u) True
      s'.tracker x'.tracker)
    (hposted : ∀ u n, s'.tracker.sem_map u = some (n + 1) →
      ∃ m, s.tracker.sem_map u = some (m + 1)) : ∃ c', Sim isLockRace s' x' c' := by
  obtain ⟨⟨c', hserial⟩, htracked⟩ := hnext
  obtain ⟨access, hte⟩ := hscheduler
  have hpaused (u : ThrID) : x'.scheduler.isPaused u = x.scheduler.isPaused u := by
    rw [hte]
    rfl
  refine ⟨c', hserial, htracked, hrunning, ?_, ?_, hlock, hbarriers, fun u => (hpcs u).alike,
    ⟨?_, fun u hu => ?_⟩, fun u n hu => ?_⟩
  · rw [hte]
    exact h.failed
  · rw [hlog]
    exact h.read
  · simp only [hpaused]
    exact hshadow.congr fun u hu => ((hpcs u).kept hu).2
  · have hu : x.scheduler.isPaused u = true := by rwa [← hpaused]
    rw [((hpcs u).kept hu).1, hte]
    exact h.covers.known u hu
  · obtain ⟨m, hm⟩ := hposted u n hu
    rw [hpaused]
    exact h.posted u m hm

-- The base class may take the same step.
theorem follow (h : Sim isLockRace s x c) {s' : System (RandomActiveTester ρ)}
    (hasks : (x.pcs t).inProgram = true → x.Posix t ret_addr op)
    (hstep : System.Transition (System.guide none none) s t ret_addr op s')
    (hrunning : s'.stopped = none) : (∃ c', Serial s' c') ∧ s'.Tracked := by
  have hstep' : s.step (System.guide none none) t ret_addr op = some s' :=
    System.step_iff.mpr ⟨h.serial.running, hstep⟩
  refine ⟨?_, h.tracked.step h.serial hstep' hrunning fun hprogram => ?_⟩
  · rcases h.serial.step hstep' with hserial | hhalted
    · exact hserial
    · exact absurd hrunning hhalted.stopped
  · refine h.posix (hasks ?_)
    obtain ⟨ret_val, hpc⟩ := Pc.program_of_inProgram hprogram
    rcases h.pcs t with heq | heq
    · rwa [← heq]
    · rw [hpc] at heq
      cases hx : x.pcs t with
      | program r => rfl
      | _ => rw [hx] at heq; cases heq

-- The steps that run no section.
theorem quiet (h : Sim isLockRace s x c) {v : Virtual (RandomActiveTester ρ)}
    {x' : System (RandomActiveTester ρ)} (access : ThrID → Addr)
    (hasks : (x.pcs t).inProgram = true → x.Posix t ret_addr op)
    (hsection : (x.pcs t).isSection = false)
    (hstep : ({ x with scheduler := { x.scheduler with access } }).step v t ret_addr op = some x') :
    ∃ s' c', Sim isLockRace s' x' c' := by
  obtain ⟨_, htransition⟩ := System.step_iff.mp hstep
  have hnext (s' : System (RandomActiveTester ρ))
      (hstep' : System.Transition (System.guide none none) s t ret_addr op s')
      (hrunning : s'.stopped = none) := h.follow hasks hstep' hrunning
  have hfree {u : ThrID} (hnot : ∀ k, (s.pcs u).stage ≠ .pending k) :
      x.scheduler.isPaused u = false := by
    by_contra hpaused
    obtain ⟨k, hk, _⟩ := h.stage_of_paused (by simpa using hpaused)
    exact hnot k hk
  have hshadow := h.covers.shadow
  cases htransition with
  | asks ret_val hpc =>
      have hspc := h.pcs_eq hpc rfl
      refine ⟨_, h.next (hnext _ (.asks ret_val hspc) h.serial.running) h.running ⟨access, rfl⟩ rfl
        h.lock h.barriers (h.moved_update (moved_of_free (hfree ?_))) hshadow fun u n hu => ⟨n, hu⟩⟩
      rw [hspc]
      exact fun _ => by rintro ⟨⟩
  | spawns addr child hpc =>
      have hspc := h.pcs_eq hpc rfl
      have hchild : s.pcs child = .created := h.serial.controlled.spawn t addr child _ hspc
      have hfreechild : x.scheduler.isPaused child = false := by
        by_contra hpaused
        obtain ⟨k, hk, hstart, _⟩ := h.stage_of_paused (by simpa using hpaused)
        rw [hchild] at hk
        cases hk
        exact hstart rfl
      have hfreeself : x.scheduler.isPaused t = false := hfree
        (by rw [hspc]; exact fun _ => by rintro ⟨⟩)
      refine ⟨_, h.next (hnext _ (.spawns addr child hspc) h.serial.running) h.running ⟨access, rfl⟩ rfl
        h.lock h.barriers (fun u => ?_) hshadow fun u n hu => ⟨n, hu⟩⟩
      by_cases hut : u = t
      · subst hut
        simp only [System.goto, Function.update_self]
        exact moved_of_free hfreeself
      · simp only [System.goto, Function.update_of_ne hut]
        exact h.moved_update (moved_of_free hfreechild) u
  | starts hpc hlock =>
      have hspc := h.pcs_eq hpc rfl
      refine ⟨_, h.next (hnext _ (.starts hspc (h.lock.trans hlock)) h.serial.running) h.running
        ⟨access, rfl⟩ rfl h.lock h.barriers (h.moved_update ⟨Or.inl rfl, fun hpaused => ?_⟩)
        hshadow fun u n hu => ⟨n, hu⟩⟩
      obtain ⟨k, hk, hstart, _⟩ := h.stage_of_paused hpaused
      rw [hspc] at hk
      cases hk
      exact absurd rfl hstart
  | unlocks r hpc =>
      obtain ⟨r', hspc, hr⟩ : ∃ r', s.pcs t = .launched r' ∧ (r' = r ∨ r' = r.locked) := by
        rcases h.pcs t with heq | heq
        · exact ⟨r, heq.trans hpc, Or.inl rfl⟩
        · exact ⟨r.locked, heq.trans (by rw [hpc]; rfl), Or.inr rfl⟩
      refine ⟨_, h.next (hnext _ (.unlocks r' hspc) h.serial.running) h.running ⟨access, rfl⟩ rfl
        rfl h.barriers (h.moved_update ⟨?_, fun _ => ⟨?_, ?_⟩⟩) hshadow fun u n hu => ⟨n, hu⟩⟩
      · rcases hr with rfl | rfl
        · exact Or.inl rfl
        · exact Or.inr rfl
      · rw [hspc]
        rfl
      · rw [hspc, hpc, Ne, Ne, Pc.leaving.injEq, Pc.launched.injEq]
  | leaves r hpc hlock =>
      obtain ⟨r', hspc, hr⟩ : ∃ r', s.pcs t = .leaving r' ∧ (r' = r ∨ r' = r.locked) := by
        rcases h.pcs t with heq | heq
        · exact ⟨r, heq.trans hpc, Or.inl rfl⟩
        · exact ⟨r.locked, heq.trans (by rw [hpc]; rfl), Or.inr rfl⟩
      refine ⟨_, h.next (hnext _ (.leaves r' hspc (h.lock.trans hlock)) h.serial.running) h.running
        ⟨access, rfl⟩ rfl h.lock h.barriers (h.moved_update ⟨?_, fun _ => ⟨?_, ?_⟩⟩) hshadow
        fun u n hu => ⟨n, hu⟩⟩
      · rcases hr with rfl | rfl
        · exact Or.inl rfl
        · exact Or.inr rfl
      · rw [hspc]
        rfl
      · rw [hspc, hpc, Ne, Ne, Pc.blocked.injEq, Pc.leaving.injEq]
  | resumes k n hpc hsem =>
      obtain ⟨k', hspc, hk⟩ : ∃ k', s.pcs t = .blocked (.pause k') ∧ (k' = k ∨ k' = k.locked) := by
        rcases h.pcs t with heq | heq
        · exact ⟨k, heq.trans hpc, Or.inl rfl⟩
        · exact ⟨k.locked, heq.trans (by rw [hpc]; rfl), Or.inr rfl⟩
      have hsem' : s.tracker.sem_map t = some (n + 1) := by
        rw [← h.sem_map.1]
        exact hsem
      have hunpaused := h.posted t n hsem'
      refine ⟨_, h.next (hnext _ (.resumes k' n hspc hsem') h.serial.running) h.running ⟨access, rfl⟩
        rfl h.lock h.barriers (h.moved_update ⟨?_, fun hpaused => ?_⟩)
        (hshadow.keep (congrArg (fun y => y.setSem t n) hshadow.same) (fun _ => rfl) fun _ => rfl)
        fun u m hu => ?_⟩
      · rcases hk with rfl | rfl
        · exact Or.inl rfl
        · exact Or.inr rfl
      · rw [hunpaused] at hpaused
        cases hpaused
      · by_cases hut : u = t
        · exact ⟨n, by rw [hut, hsem']⟩
        · exact ⟨m, by rwa [← Function.update_of_ne (f := s.tracker.sem_map) hut (some n)]⟩
  | wakes w n hpc hsem =>
      have hspc := h.pcs_eq hpc rfl
      have hsem' : s.tracker.wait_sem_map t = some (n + 1) := by
        rw [← h.sem_map.2]
        exact hsem
      refine ⟨_, h.next (hnext _ (.wakes w n hspc hsem') h.serial.running) h.running ⟨access, rfl⟩ rfl
        h.lock h.barriers (h.moved_update (moved_of_free (hfree ?_)))
        (hshadow.keep (congrArg (fun y => y.setWaitSem t n) hshadow.same) (fun _ => rfl)
          fun _ => rfl) fun u m hu => ⟨m, hu⟩⟩
      rw [hspc]
      exact fun _ => by rintro ⟨⟩
  | runs hpc hlock hready =>
      rw [hsection] at hpc
      cases hpc

end Sim

end Thrille
