import Thrille.Serializer.Control

namespace Thrille

-- Who may run the program, or who is being let go. A signaller does nothing while the thread
-- that it has woken is on its way to its mutex.
inductive Control
  | nobody
  | running (t : ThrID)
  | posted (t : ThrID)
  | timeout (t : ThrID)
  | handed (t signaller : ThrID)
  | serving (t signaller : ThrID)
  deriving DecidableEq

-- Where a thread that does not run is going to stay.
def Pc.heading (signalled : Bool) : Pc → Option Rest
  | threadStart => some (.pause .start)
  | launched r => some r
  | leaving r => some r
  | blocked r => some r
  | checkTimeout w => if signalled then some (.pause (.relock w false)) else none
  | _ => none

def Pc.Rests (signalled : Bool) (pc : Pc) : Prop :=
  pc = unborn ∨ pc = created ∨ (pc.heading signalled).isSome = true

-- The only code that a resting thread still runs is the end of a wait.
theorem Pc.Rests.checkTimeout {signalled : Bool} {pc : Pc} (h : pc.Rests signalled)
    (hruns : pc.runs = true) : ∃ w, pc = .checkTimeout w ∧ signalled = true := by
  rcases h with rfl | rfl | hsome
  · cases hruns
  · cases hruns
  · cases pc with
    | checkTimeout w =>
        refine ⟨w, rfl, ?_⟩
        by_contra hnot
        simp [heading, hnot] at hsome
    | _ => simp [runs, heading] at hruns hsome

theorem Pc.update_unborn (pcs : ThrID → Pc) (t : ThrID) (pc : Pc) (hborn : pcs t ≠ .unborn)
    (hborn' : pc ≠ .unborn) (u : ThrID) :
    Function.update pcs t pc u = .unborn ↔ pcs u = .unborn := by
  by_cases hu : u = t
  · subst hu
    simp [hborn, hborn']
  · simp [hu]

namespace Control

def semOf (t : ThrID) : Control → Nat
  | posted u => if t = u then 1 else 0
  | _ => 0

def waitSemOf (t : ThrID) : Control → Nat
  | timeout u => if t = u then 1 else 0
  | handed u _ => if t = u then 1 else 0
  | _ => 0

-- A signaller waits for the thread.
def served (t : ThrID) : Control → Bool
  | handed u _ => t == u
  | serving u _ => t == u
  | _ => false

-- The thread has been launched out of its wait.
def timedOut (t : ThrID) (pc : Pc) : Control → Bool
  | timeout u => t == u
  | running u => t == u && pc.wakes.isSome
  | _ => false

def Role (t : ThrID) (signalled : Bool) (pc : Pc) : Control → Prop
  | nobody => pc.Rests signalled
  | running u =>
      if t = u then pc.runs = true ∧ ∀ w, pc.wakes = some w → w.timed = true
      else pc.Rests signalled
  | posted u =>
      if t = u then ∃ k, pc.heading signalled = some (.pause k) else pc.Rests signalled
  | timeout u =>
      if t = u then ∃ w, pc.heading signalled = some (.wait w) ∧ w.timed = true
      else pc.Rests signalled
  | handed u x =>
      if t = u then u ≠ x ∧ ∃ w, pc.heading signalled = some (.wait w)
      else if t = x then ∃ s, pc = .waitReady s u
      else pc.Rests signalled
  | serving u x =>
      if t = u then u ≠ x ∧ ∃ w, pc.wakes = some w ∧ pc ≠ .checkTimeout w
      else if t = x then ∃ s, pc = .waitReady s u
      else pc.Rests signalled

end Control

structure Controlled (tr : ExecutionTracker) (pcs : ThrID → Pc) (c : Control) : Prop where
  sem : ∀ t, pcs t ≠ .unborn → tr.sem_map t = some (c.semOf t)
  waitSem : ∀ t, pcs t ≠ .unborn → tr.wait_sem_map t = some (c.waitSemOf t)
  ready : ∀ t, pcs t ≠ .unborn → tr.wait_ready_map t = !c.served t
  signalled : ∀ t, pcs t ≠ .unborn → tr.was_signalled_map t = !c.timedOut t (pcs t)
  role : ∀ t, c.Role t (tr.was_signalled_map t) (pcs t)
  created : ∀ child, pcs child = .created → ∃ t ret_addr ret_val, c = .running t ∧
    pcs t = .spawn ret_addr child ret_val
  child : ∀ t ret_addr child ret_val, pcs t = .beforeCreate ret_addr child ret_val →
    pcs child = .unborn ∧ child < tr.next_id
  spawn : ∀ t ret_addr child ret_val, pcs t = .spawn ret_addr child ret_val →
    pcs child = .created
  fresh : ∀ t, tr.next_id ≤ t → pcs t = .unborn
  copy : ∀ t sig u, pcs t = .handoff sig u → sig.cond_map = tr.cond_map

-- The places where a thread is between two of its steps that belong together.
def Pc.special : Pc → Bool
  | created => true
  | beforeCreate .. => true
  | spawn .. => true
  | handoff .. => true
  | _ => false

namespace Controlled

variable {tr tr' : ExecutionTracker} {pcs : ThrID → Pc} {c : Control} {t : ThrID}

-- A thread whose program counter runs is the runner, or takes part in a hand-over.
theorem runs_cases (h : Controlled tr pcs c) (hruns : (pcs t).runs = true) :
    c = .running t ∨
    (∃ w, pcs t = .checkTimeout w ∧ tr.was_signalled_map t = true ∧ c ≠ .running t) ∨
    (∃ x w, c = .serving t x ∧ (pcs t).wakes = some w ∧ pcs t ≠ .checkTimeout w) ∨
    (∃ u sig, (c = .handed u t ∨ c = .serving u t) ∧ t ≠ u ∧ pcs t = .waitReady sig u) := by
  have hrole := h.role t
  have hrests (hc : c ≠ .running t)
      (hrests : (pcs t).Rests (tr.was_signalled_map t)) :
      ∃ w, pcs t = .checkTimeout w ∧ tr.was_signalled_map t = true ∧
        c ≠ .running t := by
    obtain ⟨w, hw, hsignalled⟩ := hrests.checkTimeout hruns
    exact ⟨w, hw, hsignalled, hc⟩
  cases c with
  | nobody => exact Or.inr (Or.inl (hrests nofun hrole))
  | running u =>
      by_cases heq : t = u
      · exact Or.inl (by rw [heq])
      · simp only [Control.Role, if_neg heq] at hrole
        exact Or.inr (Or.inl (hrests (fun h => heq (Control.running.inj h).symm) hrole))
  | posted u =>
      by_cases heq : t = u
      · simp only [Control.Role, if_pos heq] at hrole
        obtain ⟨k, hk⟩ := hrole
        exact Or.inr (Or.inl (hrests nofun (Or.inr (Or.inr (by rw [hk]; rfl)))))
      · simp only [Control.Role, if_neg heq] at hrole
        exact Or.inr (Or.inl (hrests nofun hrole))
  | timeout u =>
      by_cases heq : t = u
      · simp only [Control.Role, if_pos heq] at hrole
        obtain ⟨w, hw, _⟩ := hrole
        exact Or.inr (Or.inl (hrests nofun (Or.inr (Or.inr (by rw [hw]; rfl)))))
      · simp only [Control.Role, if_neg heq] at hrole
        exact Or.inr (Or.inl (hrests nofun hrole))
  | handed u x =>
      by_cases heq : t = u
      · simp only [Control.Role, if_pos heq] at hrole
        obtain ⟨_, w, hw⟩ := hrole
        exact Or.inr (Or.inl (hrests nofun (Or.inr (Or.inr (by rw [hw]; rfl)))))
      · simp only [Control.Role, if_neg heq] at hrole
        by_cases hx : t = x
        · subst hx
          rw [if_pos rfl] at hrole
          obtain ⟨sig, hsig⟩ := hrole
          exact Or.inr (Or.inr (Or.inr ⟨u, sig, Or.inl rfl, heq, hsig⟩))
        · rw [if_neg hx] at hrole
          exact Or.inr (Or.inl (hrests nofun hrole))
  | serving u x =>
      by_cases heq : t = u
      · subst heq
        simp only [Control.Role, if_true] at hrole
        obtain ⟨_, w, hw, hnot⟩ := hrole
        exact Or.inr (Or.inr (Or.inl ⟨x, w, rfl, hw, hnot⟩))
      · simp only [Control.Role, if_neg heq] at hrole
        by_cases hx : t = x
        · subst hx
          rw [if_pos rfl] at hrole
          obtain ⟨sig, hsig⟩ := hrole
          exact Or.inr (Or.inr (Or.inr ⟨u, sig, Or.inr rfl, heq, hsig⟩))
        · rw [if_neg hx] at hrole
          exact Or.inr (Or.inl (hrests nofun hrole))

theorem runner (h : Controlled tr pcs c) (hruns : (pcs t).runs = true)
    (hwakes : (pcs t).wakes = none) (hready : ∀ sig u, pcs t ≠ .waitReady sig u) :
    c = .running t := by
  rcases h.runs_cases hruns with hc | ⟨w, hw, _⟩ | ⟨x, w, _, hw, _⟩ | ⟨u, sig, _, _, hsig⟩
  · exact hc
  · rw [hw] at hwakes
    cases hwakes
  · rw [hwakes] at hw
    cases hw
  · exact absurd hsig (hready sig u)

-- While a thread runs, no other one is in code that runs.
theorem others (h : Controlled tr pcs (.running t)) (u : ThrID) (hu : u ≠ t) :
    (pcs u).Rests (tr.was_signalled_map u) := by
  have hrole := h.role u
  simpa only [Control.Role, if_neg hu] using hrole

-- Thread `t` takes a step that changes no post.
theorem goto (h : Controlled tr pcs c) (pc' : Pc) (hsem : tr'.sem_map = tr.sem_map)
    (hwait : tr'.wait_sem_map = tr.wait_sem_map) (hready : tr'.wait_ready_map = tr.wait_ready_map)
    (hsignalled : tr'.was_signalled_map = tr.was_signalled_map)
    (hnext : tr.next_id ≤ tr'.next_id) (hborn : pcs t ≠ .unborn) (hborn' : pc' ≠ .unborn)
    (hcreated : pc' ≠ .created) (htimed : c.timedOut t pc' = c.timedOut t (pcs t))
    (hrole : c.Role t (tr.was_signalled_map t) pc')
    (hold : pcs t ≠ .created)
    (hspawn : ∀ ret_addr child ret_val, pcs t ≠ .spawn ret_addr child ret_val)
    (hspawn' : ∀ ret_addr child ret_val, pc' ≠ .spawn ret_addr child ret_val)
    (hchild : ∀ ret_addr child ret_val, pc' = .beforeCreate ret_addr child ret_val →
      pcs child = .unborn ∧ child < tr'.next_id)
    (hcopy : ∀ sig u, pc' = .handoff sig u → sig.cond_map = tr'.cond_map)
    (hquiet : ∀ u, u ≠ t → ∀ sig v, pcs u = .handoff sig v → tr'.cond_map = tr.cond_map) :
    Controlled tr' (Function.update pcs t pc') c := by
  have hunborn := Pc.update_unborn pcs t pc' hborn hborn'
  refine ⟨fun u hu => ?_, fun u hu => ?_, fun u hu => ?_, fun u hu => ?_, fun u => ?_,
    fun child hu => ?_, fun u ret_addr child ret_val hu => ?_,
    fun u ret_addr child ret_val hu => ?_, fun u hu => ?_, fun u sig v hu => ?_⟩
  · rw [hsem]
    exact h.sem u (mt (hunborn u).mpr hu)
  · rw [hwait]
    exact h.waitSem u (mt (hunborn u).mpr hu)
  · rw [hready]
    exact h.ready u (mt (hunborn u).mpr hu)
  · rw [hsignalled, h.signalled u (mt (hunborn u).mpr hu)]
    by_cases hut : u = t
    · subst hut
      rw [Function.update_self, htimed]
    · rw [Function.update_of_ne hut]
  · rw [hsignalled]
    by_cases hut : u = t
    · subst hut
      rw [Function.update_self]
      exact hrole
    · rw [Function.update_of_ne hut]
      exact h.role u
  · have hne : child ≠ t := by
      rintro rfl
      rw [Function.update_self] at hu
      exact hcreated hu
    rw [Function.update_of_ne hne] at hu
    obtain ⟨r, ret_addr, ret_val, hc, hr⟩ := h.created child hu
    have hrt : r ≠ t := by
      rintro rfl
      exact hspawn _ _ _ hr
    exact ⟨r, ret_addr, ret_val, hc, by rw [Function.update_of_ne hrt]; exact hr⟩
  · rw [hunborn]
    by_cases hut : u = t
    · subst hut
      rw [Function.update_self] at hu
      exact hchild ret_addr child ret_val hu
    · rw [Function.update_of_ne hut] at hu
      obtain ⟨hnew, hlt⟩ := h.child u ret_addr child ret_val hu
      exact ⟨hnew, Nat.lt_of_lt_of_le hlt hnext⟩
  · by_cases hut : u = t
    · subst hut
      rw [Function.update_self] at hu
      exact absurd hu (hspawn' _ _ _)
    · rw [Function.update_of_ne hut] at hu
      have hchild := h.spawn u ret_addr child ret_val hu
      have hne : child ≠ t := by
        rintro rfl
        exact hold hchild
      rw [Function.update_of_ne hne]
      exact hchild
  · rw [hunborn]
    exact h.fresh u (Nat.le_trans hnext hu)
  · by_cases hut : u = t
    · subst hut
      rw [Function.update_self] at hu
      exact hcopy sig v hu
    · rw [Function.update_of_ne hut] at hu
      rw [hquiet u hut sig v hu]
      exact h.copy u sig v hu

-- No thread is between its creation and its start, and nobody runs at one of these places.
theorem others_not (h : Controlled tr pcs (.running t)) (u : ThrID) (hu : u ≠ t) (pc : Pc)
    (hpc : pcs u = pc) (hruns : pc.runs = true) : ∃ w, pc = .checkTimeout w := by
  obtain ⟨w, hw, _⟩ := (h.others u hu).checkTimeout (by rw [hpc]; exact hruns)
  exact ⟨w, hpc ▸ hw⟩

-- The original `pthread_create` starts the child.
theorem start (h : Controlled tr pcs (.running t)) (ret_addr : Addr) (child : ThrID)
    (ret_val : Int) (hpc : pcs t = .spawn ret_addr child ret_val) :
    Controlled tr (Function.update (Function.update pcs child .threadStart) t
      (.afterCreate ret_addr ret_val)) (.running t) := by
  have hcreated : pcs child = .created := h.spawn t ret_addr child ret_val hpc
  have hne : child ≠ t := by
    rintro rfl
    rw [hpc] at hcreated
    cases hcreated
  have hat (u : ThrID) : Function.update (Function.update pcs child .threadStart) t
      (.afterCreate ret_addr ret_val) u =
      if u = t then .afterCreate ret_addr ret_val else if u = child then .threadStart
        else pcs u := by
    by_cases hut : u = t
    · simp [hut]
    · by_cases huc : u = child
      · subst huc
        simp [hut]
      · simp [hut, huc]
  have hunborn (u : ThrID) : Function.update (Function.update pcs child .threadStart) t
      (.afterCreate ret_addr ret_val) u = .unborn ↔ pcs u = .unborn := by
    rw [hat]
    by_cases hut : u = t
    · subst hut
      simp [hpc]
    · by_cases huc : u = child
      · subst huc
        simp [hut, hcreated]
      · simp [hut, huc]
  have hold (u : ThrID) (pc : Pc) (hruns : pc.runs = true) (hnew : pc ≠ .afterCreate ret_addr ret_val)
      (hw : pc.wakes = none) (hu : Function.update (Function.update pcs child .threadStart) t
        (.afterCreate ret_addr ret_val) u = pc) : False := by
    rw [hat] at hu
    by_cases hut : u = t
    · rw [if_pos hut] at hu
      exact hnew hu.symm
    · rw [if_neg hut] at hu
      by_cases huc : u = child
      · rw [if_pos huc] at hu
        subst hu
        cases hruns
      · rw [if_neg huc] at hu
        obtain ⟨w, rfl⟩ := h.others_not u hut pc hu hruns
        cases hw
  refine ⟨fun u hu => h.sem u (mt (hunborn u).mpr hu),
    fun u hu => h.waitSem u (mt (hunborn u).mpr hu),
    fun u hu => h.ready u (mt (hunborn u).mpr hu), fun u hu => ?_, fun u => ?_,
    fun u hu => ?_, fun u ra v rv hu => ?_, fun u ra v rv hu => ?_, fun u hu => ?_,
    fun u sig v hu => ?_⟩
  · rw [h.signalled u (mt (hunborn u).mpr hu), hat]
    by_cases hut : u = t
    · subst hut
      simp [Control.timedOut, hpc, Pc.wakes]
    · have hbeq : (u == t) = false := by simpa using hut
      simp [Control.timedOut, hbeq]
  · rw [hat]
    by_cases hut : u = t
    · subst hut
      simp [Control.Role, Pc.runs, Pc.wakes]
    · have hrests := h.others u hut
      simp only [Control.Role, if_neg hut]
      split
      · exact Or.inr (Or.inr rfl)
      · exact hrests
  · rw [hat] at hu
    by_cases hut : u = t
    · rw [if_pos hut] at hu
      cases hu
    · rw [if_neg hut] at hu
      by_cases huc : u = child
      · rw [if_pos huc] at hu
        cases hu
      · rw [if_neg huc] at hu
        -- only the child of this thread was created
        obtain ⟨r, ra, rv, hc, hr⟩ := h.created u hu
        cases hc
        rw [hpc] at hr
        cases hr
        exact absurd rfl huc
  · exact (hold u (.beforeCreate ra v rv) rfl nofun rfl hu).elim
  · exact (hold u (.spawn ra v rv) rfl nofun rfl hu).elim
  · exact (hunborn u).mpr (h.fresh u hu)
  · exact (hold u (.handoff sig v) rfl nofun rfl hu).elim

theorem of_not_special (hspecial : ∀ u, (pcs u).special = false)
    (hsem : ∀ u, pcs u ≠ .unborn → tr.sem_map u = some (c.semOf u))
    (hwait : ∀ u, pcs u ≠ .unborn → tr.wait_sem_map u = some (c.waitSemOf u))
    (hready : ∀ u, pcs u ≠ .unborn → tr.wait_ready_map u = !c.served u)
    (hsignalled : ∀ u, pcs u ≠ .unborn → tr.was_signalled_map u = !c.timedOut u (pcs u))
    (hrole : ∀ u, c.Role u (tr.was_signalled_map u) (pcs u))
    (hfresh : ∀ u, tr.next_id ≤ u → pcs u = .unborn) : Controlled tr pcs c := by
  have hnot (u : ThrID) (pc : Pc) (hu : pcs u = pc) (hpc : pc.special = true) : False := by
    have h := hspecial u
    rw [hu, hpc] at h
    cases h
  exact ⟨hsem, hwait, hready, hsignalled, hrole, fun u hu => (hnot u .created hu rfl).elim,
    fun u ra v rv hu => (hnot u (.beforeCreate ra v rv) hu rfl).elim,
    fun u ra v rv hu => (hnot u (.spawn ra v rv) hu rfl).elim, hfresh,
    fun u sig v hu => (hnot u (.handoff sig v) hu rfl).elim⟩

-- Only a runner is at one of the special places, or it has just created a thread.
theorem not_special (h : Controlled tr pcs c) (u : ThrID)
    (hrunner : ∀ t, c = .running t → (pcs t).special = false) : (pcs u).special = false := by
  cases hpc : pcs u with
  | created =>
      obtain ⟨t, ra, rv, hc, hspawn⟩ := h.created u hpc
      have hnot := hrunner t hc
      rw [hspawn] at hnot
      cases hnot
  | beforeCreate ra v rv =>
      have hc : c = .running u := h.runner (by rw [hpc]; rfl) (by rw [hpc]; rfl) (by simp [hpc])
      have hnot := hrunner u hc
      rw [hpc] at hnot
      cases hnot
  | spawn ra v rv =>
      have hc : c = .running u := h.runner (by rw [hpc]; rfl) (by rw [hpc]; rfl) (by simp [hpc])
      have hnot := hrunner u hc
      rw [hpc] at hnot
      cases hnot
  | handoff sig v =>
      have hc : c = .running u := h.runner (by rw [hpc]; rfl) (by rw [hpc]; rfl) (by simp [hpc])
      have hnot := hrunner u hc
      rw [hpc] at hnot
      cases hnot
  | _ => rfl

-- A thread takes a post of `sem_map`.
theorem takeSem (h : Controlled tr pcs c) (k : Pending) (n : Nat)
    (hpc : pcs t = .blocked (.pause k)) (hsem : tr.sem_map t = some (n + 1)) :
    c = .posted t ∧
      Controlled (tr.setSem t n) (Function.update pcs t (.resume k)) (.running t) := by
  have hborn : pcs t ≠ .unborn := by simp [hpc]
  have hcount : c.semOf t = n + 1 := by
    have hsem' := h.sem t hborn
    rw [hsem] at hsem'
    exact (Option.some.inj hsem').symm
  have hc : c = .posted t := by
    cases c with
    | posted u =>
        by_cases heq : t = u
        · rw [heq]
        · simp [Control.semOf, heq] at hcount
    | _ => cases hcount
  subst hc
  have hn : n = 0 := by simpa [Control.semOf] using hcount.symm
  subst hn
  have hunborn := Pc.update_unborn pcs t (.resume k) hborn nofun
  refine ⟨rfl, of_not_special (fun u => ?_) (fun u hu => ?_) (fun u hu => ?_) (fun u hu => ?_)
    (fun u hu => ?_) (fun u => ?_) (fun u hu => ?_)⟩
  · by_cases hut : u = t
    · subst hut
      simp [Pc.special]
    · rw [Function.update_of_ne hut]
      exact h.not_special u nofun
  · by_cases hut : u = t
    · subst hut
      simp [Control.semOf]
    · have hu' := h.sem u (mt (hunborn u).mpr hu)
      simpa [Control.semOf, hut] using hu'
  · exact h.waitSem u (mt (hunborn u).mpr hu)
  · exact h.ready u (mt (hunborn u).mpr hu)
  · have hu' := h.signalled u (mt (hunborn u).mpr hu)
    by_cases hut : u = t
    · subst hut
      simpa [Control.timedOut, Pc.wakes] using hu'
    · have hbeq : (u == t) = false := by simpa using hut
      simpa [Control.timedOut, hbeq] using hu'
  · have hrole := h.role u
    by_cases hut : u = t
    · subst hut
      simp [Control.Role, Pc.runs, Pc.wakes]
    · simpa [Control.Role, hut] using hrole
  · exact (hunborn u).mpr (h.fresh u hu)

-- A thread takes a post of `wait_sem_map`: that of the launch that lets it time out, or that of
-- the signal that hands the condition over.
theorem takeWaitSem (h : Controlled tr pcs c) (w : Wait) (n : Nat)
    (hpc : pcs t = .blocked (.wait w)) (hsem : tr.wait_sem_map t = some (n + 1)) :
    ∃ c', Controlled (tr.setWaitSem t n) (Function.update pcs t (.woken w)) c' ∧
      (c = .timeout t ∧ c' = .running t ∨ ∃ x, c = .handed t x ∧ c' = .serving t x) := by
  have hborn : pcs t ≠ .unborn := by simp [hpc]
  have hcount : c.waitSemOf t = n + 1 := by
    have hsem' := h.waitSem t hborn
    rw [hsem] at hsem'
    exact (Option.some.inj hsem').symm
  have hunborn := Pc.update_unborn pcs t (.woken w) hborn nofun
  have hspecial (hc : ∀ u, c ≠ .running u) (u : ThrID) :
      (Function.update pcs t (.woken w) u).special = false := by
    by_cases hut : u = t
    · subst hut
      simp [Pc.special]
    · rw [Function.update_of_ne hut]
      exact h.not_special u fun v hv => absurd hv (hc v)
  cases c with
  | timeout u =>
      have heq : u = t := by
        by_contra hne
        simp [Control.waitSemOf, Ne.symm hne] at hcount
      subst heq
      have hn : n = 0 := by simpa [Control.waitSemOf] using hcount.symm
      subst hn
      refine ⟨.running u, of_not_special (hspecial nofun) (fun v hv => ?_) (fun v hv => ?_)
        (fun v hv => ?_) (fun v hv => ?_) (fun v => ?_) (fun v hv => ?_), Or.inl ⟨rfl, rfl⟩⟩
      · exact h.sem v (mt (hunborn v).mpr hv)
      · by_cases hvu : v = u
        · subst hvu
          simp [Control.waitSemOf]
        · have hv' := h.waitSem v (mt (hunborn v).mpr hv)
          simpa [Control.waitSemOf, hvu] using hv'
      · exact h.ready v (mt (hunborn v).mpr hv)
      · have hv' := h.signalled v (mt (hunborn v).mpr hv)
        by_cases hvu : v = u
        · subst hvu
          simpa [Control.timedOut, Pc.wakes] using hv'
        · have hbeq : (v == u) = false := by simpa using hvu
          simpa [Control.timedOut, hbeq] using hv'
      · have hrole := h.role v
        by_cases hvu : v = u
        · subst hvu
          simp only [Control.Role, if_true, hpc, Pc.heading] at hrole
          obtain ⟨w', hw', htimed⟩ := hrole
          cases hw'
          simp [Control.Role, Pc.runs, Pc.wakes, htimed]
        · simpa [Control.Role, hvu] using hrole
      · exact (hunborn v).mpr (h.fresh v hv)
  | handed u x =>
      have heq : u = t := by
        by_contra hne
        simp [Control.waitSemOf, Ne.symm hne] at hcount
      subst heq
      have hn : n = 0 := by simpa [Control.waitSemOf] using hcount.symm
      subst hn
      refine ⟨.serving u x, of_not_special (hspecial nofun) (fun v hv => ?_) (fun v hv => ?_)
        (fun v hv => ?_) (fun v hv => ?_) (fun v => ?_) (fun v hv => ?_), Or.inr ⟨x, rfl, rfl⟩⟩
      · exact h.sem v (mt (hunborn v).mpr hv)
      · by_cases hvu : v = u
        · subst hvu
          simp [Control.waitSemOf]
        · have hv' := h.waitSem v (mt (hunborn v).mpr hv)
          simpa [Control.waitSemOf, hvu] using hv'
      · exact h.ready v (mt (hunborn v).mpr hv)
      · exact h.signalled v (mt (hunborn v).mpr hv)
      · have hrole := h.role v
        by_cases hvu : v = u
        · subst hvu
          simp only [Control.Role, if_true] at hrole
          simp [Control.Role, hrole.1, Pc.wakes]
        · simpa [Control.Role, hvu] using hrole
      · exact (hunborn v).mpr (h.fresh v hv)
  | _ => cases hcount

-- A thread that has turned to its mutex says so: it goes on by itself after a timeout, and it
-- lets its signaller go on after a signal.
theorem signalReady (h : Controlled tr pcs c) (w : Wait) (hpc : pcs t = .signalReady w) :
    ∃ c', Controlled (tr.signalThreadReady t) (Function.update pcs t
        (if w.timed then .checkTimeout w else .leaving (.pause (.relock w false)))) c' ∧
      (c = .running t ∧ c' = .running t ∨ ∃ x, c = .serving t x ∧ c' = .running x) := by
  have hborn : pcs t ≠ .unborn := by simp [hpc]
  have hruns : (pcs t).runs = true := by rw [hpc]; rfl
  rcases h.runs_cases hruns with rfl | ⟨w', hw', _⟩ | ⟨x, w', rfl, _, _⟩ | ⟨u, sig, _, _, hsig⟩
  · have hrole := h.role t
    simp only [Control.Role, if_true, hpc, Pc.wakes] at hrole
    have htimed : w.timed = true := hrole.2 w rfl
    have hmap : (tr.signalThreadReady t).wait_ready_map = tr.wait_ready_map := by
      have hready := h.ready t hborn
      simp only [Control.served, Bool.not_false] at hready
      simp only [ExecutionTracker.signalThreadReady, ExecutionTracker.setWaitReady]
      rw [← hready, Function.update_eq_self]
    refine ⟨.running t, ?_, Or.inl ⟨rfl, rfl⟩⟩
    rw [if_pos htimed]
    refine h.goto (.checkTimeout w) rfl rfl hmap rfl (Nat.le_refl _) hborn nofun nofun ?_ ?_
      (by simp [hpc]) (by simp [hpc]) nofun nofun nofun (fun u hu sig v hv => ?_)
    · simp [Control.timedOut, hpc, Pc.wakes]
    · simp [Control.Role, Pc.runs, Pc.wakes, htimed]
    · rfl
  · rw [hpc] at hw'
    cases hw'
  · have hrole := h.role t
    simp only [Control.Role, if_true] at hrole
    obtain ⟨htx, _⟩ := hrole
    have hroleX := h.role x
    simp only [Control.Role, if_neg (Ne.symm htx), if_true] at hroleX
    obtain ⟨sig, hsig⟩ := hroleX
    have hsignalled := h.signalled t hborn
    simp only [Control.timedOut, Bool.not_false] at hsignalled
    -- whichever way the wait goes on, the thread is on its way to its semaphore
    have hrests : (if w.timed then Pc.checkTimeout w
        else .leaving (.pause (.relock w false))).Rests (tr.was_signalled_map t) := by
      rw [hsignalled]
      split <;> exact Or.inr (Or.inr rfl)
    have hpcs : (if w.timed then Pc.checkTimeout w
        else .leaving (.pause (.relock w false))) ≠ .unborn ∧
        (if w.timed then Pc.checkTimeout w
        else .leaving (.pause (.relock w false))).special = false := by
      split <;> simp [Pc.special]
    generalize (if w.timed then Pc.checkTimeout w
        else .leaving (.pause (.relock w false))) = pc' at hrests hpcs
    have hunborn := Pc.update_unborn pcs t pc' hborn hpcs.1
    have hmap : (tr.signalThreadReady t).was_signalled_map = tr.was_signalled_map := rfl
    refine ⟨.running x, of_not_special (fun u => ?_) (fun u hu => ?_) (fun u hu => ?_)
      (fun u hu => ?_) (fun u hu => ?_) (fun u => ?_) (fun u hu => ?_), Or.inr ⟨x, rfl, rfl⟩⟩
    · by_cases hut : u = t
      · subst hut
        rw [Function.update_self]
        exact hpcs.2
      · rw [Function.update_of_ne hut]
        exact h.not_special u nofun
    · exact h.sem u (mt (hunborn u).mpr hu)
    · exact h.waitSem u (mt (hunborn u).mpr hu)
    · have hu' := h.ready u (mt (hunborn u).mpr hu)
      by_cases hut : u = t
      · subst hut
        simp [ExecutionTracker.signalThreadReady, ExecutionTracker.setWaitReady, Control.served]
      · have hbeq : (u == t) = false := by simpa using hut
        simpa [ExecutionTracker.signalThreadReady, ExecutionTracker.setWaitReady, hut,
          Control.served, hbeq] using hu'
    · have hu' : tr.was_signalled_map u = true := h.signalled u (mt (hunborn u).mpr hu)
      have hx : (u == x && (Function.update pcs t pc' u).wakes.isSome) = false := by
        by_cases hux : u = x
        · subst hux
          rw [Function.update_of_ne (Ne.symm htx), hsig]
          simp [Pc.wakes]
        · simp [hux]
      rw [hmap]
      simpa [Control.timedOut, hx] using hu'
    · have hrole := h.role u
      rw [hmap]
      by_cases hut : u = t
      · subst hut
        simpa [Control.Role, htx] using hrests
      · by_cases hux : u = x
        · subst hux
          rw [Function.update_of_ne hut, hsig]
          simp [Control.Role, Pc.runs, Pc.wakes]
        · simpa [Control.Role, hut, hux] using hrole
    · exact (hunborn u).mpr (h.fresh u hu)
  · rw [hpc] at hsig
    cases hsig

-- The runner makes the data of a new thread.
theorem createChild (h : Controlled tr pcs (.running t)) (ret_addr : Addr) (child : ThrID)
    (ret_val : Int) (hpc : pcs t = .beforeCreate ret_addr child ret_val) :
    Controlled (tr.initializeThreadData child) (Function.update (Function.update pcs child .created)
      t (.spawn ret_addr child ret_val)) (.running t) := by
  obtain ⟨hnew, hlt⟩ := h.child t ret_addr child ret_val hpc
  have hne : child ≠ t := by
    rintro rfl
    rw [hpc] at hnew
    cases hnew
  have hat (u : ThrID) : Function.update (Function.update pcs child .created) t
      (.spawn ret_addr child ret_val) u =
      if u = t then .spawn ret_addr child ret_val else if u = child then .created
        else pcs u := by
    by_cases hut : u = t
    · simp [hut]
    · by_cases huc : u = child
      · subst huc
        simp [hut]
      · simp [hut, huc]
  have hold (u : ThrID) (hut : u ≠ t) (huc : u ≠ child)
      (hu : Function.update (Function.update pcs child .created) t
        (.spawn ret_addr child ret_val) u ≠ .unborn) : pcs u ≠ .unborn := by
    rw [hat, if_neg hut, if_neg huc] at hu
    exact hu
  have hself : pcs t ≠ .unborn := by simp [hpc]
  -- the other threads are where they were, and none of them is at a special place
  have hplain (u : ThrID) (hut : u ≠ t) (pc : Pc) (hruns : pc.runs = true)
      (hw : pc.wakes = none) (hu : Function.update (Function.update pcs child .created) t
        (.spawn ret_addr child ret_val) u = pc) : False := by
    rw [hat, if_neg hut] at hu
    by_cases huc : u = child
    · rw [if_pos huc] at hu
      subst hu
      cases hruns
    · rw [if_neg huc] at hu
      obtain ⟨w, rfl⟩ := h.others_not u hut pc hu hruns
      cases hw
  refine ⟨fun u hu => ?_, fun u hu => ?_, fun u hu => ?_, fun u hu => ?_, fun u => ?_,
    fun u hu => ?_, fun u ra v rv hu => ?_, fun u ra v rv hu => ?_, fun u hu => ?_,
    fun u sig v hu => ?_⟩
  · by_cases huc : u = child
    · subst huc
      simp [ExecutionTracker.initializeThreadData, Control.semOf]
    · have hmap : (tr.initializeThreadData child).sem_map u = tr.sem_map u := by
        simp [ExecutionTracker.initializeThreadData, huc]
      rw [hmap]
      by_cases hut : u = t
      · subst hut
        exact h.sem u hself
      · exact h.sem u (hold u hut huc hu)
  · by_cases huc : u = child
    · subst huc
      simp [ExecutionTracker.initializeThreadData, Control.waitSemOf]
    · have hmap : (tr.initializeThreadData child).wait_sem_map u = tr.wait_sem_map u := by
        simp [ExecutionTracker.initializeThreadData, huc]
      rw [hmap]
      by_cases hut : u = t
      · subst hut
        exact h.waitSem u hself
      · exact h.waitSem u (hold u hut huc hu)
  · by_cases huc : u = child
    · subst huc
      simp [ExecutionTracker.initializeThreadData, Control.served]
    · have hmap : (tr.initializeThreadData child).wait_ready_map u = tr.wait_ready_map u := by
        simp [ExecutionTracker.initializeThreadData, huc]
      rw [hmap]
      by_cases hut : u = t
      · subst hut
        exact h.ready u hself
      · exact h.ready u (hold u hut huc hu)
  · rw [hat]
    by_cases huc : u = child
    · subst huc
      have hbeq : (u == t) = false := by simpa using hne
      simp [ExecutionTracker.initializeThreadData, Control.timedOut, hbeq]
    · have hmap : (tr.initializeThreadData child).was_signalled_map u =
          tr.was_signalled_map u := by
        simp [ExecutionTracker.initializeThreadData, huc]
      rw [hmap]
      by_cases hut : u = t
      · subst hut
        rw [h.signalled u hself]
        simp [Control.timedOut, hpc, Pc.wakes]
      · have hbeq : (u == t) = false := by simpa using hut
        rw [h.signalled u (hold u hut huc hu)]
        simp [Control.timedOut, hbeq]
  · rw [hat]
    by_cases hut : u = t
    · subst hut
      simp [Control.Role, Pc.runs, Pc.wakes]
    · simp only [Control.Role, if_neg hut]
      by_cases huc : u = child
      · rw [if_pos huc]
        exact Or.inr (Or.inl rfl)
      · have hmap : (tr.initializeThreadData child).was_signalled_map u =
            tr.was_signalled_map u := by
          simp [ExecutionTracker.initializeThreadData, huc]
        rw [if_neg huc, hmap]
        exact h.others u hut
  · rw [hat] at hu
    by_cases hut : u = t
    · rw [if_pos hut] at hu
      cases hu
    · rw [if_neg hut] at hu
      by_cases huc : u = child
      · exact ⟨t, ret_addr, ret_val, rfl, by rw [huc, Function.update_self]⟩
      · rw [if_neg huc] at hu
        obtain ⟨r, ra, rv, hc, hr⟩ := h.created u hu
        cases hc
        rw [hpc] at hr
        cases hr
  · by_cases hut : u = t
    · rw [hat, if_pos hut] at hu
      cases hu
    · exact (hplain u hut (.beforeCreate ra v rv) rfl rfl hu).elim
  · by_cases hut : u = t
    · rw [hat, if_pos hut] at hu
      cases hu
      rw [hat, if_neg hne, if_pos rfl]
    · exact (hplain u hut (.spawn ra v rv) rfl rfl hu).elim
  · have hge : tr.next_id ≤ u := hu
    have huc : u ≠ child := Nat.ne_of_gt (Nat.lt_of_lt_of_le hlt hge)
    have hut : u ≠ t := by
      rintro rfl
      exact hself (h.fresh u hge)
    rw [hat, if_neg hut, if_neg huc]
    exact h.fresh u hge
  · by_cases hut : u = t
    · rw [hat, if_pos hut] at hu
      cases hu
    · exact (hplain u hut (.handoff sig v) rfl rfl hu).elim

-- The runner hands the condition over to a waiting thread, and waits for it.
theorem handOver (h : Controlled tr pcs (.running t)) (sig : SignalPointInfo) (u : ThrID)
    (hpc : pcs t = .handoff sig u) (hut : u ≠ t) (w : Wait)
    (hu : (pcs u).heading (tr.was_signalled_map u) = some (.wait w))
    (hwake : (tr.setWaitReady u false).waitWakeThread u = .ok tr') :
    Controlled tr' (Function.update pcs t (.waitReady sig u)) (.handed u t) := by
  have hborn : pcs u ≠ .unborn := by
    intro hnew
    rw [hnew] at hu
    cases hu
  have hsem : tr.wait_sem_map u = some 0 := h.waitSem u hborn
  have htr' : tr' = (tr.setWaitReady u false).setWaitSem u 1 := by
    have hmap : (tr.setWaitReady u false).wait_sem_map u = some 0 := hsem
    simp only [ExecutionTracker.waitWakeThread, hmap] at hwake
    exact (Except.ok.inj hwake).symm
  have hunborn := Pc.update_unborn pcs t (.waitReady sig u) (by simp [hpc]) nofun
  subst htr'
  refine of_not_special (fun v => ?_) (fun v hv => h.sem v (mt (hunborn v).mpr hv))
    (fun v hv => ?_) (fun v hv => ?_) (fun v hv => ?_) (fun v => ?_)
    (fun v hv => (hunborn v).mpr (h.fresh v hv))
  · by_cases hvt : v = t
    · subst hvt
      simp [Pc.special]
    · rw [Function.update_of_ne hvt]
      cases hpcv : pcs v with
      | created =>
          obtain ⟨r, ra, rv, hc, hr⟩ := h.created v hpcv
          cases hc
          rw [hpc] at hr
          cases hr
      | beforeCreate ra x rv =>
          obtain ⟨w', hw'⟩ := h.others_not v hvt (.beforeCreate ra x rv) hpcv rfl
          cases hw'
      | spawn ra x rv =>
          obtain ⟨w', hw'⟩ := h.others_not v hvt (.spawn ra x rv) hpcv rfl
          cases hw'
      | handoff sig' x =>
          obtain ⟨w', hw'⟩ := h.others_not v hvt (.handoff sig' x) hpcv rfl
          cases hw'
      | _ => rfl
  · by_cases hvu : v = u
    · subst hvu
      simp [Control.waitSemOf]
    · have hv' := h.waitSem v (mt (hunborn v).mpr hv)
      simpa [Control.waitSemOf, hvu] using hv'
  · by_cases hvu : v = u
    · subst hvu
      simp [ExecutionTracker.setWaitReady, Control.served]
    · have hbeq : (v == u) = false := by simpa using hvu
      have hv' := h.ready v (mt (hunborn v).mpr hv)
      simpa [ExecutionTracker.setWaitReady, hvu, Control.served, hbeq] using hv'
  · have hv' := h.signalled v (mt (hunborn v).mpr hv)
    have hnot : Control.timedOut v (pcs v) (.running t) = false := by
      by_cases hvt : v = t
      · subst hvt
        simp [Control.timedOut, hpc, Pc.wakes]
      · simp [Control.timedOut, hvt]
    rw [hnot] at hv'
    exact hv'
  · by_cases hvu : v = u
    · subst hvu
      rw [Function.update_of_ne hut]
      simp only [Control.Role, if_true]
      exact ⟨hut, w, hu⟩
    · by_cases hvt : v = t
      · subst hvt
        simp [Control.Role, hvu]
      · have hrests := h.others v hvt
        simpa [Control.Role, hvu, hvt] using hrests

end Controlled

end Thrille
