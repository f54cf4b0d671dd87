import Thrille.Replay.Settled
import Thrille.Serializer.Exclusion

namespace Thrille

open ExecutionTracker

-- The semaphore of a thread lets it pass.
def isPosted : Option Nat → Bool
  | some (_ + 1) => true
  | _ => false

-- Where a thread comes to with the steps that nobody else takes note of.
def Pc.place (signalled : Bool) (sem waitSem : Option Nat) (pc : Pc) : Pc :=
  match pc.heading signalled with
  | some (.pause k) => if isPosted sem then .resume k else .blocked (.pause k)
  | some (.wait w) => if isPosted waitSem then .woken w else .blocked (.wait w)
  | some .exit => .blocked .exit
  | none => pc

-- The steps that are more than the way of a thread to its place.
def Pc.advances (signalled : Bool) : Pc → Bool
  | program _ => true
  | spawn .. => true
  | checkTimeout _ => !signalled
  | pc => pc.isSection

theorem Pc.heading_of_advances {signalled : Bool} {pc : Pc} (h : pc.advances signalled = true) :
    pc.heading signalled = none := by
  cases pc with
  | checkTimeout w =>
      have hnot : signalled = false := by simpa [advances] using h
      rw [hnot]
      rfl
  | threadStart => cases h
  | launched r => cases h
  | leaving r => cases h
  | blocked r => cases h
  | _ => rfl

theorem Pc.place_of_none {signalled : Bool} {pc : Pc} (h : pc.heading signalled = none)
    (sem waitSem : Option Nat) : pc.place signalled sem waitSem = pc := by
  unfold place
  rw [h]

theorem Pc.place_congr {signalled signalled' : Bool} {pc pc' : Pc} {r : Rest}
    (h : pc.heading signalled = some r) (h' : pc'.heading signalled' = some r)
    (sem waitSem : Option Nat) :
    pc'.place signalled' sem waitSem = pc.place signalled sem waitSem := by
  unfold place
  rw [h, h']
  cases r <;> rfl

theorem Pc.advances_of_section {pc : Pc} (h : pc.isSection = true) (signalled : Bool) :
    pc.advances signalled = true ∨ ∃ w, pc = .checkTimeout w ∧ signalled = true := by
  cases pc with
  | checkTimeout w =>
      cases signalled with
      | false => exact Or.inl rfl
      | true => exact Or.inr ⟨w, rfl, rfl⟩
  | _ => first
    | exact Or.inl h
    | cases h

theorem Pc.runs_of_advances {signalled : Bool} {pc : Pc} (h : pc.advances signalled = true) :
    pc.runs = true := by
  cases pc <;> first
    | rfl
    | cases h

-- What two runs of one program have in common.
structure View where
  tracker : ExecutionTracker
  places : ThrID → Pc
  schedule : List DecisionInfo

namespace System

variable {σ : Type} {v : Virtual σ} {s s' : System σ} {t u : ThrID} {ret_addr : Addr} {op : Op}
  {c : Control}

def place (s : System σ) (t : ThrID) : Pc :=
  (s.pcs t).place (s.tracker.was_signalled_map t) (s.tracker.sem_map t) (s.tracker.wait_sem_map t)

def view (s : System σ) : View where
  tracker := s.tracker.settled
  places := s.place
  schedule := s.log.schedule

-- The thread is where its next step is more than the way to its place.
def Advances (s : System σ) (t : ThrID) : Prop :=
  (s.pcs t).advances (s.tracker.was_signalled_map t) = true

theorem Advances.place_eq (h : s.Advances t) : s.place t = s.pcs t :=
  Pc.place_of_none (Pc.heading_of_advances h) _ _

-- On its way to its place a thread leaves everything else as it is.
theorem view_of_quiet (hstep : s.step v t ret_addr op = some s') (hquiet : ¬s.Advances t) :
    s'.view = s.view ∧ s'.stopped = none ∧ s'.scheduler = s.scheduler ∧ s'.log = s.log ∧
      ∀ u, s.Advances u → s'.pcs u = s.pcs u ∧ s'.Advances u := by
  obtain ⟨hrunning, htransition⟩ := step_iff.mp hstep
  -- a thread goes on with its posts as they are
  have hmove (pc' : Pc) (tracker : ExecutionTracker)
      (hsettled : tracker.settled = s.tracker.settled)
      (hsame : tracker.was_signalled_map = s.tracker.was_signalled_map)
      (hposts : ∀ u, u ≠ t → tracker.sem_map u = s.tracker.sem_map u ∧
        tracker.wait_sem_map u = s.tracker.wait_sem_map u)
      (hplace : pc'.place (tracker.was_signalled_map t) (tracker.sem_map t)
        (tracker.wait_sem_map t) = s.place t) :
      (⟨tracker.settled, fun u => (Function.update s.pcs t pc' u).place
        (tracker.was_signalled_map u) (tracker.sem_map u) (tracker.wait_sem_map u),
        s.log.schedule⟩ : View) = s.view := by
    unfold view
    congr 1
    funext u
    by_cases hut : u = t
    · subst hut
      rw [Function.update_self]
      exact hplace
    · obtain ⟨hsem, hwait⟩ := hposts u hut
      rw [Function.update_of_ne hut, hsem, hwait, hsame]
      rfl
  have hothers (pc' : Pc) (u : ThrID) (hu : s.Advances u) :
      Function.update s.pcs t pc' u = s.pcs u := by
    refine Function.update_of_ne ?_ _ _
    rintro rfl
    exact hquiet hu
  have hkept (pc' : Pc) (tracker : ExecutionTracker)
      (hsame : tracker.was_signalled_map = s.tracker.was_signalled_map) (u : ThrID)
      (hu : s.Advances u) : Function.update s.pcs t pc' u = s.pcs u ∧
        (Function.update s.pcs t pc' u).advances (tracker.was_signalled_map u) = true := by
    rw [hothers pc' u hu, hsame]
    exact ⟨rfl, hu⟩
  cases htransition with
  | asks ret_val hpc => exact absurd (by rw [Advances, hpc]; rfl) hquiet
  | spawns addr child hpc => exact absurd (by rw [Advances, hpc]; rfl) hquiet
  | starts hpc hlock =>
      refine ⟨hmove _ s.tracker rfl rfl (fun _ _ => ⟨rfl, rfl⟩) ?_, hrunning, rfl, rfl,
        hkept _ s.tracker rfl⟩
      exact Pc.place_congr (r := .pause .start) (by rw [hpc]; rfl) rfl _ _
  | unlocks r hpc =>
      refine ⟨hmove _ s.tracker rfl rfl (fun _ _ => ⟨rfl, rfl⟩) ?_, hrunning, rfl, rfl,
        hkept _ s.tracker rfl⟩
      exact Pc.place_congr (r := r) (by rw [hpc]; rfl) rfl _ _
  | leaves r hpc hlock =>
      refine ⟨hmove _ s.tracker rfl rfl (fun _ _ => ⟨rfl, rfl⟩) ?_, hrunning, rfl, rfl,
        hkept _ s.tracker rfl⟩
      exact Pc.place_congr (r := r) (by rw [hpc]; rfl) rfl _ _
  | resumes k n hpc hsem =>
      refine ⟨hmove _ (s.tracker.setSem t n) ?_ rfl (fun u hut => ⟨?_, rfl⟩) ?_, hrunning, rfl, rfl,
        hkept _ _ rfl⟩
      · unfold settled setSem
        congr 1
        funext u
        by_cases hut : u = t
        · subst hut
          simp [hsem]
        · simp [hut]
      · exact Function.update_of_ne hut _ _
      · rw [place, hpc]
        simp only [Pc.place, Pc.heading, hsem, isPosted, if_true]
  | wakes w n hpc hsem =>
      refine ⟨hmove _ (s.tracker.setWaitSem t n) ?_ rfl (fun u hut => ⟨rfl, ?_⟩) ?_, hrunning, rfl,
        rfl, hkept _ _ rfl⟩
      · unfold settled setWaitSem
        congr 1
        funext u
        by_cases hut : u = t
        · subst hut
          simp [hsem]
        · simp [hut]
      · exact Function.update_of_ne hut _ _
      · rw [place, hpc]
        simp only [Pc.place, Pc.heading, hsem, isPosted, if_true]
  | runs hpc hlock hready =>
      obtain ⟨w, hat, hsignalled⟩ :=
        (Pc.advances_of_section hpc (s.tracker.was_signalled_map t)).resolve_left hquiet
      have hrun : s.runThread v t (s.pcs t) =
          { s with barriers := s.barriers.observe t (.checkTimeout w) }.goto t
            (.leaving (.pause (.relock w false))) := by
        rw [hat]
        simp only [runThread, ExecutionTracker.runSection, ExecutionTracker.checkTimeout,
          if_pos hsignalled]
        rfl
      rw [hrun]
      refine ⟨hmove _ s.tracker rfl rfl (fun _ _ => ⟨rfl, rfl⟩) ?_, hrunning, rfl, rfl,
        hkept _ s.tracker rfl⟩
      exact Pc.place_congr (r := .pause (.relock w false)) (by rw [hat, hsignalled]; rfl) rfl _ _

end System

-- A thread that can do more than go to its place.
def View.Moves (self : View) (t : ThrID) : Prop :=
  (self.places t).advances (self.tracker.was_signalled_map t) = true ∧
    ∀ info u, self.places t = .waitReady info u → self.tracker.wait_ready_map u = true

-- The thread that may go on.
def Control.mover : Control → Option ThrID
  | nobody => none
  | running t => some t
  | posted t => some t
  | timeout t => some t
  | handed t _ => some t
  | serving t _ => some t

namespace System

variable {σ : Type} {v : Virtual σ} {s s' : System σ} {t u : ThrID} {ret_addr : Addr} {op : Op}
  {c : Control}

theorem exists_of_isPosted {posts : Option Nat} (h : isPosted posts = true) :
    ∃ n, posts = some (n + 1) := by
  cases posts with
  | none => cases h
  | some m =>
      cases m with
      | zero => cases h
      | succ n => exact ⟨n, rfl⟩

theorem mover_of_moves (hserial : Serial s c) (h : s.view.Moves t) : c.mover = some t := by
  obtain ⟨hadvances, hready⟩ := h
  have hadvances : (s.place t).advances (s.tracker.was_signalled_map t) = true := hadvances
  have hborn : s.pcs t ≠ .unborn := by
    intro hunborn
    rw [place, hunborn] at hadvances
    cases hadvances
  have hsem := hserial.controlled.sem t hborn
  have hwait := hserial.controlled.waitSem t hborn
  cases hheading : (s.pcs t).heading (s.tracker.was_signalled_map t) with
  | some r =>
      cases r with
      | pause k =>
          by_cases hposted : isPosted (s.tracker.sem_map t) = true
          · obtain ⟨n, hn⟩ := exists_of_isPosted hposted
            rw [hn] at hsem
            cases c with
            | posted u =>
                by_cases htu : t = u
                · rw [htu]
                  rfl
                · simp only [Control.semOf, if_neg htu] at hsem
                  cases hsem
            | _ => cases hsem
          · have hplace : s.place t = .blocked (.pause k) := by
              rw [place, Pc.place, hheading]
              exact if_neg hposted
            rw [hplace] at hadvances
            cases hadvances
      | wait w =>
          by_cases hposted : isPosted (s.tracker.wait_sem_map t) = true
          · obtain ⟨n, hn⟩ := exists_of_isPosted hposted
            rw [hn] at hwait
            cases c with
            | timeout u =>
                by_cases htu : t = u
                · rw [htu]
                  rfl
                · simp only [Control.waitSemOf, if_neg htu] at hwait
                  cases hwait
            | handed u x =>
                by_cases htu : t = u
                · rw [htu]
                  rfl
                · simp only [Control.waitSemOf, if_neg htu] at hwait
                  cases hwait
            | _ => cases hwait
          · have hplace : s.place t = .blocked (.wait w) := by
              rw [place, Pc.place, hheading]
              exact if_neg hposted
            rw [hplace] at hadvances
            cases hadvances
      | exit =>
          have hplace : s.place t = .blocked .exit := by
            rw [place, Pc.place, hheading]
          rw [hplace] at hadvances
          cases hadvances
  | none =>
      have hplace : s.place t = s.pcs t := Pc.place_of_none hheading _ _
      rw [hplace] at hadvances
      rcases hserial.controlled.runs_cases (Pc.runs_of_advances hadvances) with
        rfl | ⟨w, hat, hsignalled, _⟩ | ⟨x, w, rfl, _⟩ | ⟨u, info, hc, hne, hat⟩
      · rfl
      · rw [hat, hsignalled] at hadvances
        cases hadvances
      · rfl
      · -- the thread that it waits for has not got there
        have hborn' : s.pcs u ≠ .unborn := by
          intro hunborn
          have hrole := hserial.controlled.role u
          rcases hc with rfl | rfl
          · simp only [Control.Role, if_true, hunborn] at hrole
            obtain ⟨_, w, hw⟩ := hrole
            cases hw
          · simp only [Control.Role, if_true, hunborn] at hrole
            obtain ⟨_, w, hw, _⟩ := hrole
            cases hw
        have hfalse := hserial.controlled.ready u hborn'
        have htrue : s.tracker.wait_ready_map u = true := hready info u (hplace.trans hat)
        rw [htrue] at hfalse
        rcases hc with rfl | rfl <;> simp [Control.served] at hfalse

theorem moves_unique (hserial : Serial s c) (ht : s.view.Moves t) (hu : s.view.Moves u) : t = u :=
  Option.some.inj ((mover_of_moves hserial ht).symm.trans (mover_of_moves hserial hu))

-- A step that is more than that.
theorem moves_of_step (hstep : s.step v t ret_addr op = some s') (h : s.Advances t) :
    s.view.Moves t := by
  have hplace : s.view.places t = s.pcs t := h.place_eq
  refine ⟨by rw [hplace]; exact h, fun info u hat => ?_⟩
  rw [hplace] at hat
  obtain ⟨_, htransition⟩ := step_iff.mp hstep
  cases htransition with
  | runs hpc hlock hready =>
      rw [hat] at hready
      exact hready
  | _ => simp_all

end System

end Thrille
