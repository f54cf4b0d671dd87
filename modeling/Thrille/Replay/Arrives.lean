import Thrille.Replay.Choices
import Thrille.Serializer.CreateResult

namespace Thrille

open Relation

namespace System

variable {σ : Type} {v : Virtual σ} {s s' : System σ} {t u : ThrID} {ret_addr : Addr} {op : Op}

-- A step of a thread on the way to its place.
def Quiet (v : Virtual σ) (s s' : System σ) : Prop :=
  ∃ t, ¬s.Advances t ∧ ∀ ret_addr op, s.step v t ret_addr op = some s'

theorem Quiet.view_eq (h : Quiet v s s') : s'.view = s.view := by
  obtain ⟨t, hquiet, hstep⟩ := h
  exact (view_of_quiet (hstep 0 .exit) hquiet).1

theorem Quiet.running (h : Quiet v s s') : s'.stopped = none := by
  obtain ⟨t, hquiet, hstep⟩ := h
  exact (view_of_quiet (hstep 0 .exit) hquiet).2.1

-- Where thread `t` can come to by itself, once nobody holds the global lock.
def Arrives (v : Virtual σ) (s : System σ) (t : ThrID) : Prop :=
  ∃ s', ReflTransGen (Quiet v) s s' ∧ s'.pcs t = s.place t ∧ s'.global_lock = none ∧
    s'.stopped = none

theorem Arrives.here (hrunning : s.stopped = none) (hlock : s.global_lock = none)
    (hpc : s.pcs t = s.place t) : Arrives v s t := ⟨s, .refl, hpc, hlock, hrunning⟩

theorem Arrives.head (hquiet : Quiet v s s') (h : Arrives v s' t) : Arrives v s t := by
  obtain ⟨s₁, hsteps, hpc, hlock, hrunning⟩ := h
  have hplace : s'.place t = s.place t := congrArg (fun view => view.places t) hquiet.view_eq
  exact ⟨s₁, .head hquiet hsteps, hpc.trans hplace, hlock, hrunning⟩

theorem quiet_of_transition (hrunning : s.stopped = none) (hnot : ¬s.Advances t)
    (h : ∀ ret_addr op, Transition v s t ret_addr op s') : Quiet v s s' :=
  ⟨t, hnot, fun ret_addr op => step_iff.mpr ⟨hrunning, h ret_addr op⟩⟩

theorem arrives_of_blocked (hrunning : s.stopped = none) (hlock : s.global_lock = none) (r : Rest)
    (hpc : s.pcs t = .blocked r) : Arrives v s t := by
  have hnot : ¬s.Advances t := by
    rw [Advances, hpc]
    rintro ⟨⟩
  cases r with
  | exit => exact .here hrunning hlock (by rw [place, hpc]; rfl)
  | pause k =>
      by_cases hposted : isPosted (s.tracker.sem_map t) = true
      · obtain ⟨n, hn⟩ := exists_of_isPosted hposted
        refine .head (quiet_of_transition hrunning hnot fun _ _ => .resumes k n hpc hn) ?_
        refine .here hrunning hlock ?_
        simp [place, goto, Pc.place, Pc.heading]
      · refine .here hrunning hlock ?_
        rw [place, hpc]
        exact (if_neg hposted).symm
  | wait w =>
      by_cases hposted : isPosted (s.tracker.wait_sem_map t) = true
      · obtain ⟨n, hn⟩ := exists_of_isPosted hposted
        refine .head (quiet_of_transition hrunning hnot fun _ _ => .wakes w n hpc hn) ?_
        refine .here hrunning hlock ?_
        simp [place, goto, Pc.place, Pc.heading]
      · refine .here hrunning hlock ?_
        rw [place, hpc]
        exact (if_neg hposted).symm

theorem arrives_of_leaving (hrunning : s.stopped = none) (hlock : s.global_lock = none) (r : Rest)
    (hpc : s.pcs t = .leaving r) : Arrives v s t := by
  have hnot : ¬s.Advances t := by
    rw [Advances, hpc]
    rintro ⟨⟩
  refine .head (quiet_of_transition hrunning hnot fun _ _ => .leaves r hpc hlock) ?_
  exact arrives_of_blocked hrunning hlock r (Function.update_self _ _ _)

theorem arrives_of_free (hrunning : s.stopped = none) (hlock : s.global_lock = none) :
    Arrives v s t := by
  cases hpc : s.pcs t with
  | blocked r => exact arrives_of_blocked hrunning hlock r hpc
  | leaving r => exact arrives_of_leaving hrunning hlock r hpc
  | launched r =>
      have hnot : ¬s.Advances t := by
        rw [Advances, hpc]
        rintro ⟨⟩
      refine .head (quiet_of_transition hrunning hnot fun _ _ => .unlocks r hpc) ?_
      exact arrives_of_leaving hrunning rfl r (Function.update_self _ _ _)
  | threadStart =>
      have hnot : ¬s.Advances t := by
        rw [Advances, hpc]
        rintro ⟨⟩
      refine .head (quiet_of_transition hrunning hnot fun _ _ => .starts hpc hlock) ?_
      exact arrives_of_leaving hrunning hlock _ (Function.update_self _ _ _)
  | checkTimeout w =>
      by_cases hsignalled : s.tracker.was_signalled_map t = true
      · have hnot : ¬s.Advances t := by
          rw [Advances, hpc, hsignalled]
          rintro ⟨⟩
        have hrun : s.runThread v t (s.pcs t) =
            { s with barriers := s.barriers.observe t (.checkTimeout w) }.goto t
              (.leaving (.pause (.relock w false))) := by
          rw [hpc]
          simp only [runThread, ExecutionTracker.runSection, ExecutionTracker.checkTimeout,
            if_pos hsignalled]
          rfl
        refine .head (quiet_of_transition hrunning hnot fun _ _ =>
          .runs (by rw [hpc]; rfl) (Or.inr hlock) (by rw [hpc]; rfl)) ?_
        rw [hrun]
        exact arrives_of_leaving hrunning hlock _ (Function.update_self _ _ _)
      · refine .here hrunning hlock ?_
        rw [place, hpc]
        simp [Pc.place, Pc.heading, hsignalled]
  | _ => exact .here hrunning hlock (by rw [place, hpc]; rfl)

-- The thread that has just scheduled gives up the global lock.
theorem arrives (hrunning : s.stopped = none) (hlocked : s.Locked) (t : ThrID) :
    Arrives v s t := by
  cases hlock : s.global_lock with
  | none => exact arrives_of_free hrunning hlock
  | some u =>
      obtain ⟨r, hr⟩ := hlocked u hlock
      have hnot : ¬s.Advances u := by
        rw [Advances, hr]
        rintro ⟨⟩
      exact .head (quiet_of_transition hrunning hnot fun _ _ => .unlocks r hr)
        (arrives_of_free hrunning rfl)

-- The way of one thread to its place is no matter to those who have more to do.
theorem Quiet.advances (h : Quiet v s s') (hu : s.Advances u) :
    s'.Advances u ∧ s'.pcs u = s.pcs u := by
  obtain ⟨t, hquiet, hstep⟩ := h
  obtain ⟨_, _, _, _, hkept⟩ := view_of_quiet (hstep 0 .exit) hquiet
  exact (hkept u hu).symm

theorem advances_of_quiets (h : ReflTransGen (Quiet v) s s') (hu : s.Advances u) :
    s'.Advances u ∧ s'.pcs u = s.pcs u := by
  induction h with
  | refl => exact ⟨hu, rfl⟩
  | tail _ hquiet ih =>
      obtain ⟨hadvances, hpc⟩ := hquiet.advances ih.1
      exact ⟨hadvances, hpc.trans ih.2⟩

theorem view_of_quiets (h : ReflTransGen (Quiet v) s s') : s'.view = s.view := by
  induction h with
  | refl => rfl
  | tail _ hquiet ih => exact hquiet.view_eq.trans ih

end System

namespace System

variable {σ τ : Type} {v : Virtual σ} {w : Virtual τ} {a a' : System σ} {b b₁ : System τ}
  {t : ThrID} {ret_addr : Addr} {op : Op}

theorem ready_of_view (hview : a.view = b.view) (pc : Pc) (hready : a.ready pc = true)
    (hjoin : ∀ target, pc = .resume (.join target) → b.pcs target = .blocked .exit) :
    b.ready pc = true := by
  have hsettled : a.tracker.settled = b.tracker.settled := congrArg View.tracker hview
  cases pc with
  | originalLock lock =>
      have hmutexes : a.tracker.settled.mutexes lock = b.tracker.settled.mutexes lock := by
        rw [hsettled]
      change a.tracker.mutexes lock = b.tracker.mutexes lock at hmutexes
      rw [ready, ← hmutexes]
      exact hready
  | waitReady info u =>
      have hmap : a.tracker.settled.wait_ready_map u = b.tracker.settled.wait_ready_map u := by
        rw [hsettled]
      exact hmap.symm.trans hready
  | resume k =>
      cases k with
      | join target =>
          rw [ready, hjoin target rfl]
      | _ => rfl
  | _ => rfl

theorem advances_of_view (hview : a.view = b.view) (hpc : a.pcs t = b.pcs t) (h : a.Advances t) :
    b.Advances t := by
  have hsignalled : a.view.tracker.was_signalled_map t = b.view.tracker.was_signalled_map t := by
    rw [hview]
  change a.tracker.was_signalled_map t = b.tracker.was_signalled_map t at hsignalled
  rw [Advances, hpc, hsignalled] at h
  exact h

-- A thread that goes on in one run can go on in a run with the same view, once it and the thread
-- that it joins have come to their places.
theorem exists_move (hview : a.view = b.view) (hstep : a.step v t ret_addr op = some a')
    (hadvances : a.Advances t) (hrunning : b.stopped = none) (hlocked : b.Locked) :
    ∃ b₁, ReflTransGen (Quiet w) b b₁ ∧ b₁.pcs t = a.pcs t ∧ b₁.Advances t ∧
      ∃ b₂, b₁.step w t ret_addr op = some b₂ := by
  have hplaces (u : ThrID) : a.place u = b.place u := congrArg (fun view => view.places u) hview
  obtain ⟨b₁, hquiets, hpc, hlock, hrunning₁⟩ := arrives (v := w) hrunning hlocked t
  rw [← hplaces, hadvances.place_eq] at hpc
  have hview₁ : a.view = b₁.view := hview.trans (view_of_quiets hquiets).symm
  have hadvances₁ : b₁.Advances t := advances_of_view hview₁ hpc.symm hadvances
  obtain ⟨_, htransition⟩ := step_iff.mp hstep
  cases htransition with
  | asks ret_val hat =>
      rw [← hpc] at hat
      exact ⟨b₁, hquiets, hpc, hadvances₁, _, step_iff.mpr ⟨hrunning₁, .asks ret_val hat⟩⟩
  | spawns addr child hat =>
      rw [← hpc] at hat
      exact ⟨b₁, hquiets, hpc, hadvances₁, _, step_iff.mpr ⟨hrunning₁, .spawns addr child hat⟩⟩
  | starts hat _ => rw [Advances, hat] at hadvances; cases hadvances
  | unlocks r hat => rw [Advances, hat] at hadvances; cases hadvances
  | leaves r hat _ => rw [Advances, hat] at hadvances; cases hadvances
  | resumes k n hat _ => rw [Advances, hat] at hadvances; cases hadvances
  | wakes x n hat _ => rw [Advances, hat] at hadvances; cases hadvances
  | runs hsection _ hready =>
      by_cases hjoin : ∃ target, a.pcs t = .resume (.join target)
      · obtain ⟨target, hat⟩ := hjoin
        have hexit : a.place target = .blocked .exit := by
          rw [hat, ready] at hready
          split at hready
          · rename_i htarget
            rw [place, htarget]
            rfl
          · cases hready
        obtain ⟨b₂, hquiets₂, htarget, hlock₂, hrunning₂⟩ := arrives_of_free (v := w)
          (t := target) hrunning₁ hlock
        have hplace₁ : b₁.place target = a.place target :=
          congrArg (fun view => view.places target) hview₁.symm
        rw [hplace₁, hexit] at htarget
        obtain ⟨hadvances₂, hpc₂⟩ := advances_of_quiets hquiets₂ hadvances₁
        refine ⟨b₂, hquiets.trans hquiets₂, hpc₂.trans hpc, hadvances₂, _,
          step_iff.mpr ⟨hrunning₂, .runs ?_ (Or.inr hlock₂) ?_⟩⟩
        · rw [hpc₂, hpc]
          exact hsection
        · rw [hpc₂, hpc, hat, ready, htarget]
      · refine ⟨b₁, hquiets, hpc, hadvances₁, _,
          step_iff.mpr ⟨hrunning₁, .runs ?_ (Or.inr hlock) ?_⟩⟩
        · rw [hpc]
          exact hsection
        · rw [hpc]
          exact ready_of_view hview₁ _ hready fun target hat => absurd ⟨target, hat⟩ hjoin

end System

end Thrille
