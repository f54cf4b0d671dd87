import Thrille.Serializer.Launch
import Thrille.Serializer.Transition

namespace Thrille

namespace Control

-- The thread whose turn it is: a signaller keeps its turn while it waits.
def holder : Control → Option ThrID
  | nobody => none
  | running t => some t
  | posted t => some t
  | timeout t => some t
  | handed _ x => some x
  | serving _ x => some x

end Control

namespace Controlled

variable {tr tr' : ExecutionTracker} {pcs : ThrID → Pc} {c : Control} {t x : ThrID}

-- Who may run a section of its code.
theorem section_cases (h : Controlled tr pcs c) (hpc : (pcs t).isSection = true)
    (hready : ∀ sig u, pcs t = .waitReady sig u → tr.wait_ready_map u = true) :
    c = .running t ∨
    (∃ w, pcs t = .checkTimeout w ∧ tr.was_signalled_map t = true ∧ c ≠ .running t) ∨
    (∃ x w, c = .serving t x ∧ (pcs t = .woken w ∨ pcs t = .relock w ∨ pcs t = .signalReady w)) := by
  have hruns : (pcs t).runs = true := by
    cases hat : pcs t <;> rw [hat] at hpc <;> first
      | rfl
      | cases hpc
  rcases h.runs_cases hruns with hc | hcheck | ⟨x, w, hc, hw, hnot⟩ | ⟨u, sig, hc, hne, hsig⟩
  · exact Or.inl hc
  · exact Or.inr (Or.inl hcheck)
  · refine Or.inr (Or.inr ⟨x, w, hc, ?_⟩)
    cases hat : pcs t <;> rw [hat] at hw hnot <;> simp [Pc.wakes] at hw hnot ⊢ <;> grind
  · have hborn : pcs u ≠ .unborn := by
      intro hnew
      have hrole := h.role u
      rcases hc with rfl | rfl
      · simp only [Control.Role, if_true, hnew] at hrole
        obtain ⟨_, w, hw⟩ := hrole
        cases hw
      · simp only [Control.Role, if_true, hnew] at hrole
        obtain ⟨_, w, hw, _⟩ := hrole
        cases hw
    have hfalse : tr.wait_ready_map u = false := by
      rw [h.ready u hborn]
      rcases hc with rfl | rfl <;> simp [Control.served]
    rw [hready sig u hsig] at hfalse
    cases hfalse

-- While a thread may run a section, nobody else is in the middle of creating or signalling.
theorem no_handoff (h : Controlled tr pcs c) (hne : ∀ u, u ≠ t → c ≠ .running u) (u : ThrID)
    (hu : u ≠ t) (sig : SignalPointInfo) (x : ThrID) : pcs u ≠ .handoff sig x := by
  intro hpc
  exact hne u hu (h.runner (by rw [hpc]; rfl) (by rw [hpc]; rfl) (by simp [hpc]))

theorem no_resume (h : Controlled tr pcs c) (hne : ∀ u, u ≠ t → c ≠ .running u) (u : ThrID)
    (hu : u ≠ t) (k : Pending) : (pcs u).stage ≠ .resumed k := by
  intro hst
  have hpc : pcs u = .resume k := by
    cases hat : pcs u <;> rw [hat] at hst <;> simp only [Pc.stage] at hst <;> first
      | cases hst
        rfl
      | cases hst
      | rename_i r
        cases r <;> cases hst
  exact hne u hu (h.runner (by rw [hpc]; rfl) (by rw [hpc]; rfl) (by simp [hpc]))

-- A step that goes on to the next section leaves the posts alone, apart from the message to a
-- signaller.
theorem posts_goto (pc pc' : Pc) (hpc : ∀ w, pc ≠ .signalReady w)
    (hrun : tr.runSection t pc = .ok (tr', .goto pc')) :
    tr'.sem_map = tr.sem_map ∧ tr'.wait_sem_map = tr.wait_sem_map ∧
      tr'.wait_ready_map = tr.wait_ready_map ∧
      tr'.was_signalled_map = tr.was_signalled_map ∧ tr.next_id ≤ tr'.next_id := by
  by_cases hposts : pc.posts = false
  · have heq : tr'.posts = tr.posts := ExecutionTracker.posts_runSection pc hposts hrun
    exact ⟨congrArg Posts.sem heq, congrArg Posts.waitSem heq, congrArg Posts.ready heq,
      congrArg Posts.signalled heq, Nat.le_of_eq (congrArg Posts.nextId heq).symm⟩
  · cases pc with
    | enter ret_addr op =>
        cases op with
        | create ret_val =>
            cases hrun
            exact ⟨rfl, rfl, rfl, rfl, Nat.le_succ _⟩
        | _ => exact absurd rfl hposts
    | signalReady w => exact absurd rfl (hpc w)
    | handoff sig u =>
        have hfollows := ExecutionTracker.runSection_follows _ hrun
        simp only [ExecutionTracker.runSection, ExecutionTracker.scheduleThreadWaitingOnCond,
          safe_assert_bind] at hrun
        cases hrun.2
    | beforeCreate ret_addr child ret_val => cases hrun
    | _ => exact absurd rfl hposts

theorem section_goto_running (h : Controlled tr pcs (.running t)) (pc' : Pc)
    (hpc : (pcs t).isSection = true) (hrun : tr.runSection t (pcs t) = .ok (tr', .goto pc')) :
    Controlled tr' (Function.update pcs t pc') (.running t) := by
  have hfollows := ExecutionTracker.runSection_follows _ hrun
  by_cases hready : ∃ w, pcs t = .signalReady w
  · obtain ⟨w, hw⟩ := hready
    rw [hw] at hrun
    cases hrun
    obtain ⟨c', h', hc⟩ := h.signalReady w hw
    rcases hc with ⟨_, rfl⟩ | ⟨x, hx, _⟩
    · exact h'
    · cases hx
  · have hborn : pcs t ≠ .unborn := by
      intro hnew
      rw [hnew] at hpc
      cases hpc
    have hplain : pc'.wakes = (pcs t).wakes ∧ ((pcs t).runs = true → pc'.runs = true) ∧
        (∀ s u, pc' = .handoff s u → s.cond_map = tr'.cond_map) ∧
        (∀ ret_addr child ret_val, pc' = .beforeCreate ret_addr child ret_val →
          child = tr.next_id ∧ tr'.next_id = tr.next_id + 1) ∧
        (∀ ret_addr child ret_val, pc' = .spawn ret_addr child ret_val → pcs t = pc') := by
      cases hat : pcs t with
      | signalReady w => exact absurd ⟨w, hat⟩ hready
      | checkTimeout w =>
          -- a thread that has been launched out of its wait schedules once more
          rw [hat] at hfollows
          have hsignalled := h.signalled t hborn
          rw [hfollows.2] at hsignalled
          simp [Control.timedOut, hat, Pc.wakes] at hsignalled
      | _ =>
          rw [hat] at hfollows
          exact hfollows
    obtain ⟨hwakes, hruns, hcopy, hchild, hspawn⟩ := hplain
    obtain ⟨hsem, hwait, hmapReady, hsignalled, hnext⟩ :=
      posts_goto (pcs t) pc' (fun w hw => hready ⟨w, hw⟩) hrun
    have hold : (pcs t).runs = true := by
      cases hat : pcs t <;> rw [hat] at hpc <;> first
        | rfl
        | cases hpc
    have hrole := h.role t
    simp only [Control.Role, if_true] at hrole
    refine h.goto pc' hsem hwait hmapReady hsignalled hnext hborn ?_ ?_ ?_ ?_ ?_ ?_ ?_ ?_ hcopy ?_
    · rintro rfl
      cases hruns hold
    · rintro rfl
      cases hruns hold
    · simp [Control.timedOut, hwakes]
    · simp only [Control.Role, if_true]
      exact ⟨hruns hold, by rw [hwakes]; exact hrole.2⟩
    · intro hat
      rw [hat] at hpc
      cases hpc
    · intro ret_addr child ret_val hat
      rw [hat] at hpc
      cases hpc
    · intro ret_addr child ret_val heq
      rw [hspawn ret_addr child ret_val heq, heq] at hpc
      cases hpc
    · intro ret_addr child ret_val heq
      obtain ⟨rfl, hlt⟩ := hchild ret_addr child ret_val heq
      exact ⟨h.fresh tr.next_id (Nat.le_refl _), by rw [hlt]; exact Nat.lt_succ_self _⟩
    · intro u hu sig x hx
      exact absurd hx (h.no_handoff (fun v hv heq => hv (Control.running.inj heq).symm) u hu sig x)

-- The runner has found the thread to signal.
theorem section_signalChoice (h : Controlled tr pcs (.running t)) (sig : SignalPointInfo)
    (u : ThrID) (hpc : (pcs t).isSection = true)
    (hrun : tr.runSection t (pcs t) = .ok (tr', .signalChoice sig)) :
    Controlled tr' (Function.update pcs t (.handoff sig u)) (.running t) := by
  obtain ⟨hwakes, hnoposts, hcopy⟩ := ExecutionTracker.runSection_follows _ hrun
  have hposts : tr'.posts = tr.posts := ExecutionTracker.posts_runSection _ hnoposts hrun
  have hat (pc : Pc) (hnot : pc.isSection = false) : pcs t ≠ pc := by
    rintro rfl
    rw [hnot] at hpc
    cases hpc
  refine h.goto (.handoff sig u) (congrArg Posts.sem hposts) (congrArg Posts.waitSem hposts)
    (congrArg Posts.ready hposts) (congrArg Posts.signalled hposts)
    (Nat.le_of_eq (congrArg Posts.nextId hposts).symm) (hat .unborn rfl) nofun nofun ?_ ?_
    (hat .created rfl) (fun ra child rv => hat (.spawn ra child rv) rfl) nofun nofun ?_ ?_
  · have hnone : (Pc.handoff sig u).wakes = none := rfl
    simp [Control.timedOut, hwakes, hnone]
  · simp [Control.Role, Pc.runs, Pc.wakes]
  · intro sig' x heq
    cases heq
    exact hcopy
  · intro x hx sig' y hy
    exact absurd hy (h.no_handoff (fun v hv heq => hv (Control.running.inj heq).symm) x hx sig' y)

-- A thread that rests goes on to where it is heading, whoever runs.
theorem keepResting (h : Controlled tr pcs c) (pc' : Pc) (r : Rest)
    (hpc : (pcs t).heading (tr.was_signalled_map t) = some r)
    (hpc' : pc'.heading (tr.was_signalled_map t) = some r) (hne : c ≠ .running t) :
    Controlled tr (Function.update pcs t pc') c := by
  have hat (pc : Pc) (hnone : pc.heading (tr.was_signalled_map t) = none) : pcs t ≠ pc ∧ pc' ≠ pc := by
    refine ⟨?_, ?_⟩
    · rintro rfl
      rw [hnone] at hpc
      cases hpc
    · rintro rfl
      rw [hnone] at hpc'
      cases hpc'
  refine h.goto pc' rfl rfl rfl rfl (Nat.le_refl _) (hat .unborn rfl).1 (hat .unborn rfl).2
    (hat .created rfl).2 ?_ ?_ (hat .created rfl).1 (fun ra child rv => (hat (.spawn ra child rv) rfl).1)
    (fun ra child rv => (hat (.spawn ra child rv) rfl).2)
    (fun ra child rv heq => absurd heq (hat (.beforeCreate ra child rv) rfl).2)
    (fun sig u heq => absurd heq (hat (.handoff sig u) rfl).2) fun _ _ _ _ _ => rfl
  · cases c with
    | running u =>
        have hbeq : (t == u) = false := by
          rw [beq_eq_false_iff_ne]
          rintro rfl
          exact hne rfl
        simp [Control.timedOut, hbeq]
    | _ => rfl
  · have hrole := h.role t
    have hrests : pc'.Rests (tr.was_signalled_map t) := Or.inr (Or.inr (by rw [hpc']; rfl))
    cases c with
    | nobody => exact hrests
    | running u =>
        have hu : t ≠ u := by
          rintro rfl
          exact hne rfl
        simp only [Control.Role, if_neg hu]
        exact hrests
    | posted u =>
        simp only [Control.Role, hpc, hpc'] at hrole ⊢
        split
        · rename_i hu
          rwa [if_pos hu] at hrole
        · exact hrests
    | timeout u =>
        simp only [Control.Role, hpc, hpc'] at hrole ⊢
        split
        · rename_i hu
          rwa [if_pos hu] at hrole
        · exact hrests
    | handed u x =>
        simp only [Control.Role, hpc, hpc'] at hrole ⊢
        split
        · rename_i hu
          rwa [if_pos hu] at hrole
        · rename_i hu
          rw [if_neg hu] at hrole
          split
          · rename_i hx
            rw [if_pos hx] at hrole
            obtain ⟨sig, hsig⟩ := hrole
            exact absurd hsig (hat (.waitReady sig u) rfl).1
          · exact hrests
    | serving u x =>
        simp only [Control.Role] at hrole ⊢
        split
        · rename_i hu
          rw [if_pos hu] at hrole
          obtain ⟨_, w, hw, hnot⟩ := hrole
          -- the woken thread has nowhere to rest yet
          cases hcode : pcs t <;> rw [hcode] at hpc hw hnot <;> simp [Pc.heading, Pc.wakes] at *
          exact absurd hw hnot
        · rename_i hu
          rw [if_neg hu] at hrole
          split
          · rename_i hx
            rw [if_pos hx] at hrole
            obtain ⟨sig, hsig⟩ := hrole
            exact absurd hsig (hat (.waitReady sig u) rfl).1
          · exact hrests

-- The steps of a woken thread while its signaller waits.
theorem section_goto_serving (h : Controlled tr pcs (.serving t x)) (w : Wait) (pc' : Pc)
    (hpc : pcs t = .woken w ∨ pcs t = .relock w ∨ pcs t = .signalReady w)
    (hrun : tr.runSection t (pcs t) = .ok (tr', .goto pc')) :
    ∃ c', Controlled tr' (Function.update pcs t pc') c' ∧
      (c' = .serving t x ∨ c' = .running x) := by
  have hborn : pcs t ≠ .unborn := by
    rcases hpc with hpc | hpc | hpc <;> simp [hpc]
  have hrole := h.role t
  simp only [Control.Role, if_true] at hrole
  -- the first two of the three steps
  have hnext (hpc' : pc' = .relock w ∨ pc' = .signalReady w)
      (hold : pcs t = .woken w ∨ pcs t = .relock w) :
      Controlled tr' (Function.update pcs t pc') (.serving t x) := by
    have hnot (w' : Wait) : pcs t ≠ .signalReady w' := by
      rcases hold with hold | hold <;> simp [hold]
    obtain ⟨hsem, hwait, hready, hsignalled, hid⟩ := posts_goto (pcs t) pc' hnot hrun
    refine h.goto pc' hsem hwait hready hsignalled hid hborn ?_ ?_ rfl ?_ ?_ ?_ ?_ ?_ ?_ ?_
    · rcases hpc' with rfl | rfl <;> rintro ⟨⟩
    · rcases hpc' with rfl | rfl <;> rintro ⟨⟩
    · simp only [Control.Role, if_true]
      refine ⟨hrole.1, w, ?_⟩
      rcases hpc' with rfl | rfl <;> exact ⟨rfl, by rintro ⟨⟩⟩
    · rcases hold with hold | hold <;> simp [hold]
    · rcases hold with hold | hold <;> simp [hold]
    · rcases hpc' with rfl | rfl <;> rintro _ _ _ ⟨⟩
    · rcases hpc' with rfl | rfl <;> rintro _ _ _ ⟨⟩
    · rcases hpc' with rfl | rfl <;> rintro _ _ ⟨⟩
    · intro u hu sig y hy
      exact absurd hy (h.no_handoff (fun _ _ => by rintro ⟨⟩) u hu sig y)
  rcases hpc with hpc | hpc | hpc
  · have heq : pc' = .relock w := by
      rw [hpc] at hrun
      cases hrun
      rfl
    exact ⟨_, hnext (Or.inl heq) (Or.inl hpc), Or.inl rfl⟩
  · have heq : pc' = .signalReady w := by
      rw [hpc] at hrun
      simp only [ExecutionTracker.runSection, ExecutionTracker.beforeMutexLockInWait,
        safe_assert_bind] at hrun
      cases hrun.2
      rfl
    exact ⟨_, hnext (Or.inr heq) (Or.inr hpc), Or.inl rfl⟩
  · rw [hpc] at hrun
    cases hrun
    obtain ⟨c', h', hc⟩ := h.signalReady w hpc
    rcases hc with ⟨hc, _⟩ | ⟨y, hy, rfl⟩
    · cases hc
    · cases hy
      exact ⟨_, h', Or.inr rfl⟩

end Controlled

end Thrille
