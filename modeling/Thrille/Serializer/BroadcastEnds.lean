import Thrille.Lib.Inevitable
import Thrille.Serializer.CondRuns
import Thrille.Serializer.CreateResult

namespace Thrille

open Traces

namespace Pc

-- A broadcast that is not done; the thread that it has found waits for its condition.
def Broadcasts (ret_addr : Addr) : Pc → Prop
  | simulateSignal addr _ isBroadcast => addr = ret_addr ∧ isBroadcast = true
  | handoff info u => info.ret_addr = ret_addr ∧ info.isBroadcast = true ∧
      info.cond_map[u]? = some info.cond
  | waitReady info _ => info.ret_addr = ret_addr ∧ info.isBroadcast = true
  | _ => False

theorem Broadcasts.places {pc : Pc} {ret_addr : Addr} (h : pc.Broadcasts ret_addr) :
    pc.runs = true ∧ pc.wakes = none := by
  cases pc <;> first
    | exact ⟨rfl, rfl⟩
    | exact absurd h id

-- A bound for the steps that a thread takes while it does not get a turn. The step with which it
-- tells its signaller that it is ready gives some of them to the signaller.
def cost : Pc → Nat
  | threadStart => 2
  | launched (.wait _) => 12
  | leaving (.wait _) => 11
  | blocked (.wait _) => 10
  | woken _ => 9
  | relock _ => 8
  | signalReady _ => 7
  | checkTimeout _ => 2
  | launched _ => 2
  | leaving _ => 1
  | _ => 0

def calling (ready : ThrID → Bool) : Pc → Nat
  | simulateSignal .. => 4
  | handoff .. => 2
  | waitReady _ u => if ready u then 3 else 1
  | _ => 0

def total (pcs : ThrID → Pc) : Nat → Nat
  | 0 => 0
  | n + 1 => total pcs n + (pcs n).cost

theorem total_update (pcs : ThrID → Pc) (t : ThrID) (pc' : Pc) (n : Nat) :
    total (Function.update pcs t pc') n + (if t < n then (pcs t).cost else 0) =
      total pcs n + if t < n then pc'.cost else 0 := by
  induction n with
  | zero => rfl
  | succ n ih =>
      simp only [total]
      by_cases hn : n = t
      · subst hn
        rw [Function.update_self, if_pos (Nat.lt_succ_self n), if_pos (Nat.lt_succ_self n)]
        rw [if_neg (Nat.lt_irrefl n), if_neg (Nat.lt_irrefl n)] at ih
        omega
      · rw [Function.update_of_ne hn]
        have hiff : t < n + 1 ↔ t < n := by
          constructor
          · intro hlt
            exact Nat.lt_of_le_of_ne (Nat.le_of_lt_succ hlt) (Ne.symm hn)
          · exact Nat.lt_succ_of_lt
        simp only [hiff]
        omega

end Pc

namespace System

variable {σ : Type} {v : Virtual σ} {s s' : System σ} {t x : ThrID} {addr ret_addr : Addr} {op : Op}
  {tr : ExecutionTracker} {c : Control}

def measure (t : ThrID) (s : System σ) : Nat :=
  Pc.total s.pcs s.tracker.next_id + (s.pcs t).calling s.tracker.wait_ready_map

-- Thread `t` is in the loop of a broadcast.
structure Broadcast (t : ThrID) (ret_addr : Addr) (s : System σ) : Prop where
  serial : ∃ c, Serial s c
  locked : s.Locked
  place : (s.pcs t).Broadcasts ret_addr
  target : ∀ info u, s.pcs t = .waitReady info u → s.pcs u ≠ .unborn

theorem runThread_goto {pc pc' : Pc} (hrun : s.tracker.runSection t pc = .ok (tr, .goto pc')) :
    s.runThread v t pc =
      { s with tracker := tr, barriers := s.barriers.observe t pc }.goto t pc' := by
  unfold runThread
  rw [hrun]
  rfl

namespace Broadcast

-- Whose turn it is.
theorem control (h : Broadcast t ret_addr s) (hserial : Serial s c) :
    c = .running t ∨ ∃ u sig, (c = .handed u t ∨ c = .serving u t) ∧ t ≠ u ∧
      s.pcs t = .waitReady sig u := by
  obtain ⟨hruns, hwakes⟩ := h.place.places
  rcases hserial.controlled.runs_cases hruns with hc | ⟨w, hw, _⟩ | ⟨x, w, _, hw, _⟩ | hc
  · exact Or.inl hc
  · rw [hw] at hwakes
    cases hwakes
  · rw [hwakes] at hw
    cases hw
  · exact Or.inr hc

-- A step of thread `x`, which decreases the measure.
theorem goOn (h : Broadcast t ret_addr s) (hstep : s.step v x addr op = some s')
    (hrunning : s'.stopped = none) (hborn : s.pcs x ≠ .unborn) (pc' : Pc)
    (hpcs : s'.pcs = Function.update s.pcs x pc')
    (hborn' : pc' ≠ .unborn) (hnext : s'.tracker.next_id = s.tracker.next_id)
    (hplace : (s'.pcs t).Broadcasts ret_addr)
    (htarget : ∀ info u, s'.pcs t = .waitReady info u → s.pcs u ≠ .unborn)
    (hless : pc'.cost + (s'.pcs t).calling s'.tracker.wait_ready_map <
      (s.pcs x).cost + (s.pcs t).calling s.tracker.wait_ready_map) :
    Broadcast t ret_addr s' ∧ measure t s' < measure t s := by
  obtain ⟨c, hserial⟩ := h.serial
  have hlt : x < s.tracker.next_id := by
    by_contra hge
    exact hborn (hserial.controlled.fresh x (Nat.le_of_not_lt hge))
  have hserial' : ∃ c', Serial s' c' := by
    rcases hserial.step hstep with hserial' | hhalted
    · exact hserial'
    · exact absurd hrunning hhalted.stopped
  refine ⟨⟨hserial', h.locked.step (Or.inl h.serial) hstep, hplace, fun info u hu => ?_⟩, ?_⟩
  · rw [hpcs]
    exact mt (Pc.update_unborn s.pcs x pc' hborn hborn' u).mp (htarget info u hu)
  have htotal := Pc.total_update s.pcs x pc' s.tracker.next_id
  rw [if_pos hlt, if_pos hlt] at htotal
  unfold measure
  rw [hnext, hpcs]
  rw [hpcs] at hless
  omega

-- A section of thread `x` that goes on to another one.
theorem section_goto (h : Broadcast t ret_addr s) (hstep : s.step v x addr op = some s')
    (hs' : s' = s.runThread v x (s.pcs x)) (hsection : (s.pcs x).isSection = true) {pc' : Pc}
    (hrun : s.tracker.runSection x (s.pcs x) = .ok (tr, .goto pc'))
    (hborn' : pc' ≠ .unborn) (hnext : tr.next_id = s.tracker.next_id)
    (hplace : (Function.update s.pcs x pc' t).Broadcasts ret_addr)
    (htarget : ∀ info u, Function.update s.pcs x pc' t = .waitReady info u → s.pcs u ≠ .unborn)
    (hless : pc'.cost + (Function.update s.pcs x pc' t).calling tr.wait_ready_map <
      (s.pcs x).cost + (s.pcs t).calling s.tracker.wait_ready_map) :
    Broadcast t ret_addr s' ∧ measure t s' < measure t s := by
  obtain ⟨c, hserial⟩ := h.serial
  rw [runThread_goto hrun] at hs'
  subst hs'
  refine h.goOn hstep hserial.running ?_ pc' rfl hborn' hnext hplace htarget hless
  intro hborn
  rw [hborn] at hsection
  cases hsection

-- The sections of the broadcaster.
theorem section_self (h : Broadcast t ret_addr s) (hserial : Serial s (.running t))
    (hready : s.ready (s.pcs t) = true) (hstep : s.step v t addr op = some s')
    (hs' : s' = s.runThread v t (s.pcs t)) :
    (s'.pcs t = .signalDone ret_addr true ∧ s'.stopped = none) ∨
      Broadcast t ret_addr s' ∧ measure t s' < measure t s := by
  have hself (pc' : Pc) : Function.update s.pcs t pc' t = pc' := Function.update_self _ _ _
  have hdone (hrun : s.tracker.runSection t (s.pcs t) =
      .ok (s.tracker, .goto (.signalDone ret_addr true))) :
      s'.pcs t = .signalDone ret_addr true ∧ s'.stopped = none := by
    rw [hs', runThread_goto hrun]
    exact ⟨Function.update_self _ _ _, hserial.running⟩
  have hplace := h.place
  cases hat : s.pcs t with
  | simulateSignal addr' cond isBroadcast =>
      rw [hat] at hplace
      obtain ⟨rfl, rfl⟩ := hplace
      have hsection : s.tracker.runSection t (s.pcs t) = s.tracker.wakeThreadWaitingOnCond
          { ret_addr := addr', isBroadcast := true, thread := t, cond,
            cond_map := s.tracker.cond_map } := by
        rw [hat]
        rfl
      generalize hinfo : SignalPointInfo.mk addr' true t cond s.tracker.cond_map = info at hsection
      have hbroadcast : info.isBroadcast = true := by rw [← hinfo]
      have haddr : info.ret_addr = addr' := by rw [← hinfo]
      unfold ExecutionTracker.wakeThreadWaitingOnCond at hsection
      by_cases hmissed : ExecutionTracker.isSignalMissed info = true
      · left
        apply hdone
        rw [hsection, if_pos hmissed, haddr, hbroadcast]
        rfl
      · right
        obtain ⟨u, hu⟩ : ∃ u, ExecutionTracker.selectThreadWaitingOnCond info = some u := by
          apply Option.ne_none_iff_exists'.mp
          intro hnone
          exact hmissed (List.isEmpty_iff.mpr (List.head?_eq_none_iff.mp hnone))
        rw [if_neg hmissed, if_pos hbroadcast, hu] at hsection
        apply h.section_goto hstep hs' (by rw [hat]; rfl) hsection (by rintro ⟨⟩) rfl
        · rw [hself]
          exact ⟨haddr, hbroadcast, (PtrMap.mem_threadsAt _ _ _).mp (List.mem_of_head? hu)⟩
        · rw [hself]
          exact fun _ _ => by rintro ⟨⟩
        · rw [hself, hat]
          exact (by decide : 0 + 2 < 0 + 4)
  | handoff info u =>
      rw [hat] at hplace
      obtain ⟨haddr, hbroadcast, hcond⟩ := hplace
      right
      have hrun : s.tracker.runSection t (s.pcs t) =
          .ok (s.tracker.setWaitReady u false, .signalled info u) := by
        rw [hat]
        simp only [ExecutionTracker.runSection, ExecutionTracker.scheduleThreadWaitingOnCond]
        rw [hcond]
        simp only [beq_self_eq_true]
        rfl
      -- the thread waits, and so it has its semaphore
      have hborn : s.pcs u ≠ .unborn := by
        intro hborn
        have hcond' := hcond
        rw [hserial.controlled.copy t info u hat] at hcond'
        obtain ⟨w, hw, _⟩ := (hserial.consistent.fits u).cond info.cond hcond'
        rw [hborn] at hw
        cases hw
      have hsem : (s.tracker.setWaitReady u false).wait_sem_map u = some 0 :=
        hserial.controlled.waitSem u hborn
      have heq : s' = { s with
          tracker := (s.tracker.setWaitReady u false).setWaitSem u 1
          log := s.log.signalScheduling u info
          barriers := s.barriers.observe t (s.pcs t) }.goto t (.waitReady info u) := by
        rw [hs', runThread, hrun]
        simp only [perform, ExecutionTracker.waitWakeThread, hsem]
      subst heq
      refine h.goOn hstep hserial.running (by rw [hat]; rintro ⟨⟩) (.waitReady info u) rfl
        (by rintro ⟨⟩) rfl
        ?_ (fun info' u' hu' => ?_) ?_
      · show (Function.update s.pcs t (.waitReady info u) t).Broadcasts ret_addr
        rw [hself]
        exact ⟨haddr, hbroadcast⟩
      · have hsame : Pc.waitReady info u = .waitReady info' u' := (hself _).symm.trans hu'
        cases hsame
        exact hborn
      · show _ + (Function.update s.pcs t (.waitReady info u) t).calling _ < _
        rw [hself, hat]
        simp only [Pc.cost, Pc.calling, goto, ExecutionTracker.setWaitSem,
          ExecutionTracker.setWaitReady, Function.update_self]
        decide
  | waitReady info u =>
      rw [hat] at hplace
      obtain ⟨haddr, hbroadcast⟩ := hplace
      cases hselect : ExecutionTracker.selectThreadWaitingOnCond
          { info with cond_map := s.tracker.cond_map } with
      | none =>
          left
          apply hdone
          rw [hat]
          simp only [ExecutionTracker.runSection, ExecutionTracker.waitThreadReady,
            if_pos hbroadcast, hselect]
          rw [haddr, hbroadcast]
          rfl
      | some y =>
          right
          have hrun : s.tracker.runSection t (s.pcs t) = .ok (s.tracker,
              .goto (.handoff { info with cond_map := s.tracker.cond_map } y)) := by
            rw [hat]
            simp only [ExecutionTracker.runSection, ExecutionTracker.waitThreadReady,
              if_pos hbroadcast, hselect]
            rfl
          apply h.section_goto hstep hs' (by rw [hat]; rfl) hrun (by rintro ⟨⟩) rfl
          · rw [hself]
            exact ⟨haddr, hbroadcast, (PtrMap.mem_threadsAt _ _ _).mp (List.mem_of_head? hselect)⟩
          · rw [hself]
            exact fun _ _ => by rintro ⟨⟩
          · rw [hself, hat]
            rw [hat] at hready
            have hflag : s.tracker.wait_ready_map u = true := hready
            simp only [Pc.cost, Pc.calling, hflag]
            decide
  | _ =>
      rw [hat] at hplace
      exact absurd hplace id

-- The sections of the thread that has been removed, while the broadcaster waits for it.
theorem section_other (h : Broadcast t ret_addr s) (hserial : Serial s (.serving x t))
    (w : Wait) (hat : s.pcs x = .woken w ∨ s.pcs x = .relock w ∨ s.pcs x = .signalReady w)
    (hstep : s.step v x addr op = some s') (hs' : s' = s.runThread v x (s.pcs x)) :
    Broadcast t ret_addr s' ∧ measure t s' < measure t s := by
  have hne : t ≠ x := by
    rintro rfl
    obtain ⟨_, hwakes⟩ := h.place.places
    rcases hat with hat | hat | hat <;> rw [hat] at hwakes <;> cases hwakes
  have hplace (pc' : Pc) : (Function.update s.pcs x pc' t).Broadcasts ret_addr := by
    rw [Function.update_of_ne hne]
    exact h.place
  have htarget (pc' : Pc) (info : SignalPointInfo) (u : ThrID)
      (hu : Function.update s.pcs x pc' t = .waitReady info u) : s.pcs u ≠ .unborn := by
    rw [Function.update_of_ne hne] at hu
    exact h.target info u hu
  rcases hat with hat | hat | hat
  · have hrun : s.tracker.runSection x (s.pcs x) =
        .ok (s.tracker.clearCond x, .goto (.relock w)) := by
      rw [hat]
      rfl
    apply h.section_goto hstep hs' (by rw [hat]; rfl) hrun (by rintro ⟨⟩) rfl (hplace _) (htarget _)
    rw [Function.update_of_ne hne, hat]
    simp only [Pc.cost, ExecutionTracker.clearCond]
    omega
  · have hfinished : s.tracker.threadIsFinished x = false := by
      have hfin := hserial.consistent.finished_eq x
      rw [hat] at hfin
      exact hfin
    have hrun : s.tracker.runSection x (s.pcs x) =
        .ok (s.tracker.determineLockStatus x w.lock, .goto (.signalReady w)) := by
      rw [hat]
      simp only [ExecutionTracker.runSection, ExecutionTracker.beforeMutexLockInWait, hfinished]
      rfl
    have hposts := s.tracker.posts_determineLockStatus x w.lock
    apply h.section_goto hstep hs' (by rw [hat]; rfl) hrun (by rintro ⟨⟩)
      (congrArg Posts.nextId hposts)
      (hplace _) (htarget _)
    have hmap : (s.tracker.determineLockStatus x w.lock).wait_ready_map = s.tracker.wait_ready_map :=
      congrArg Posts.ready hposts
    rw [Function.update_of_ne hne, hat, hmap]
    simp only [Pc.cost]
    omega
  · have hrun : s.tracker.runSection x (s.pcs x) = .ok (s.tracker.signalThreadReady x, .goto
        (if w.timed then .checkTimeout w else .leaving (.pause (.relock w false)))) := by
      rw [hat]
      rfl
    apply h.section_goto hstep hs' (by rw [hat]; rfl) hrun (by split <;> rintro ⟨⟩) rfl (hplace _)
      (htarget _)
    have hcost : (if w.timed then Pc.checkTimeout w
        else .leaving (.pause (.relock w false))).cost ≤ 2 := by
      split
      · exact Nat.le_refl 2
      · exact Nat.le_succ 1
    -- the broadcaster waits for this thread
    have hcalling : (s.pcs t).calling (s.tracker.signalThreadReady x).wait_ready_map ≤
        (s.pcs t).calling s.tracker.wait_ready_map + 2 := by
      cases s.pcs t with
      | waitReady info u =>
          simp only [Pc.calling]
          split
          · split
            · omega
            · omega
          · split
            · omega
            · omega
      | _ => simp only [Pc.calling]; omega
    rw [Function.update_of_ne hne, hat]
    have hready : (Pc.signalReady w).cost = 7 := rfl
    omega

-- Every step of any thread.
theorem step (h : Broadcast t ret_addr s) (hstep : s.step v x addr op = some s') :
    (s'.pcs t = .signalDone ret_addr true ∧ s'.stopped = none) ∨
      Broadcast t ret_addr s' ∧ measure t s' < measure t s := by
  obtain ⟨c, hserial⟩ := h.serial
  have hcontrol := h.control hserial
  have hcontrolled := hserial.controlled
  obtain ⟨_, htransition⟩ := step_iff.mp hstep
  have hrunner (hruns : (s.pcs x).runs = true) (hwakes : (s.pcs x).wakes = none)
      (hnot : ∀ sig u, s.pcs x ≠ .waitReady sig u) : x = t := by
    have hc := hcontrolled.runner hruns hwakes hnot
    rw [hc] at hcontrol
    rcases hcontrol with heq | ⟨u, sig, heq | heq, _⟩
    · exact Control.running.inj heq
    · cases heq
    · cases heq
  -- the steps of the others on their way to their semaphores
  have hother (hnot : ¬(s.pcs x).Broadcasts ret_addr) (pc' : Pc) (hborn : s.pcs x ≠ .unborn)
      (hpcs : s'.pcs = Function.update s.pcs x pc') (hborn' : pc' ≠ .unborn)
      (hnext : s'.tracker.next_id = s.tracker.next_id)
      (hready : s'.tracker.wait_ready_map = s.tracker.wait_ready_map)
      (hrunning : s'.stopped = none) (hless : pc'.cost < (s.pcs x).cost) :
      Broadcast t ret_addr s' ∧ measure t s' < measure t s := by
    have hne : t ≠ x := by
      rintro rfl
      exact hnot h.place
    have hsame : s'.pcs t = s.pcs t := by rw [hpcs, Function.update_of_ne hne]
    apply h.goOn hstep hrunning hborn pc' hpcs hborn' hnext
    · rw [hsame]
      exact h.place
    · rw [hsame]
      exact h.target
    · rw [hsame, hready]
      omega
  cases htransition with
  | asks ret_val hat =>
      have hplace := h.place
      rw [← hrunner (by rw [hat]; rfl) (by rw [hat]; rfl)
        (by rw [hat]; exact fun _ _ => by rintro ⟨⟩),
        hat] at hplace
      exact absurd hplace id
  | spawns child_addr child hat =>
      have hplace := h.place
      rw [← hrunner (by rw [hat]; rfl) (by rw [hat]; rfl)
        (by rw [hat]; exact fun _ _ => by rintro ⟨⟩),
        hat] at hplace
      exact absurd hplace id
  | starts hat hlock =>
      right
      refine hother (by rw [hat]; exact id) _ (by rw [hat]; rintro ⟨⟩) rfl (by rintro ⟨⟩) rfl rfl
        hserial.running ?_
      rw [hat]
      exact (by decide : 1 < 2)
  | unlocks r hat =>
      right
      refine hother (by rw [hat]; exact id) _ (by rw [hat]; rintro ⟨⟩) rfl (by rintro ⟨⟩) rfl rfl
        hserial.running ?_
      rw [hat]
      cases r <;> simp only [Pc.cost] <;> omega
  | leaves r hat hlock =>
      right
      refine hother (by rw [hat]; exact id) _ (by rw [hat]; rintro ⟨⟩) rfl (by rintro ⟨⟩) rfl rfl
        hserial.running ?_
      rw [hat]
      cases r <;> simp only [Pc.cost] <;> omega
  | resumes k n hat hsem =>
      -- nobody has been launched
      obtain ⟨rfl, _⟩ := hcontrolled.takeSem k n hat hsem
      rcases hcontrol with heq | ⟨u, sig, heq | heq, _⟩
      · cases heq
      · cases heq
      · cases heq
  | wakes w n hat hsem =>
      right
      refine hother (by rw [hat]; exact id) _ (by rw [hat]; rintro ⟨⟩) rfl (by rintro ⟨⟩) rfl rfl
        hserial.running ?_
      rw [hat]
      exact (by decide : 9 < 10)
  | runs hsection hlock hready =>
      rcases hcontrolled.section_cases hsection
        (fun sig u hat => by rw [hat] at hready; exact hready)
        with rfl | ⟨w, hat, hsignalled, hne⟩ | ⟨y, w, rfl, hat⟩
      · obtain rfl : x = t := by
          rcases hcontrol with heq | ⟨u, sig, heq | heq, _⟩
          · exact Control.running.inj heq
          · cases heq
          · cases heq
        exact h.section_self hserial hready hstep rfl
      · right
        have hrun : s.tracker.runSection x (s.pcs x) =
            .ok (s.tracker, .goto (.leaving (.pause (.relock w false)))) := by
          rw [hat]
          simp only [ExecutionTracker.runSection, ExecutionTracker.checkTimeout, if_pos hsignalled]
          rfl
        have hne : t ≠ x := by
          rintro rfl
          have hplace := h.place
          rw [hat] at hplace
          exact hplace
        apply h.section_goto hstep rfl hsection hrun (by rintro ⟨⟩) rfl
        · rw [Function.update_of_ne hne]
          exact h.place
        · rw [Function.update_of_ne hne]
          exact h.target
        · rw [Function.update_of_ne hne, hat]
          simp only [Pc.cost]
          omega
      · right
        obtain rfl : y = t := by
          rcases hcontrol with heq | ⟨u, sig, heq | heq, _⟩
          · cases heq
          · cases heq
          · exact (Control.serving.inj heq).2
        exact h.section_other hserial w hat hstep rfl

-- There is always a thread that can take a step.
theorem progress (h : Broadcast t ret_addr s) (v : Virtual σ) :
    ∃ x addr op s', s.step v x addr op = some s' := by
  obtain ⟨c, hserial⟩ := h.serial
  have hrunning := hserial.running
  have hstep (x : ThrID) (s' : System σ) (htransition : Transition v s x 0 .exit s') :
      ∃ x addr op s', s.step v x addr op = some s' :=
    ⟨x, 0, .exit, s', step_iff.mpr ⟨hrunning, htransition⟩⟩
  have hsection (x : ThrID) (hsection : (s.pcs x).isSection = true)
      (hready : s.ready (s.pcs x) = true) (hlock : s.global_lock = none) :
      ∃ x addr op s', s.step v x addr op = some s' :=
    hstep x _ (.runs hsection (Or.inr hlock) hready)
  by_cases hlock : s.global_lock = none
  · by_cases hwaits : ∃ info u, s.pcs t = .waitReady info u ∧ s.tracker.wait_ready_map u = false
    · -- the thread that has been removed is on its way
      obtain ⟨info, u, hat, hnot⟩ := hwaits
      have hborn := h.target info u hat
      have hready := hserial.controlled.ready u hborn
      have hrole := hserial.controlled.role u
      rw [hnot] at hready
      rcases h.control hserial with rfl | ⟨y, sig, hc, hne, hsig⟩
      · cases hready
      · obtain rfl : u = y := by
          rw [hat] at hsig
          cases hsig
          rfl
        rcases hc with rfl | rfl
        · simp only [Control.Role, if_true] at hrole
          obtain ⟨_, w, hheading⟩ := hrole
          cases hpc : s.pcs u with
          | launched r => exact hstep u _ (.unlocks r hpc)
          | leaving r => exact hstep u _ (.leaves r hpc hlock)
          | blocked r =>
              rw [hpc] at hheading
              cases hheading
              have hsem : s.tracker.wait_sem_map u = some (0 + 1) := by
                rw [hserial.controlled.waitSem u hborn]
                simp [Control.waitSemOf]
              exact hstep u _ (.wakes w 0 hpc hsem)
          | threadStart => rw [hpc] at hheading; cases hheading
          | checkTimeout w' =>
              have hheading' := Pc.heading_wait_congr hheading true
              rw [hpc] at hheading'
              cases hheading'
          | _ => rw [hpc] at hheading; cases hheading
        · simp only [Control.Role, if_true] at hrole
          obtain ⟨_, w, hw, hcheck⟩ := hrole
          cases hpc : s.pcs u with
          | woken w' => exact hsection u (by rw [hpc]; rfl) (by rw [hpc]; rfl) hlock
          | relock w' => exact hsection u (by rw [hpc]; rfl) (by rw [hpc]; rfl) hlock
          | signalReady w' => exact hsection u (by rw [hpc]; rfl) (by rw [hpc]; rfl) hlock
          | checkTimeout w' =>
              rw [hpc] at hw hcheck
              cases hw
              exact absurd rfl hcheck
          | _ => rw [hpc] at hw; cases hw
    · apply hsection t ?_ ?_ hlock
      · cases hat : s.pcs t <;> first
          | rfl
          | have hplace := h.place
            rw [hat] at hplace
            exact absurd hplace id
      · cases hat : s.pcs t with
        | waitReady info u =>
            by_contra hnot
            exact hwaits ⟨info, u, hat, Bool.eq_false_iff.mpr hnot⟩
        | _ =>
            first
              | rfl
              | have hplace := h.place
                rw [hat] at hplace
                exact absurd hplace id
  · obtain ⟨x, hx⟩ := Option.ne_none_iff_exists'.mp hlock
    obtain ⟨r, hr⟩ := h.locked x hx
    exact hstep x _ (.unlocks r hr)

end Broadcast

section Traced

variable {past : List CondEvent}

theorem locked_of_traced (h : Traced Initial (Shows v condEvents) s past) : s.Locked := by
  induction h with
  | initial s hstart =>
      obtain ⟨scheduler, read_schedule, rfl⟩ := hstart
      exact nofun
  | step s s' past shown htraced hstep ih =>
      obtain ⟨t, ret_addr, op, hstep, _⟩ := hstep
      exact ih.step (Or.inl (serial_of_traced htraced)) hstep

theorem Conds.initial (scheduler : σ) (read_schedule : List DecisionInfo) :
    Conds (System.initial scheduler read_schedule).tracker
      (System.initial scheduler read_schedule).pcs {} := by
  have hpcs (u : ThrID) : (System.initial scheduler read_schedule).pcs u = .unborn ∨
      (System.initial scheduler read_schedule).pcs u = .program OPERATION_SUCCESSFUL := by
    rw [initial_pcs]
    split
    · exact Or.inr rfl
    · exact Or.inl rfl
  refine ⟨fun u => ?_, fun u => ?_, fun u => ?_, nofun⟩
  · rcases hpcs u with hu | hu <;> rw [hu] <;> rfl
  · rcases hpcs u with hu | hu <;> rw [hu] <;> rfl
  · rcases hpcs u with hu | hu <;> rw [hu] <;> trivial

-- A run simulates the rules.
theorem conds_of_traced (h : Traced Initial (Shows v condEvents) s past) :
    ∃ a, Runs CondVars.Rule {} past a ∧ Conds s.tracker s.pcs a := by
  refine h.simulates (fun _ => True) (fun _ _ _ => trivial)
    (fun s a => Conds s.tracker s.pcs a) {} ?_ ?_ trivial
  · rintro s ⟨scheduler, read_schedule, rfl⟩
    exact Conds.initial scheduler read_schedule
  · rintro s s' past _ a htraced ⟨t, ret_addr, op, hstep, hrunning, rfl⟩ _ _ hconds
    obtain ⟨c, hserial⟩ := serial_of_traced htraced
    exact Conds.step hserial hconds hstep hrunning

-- Whatever a run does to the conditions is allowed by the rules, its waits return what their ends
-- say, `cond_map` holds those that wait whenever a thread looks for them, and a broadcast ends.
theorem condition_runs (v : Virtual σ) (s : System σ) (past : List CondEvent)
    (h : Traced Initial (Shows v condEvents) s past) :
    ∃ a, Runs CondVars.Rule {} past a ∧
      (∀ u, a.waiting u =
        (s.pcs u).waits (s.tracker.was_signalled_map u) (s.tracker.wait_ready_map u)) ∧
      (∀ front t ret_val back, past = front ++ .ret t ret_val :: back →
        CondEvent.Ended front t ret_val) ∧
      (∀ t ret_addr cond isBroadcast, s.pcs t = .simulateSignal ret_addr cond isBroadcast →
        ∀ u cond', s.tracker.cond_map[u]? = some cond' ↔
          ∃ timed, a.waiting u = some (cond', timed)) ∧
      ∀ t ret_addr cond, s.pcs t = .simulateSignal ret_addr cond true →
        Inevitable (fun s s' => ∃ x addr op, s.step v x addr op = some s')
          (fun s => s.pcs t = .signalDone ret_addr true ∧ s.stopped = none) s := by
  obtain ⟨a, hruns, hconds⟩ := conds_of_traced h
  obtain ⟨c, hserial⟩ := serial_of_traced h
  refine ⟨a, hruns, hconds.waiting, fun front t ret_val back => CondVars.ended_of_ret hruns,
    fun t ret_addr cond isBroadcast hat u cond' => ?_, fun t ret_addr cond hat => ?_⟩
  · have hc : c = .running t :=
      hserial.controlled.runner (by rw [hat]; rfl) (by rw [hat]; rfl)
        (by rw [hat]; exact fun _ _ => nofun)
    subst hc
    exact waiting_iff hserial hconds (by rw [hat]; rfl) u cond'
  · apply Inevitable.of_measure (Broadcast t ret_addr) (measure t)
    · intro s hbroadcast
      obtain ⟨x, addr, op, s', hstep⟩ := hbroadcast.progress v
      exact ⟨s', x, addr, op, hstep⟩
    · rintro s s' hbroadcast ⟨x, addr, op, hstep⟩
      exact hbroadcast.step hstep
    · exact ⟨⟨c, hserial⟩, locked_of_traced h, by rw [hat]; exact ⟨rfl, rfl⟩,
        by rw [hat]; exact fun _ _ => nofun⟩

-- A thread waits for a condition, and its child broadcasts it.
theorem waitAndBroadcast :
    ∃ s, Traced Initial (Shows ExecutionTracker.virtual condEvents) s
      [.wait 0 5 false, .call 1 5 true, .remove 1 0, .done 1, .ret 0 0] := by
  let go (t : ThrID) (n : Nat) : List (ThrID × Addr × Op) := List.replicate n (t, 0, .exit)
  let steps : List (ThrID × Addr × Op) :=
    (0, 1, .create 0) :: go 0 8 ++ (0, 2, .mutexLock 9) :: go 0 5 ++
      (0, 3, .condWait 5 9) :: go 0 4 ++ go 1 4 ++ (1, 5, .condBroadcast 5) :: go 1 3 ++
      go 0 5 ++ go 1 2 ++ go 0 1 ++ go 1 1 ++ go 0 1
  have hany : ((initial () []).run ExecutionTracker.virtual steps).any (·.stopped.isNone) = true := by
    decide +kernel
  obtain ⟨s, hs, hrunning⟩ := Option.any_eq_true _ _ |>.mp hany
  rw [Option.isNone_iff_eq_none] at hrunning
  have hinitial : Traced Initial (Shows ExecutionTracker.virtual condEvents) (initial () []) [] :=
    .initial _ ⟨(), [], rfl⟩
  have htraced := traced_of_run steps hinitial hs hrunning
  have hshown : [] ++ shown ExecutionTracker.virtual condEvents (initial () []) steps =
      [.wait 0 5 false, .call 1 5 true, .remove 1 0, .done 1, .ret 0 0] := by
    decide +kernel
  rw [hshown] at htraced
  exact ⟨s, htraced⟩

theorem condition_runs_waitAndBroadcast :
    ∃ s a, Traced Initial (Shows ExecutionTracker.virtual condEvents) s
        [.wait 0 5 false, .call 1 5 true, .remove 1 0, .done 1, .ret 0 0] ∧
      Runs CondVars.Rule {} [.wait 0 5 false, .call 1 5 true, .remove 1 0, .done 1, .ret 0 0] a ∧
      CondEvent.Ended [.wait 0 5 false, .call 1 5 true, .remove 1 0, .done 1] 0 0 := by
  obtain ⟨s, htraced⟩ := waitAndBroadcast
  obtain ⟨a, hruns, _, hended, _⟩ := condition_runs ExecutionTracker.virtual s _ htraced
  exact ⟨s, a, htraced, hruns, hended _ 0 0 [] rfl⟩

end Traced

end System

end Thrille
