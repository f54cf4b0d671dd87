import Thrille.Replay.View
import Thrille.Serializer.Traced

namespace Thrille

open ExecutionTracker

-- A thread that is let go from where it rests.
def Pc.resumed : Pc → Pc
  | blocked (.pause k) => .resume k
  | pc => pc

def Pc.awake : Pc → Pc
  | blocked (.wait w) => .woken w
  | pc => pc

theorem Pc.place_sem (signalled : Bool) (n : Nat) (waitSem : Option Nat) (pc : Pc) :
    pc.place signalled (some (n + 1)) waitSem = (pc.place signalled (some n) waitSem).resumed := by
  unfold place
  cases hheading : pc.heading signalled with
  | some r =>
      cases r with
      | pause k => cases n <;> rfl
      | wait w =>
          dsimp only
          split
          · rfl
          · rfl
      | exit => rfl
  | none =>
      cases pc with
      | blocked r => cases hheading
      | _ => rfl

theorem Pc.place_waitSem (signalled : Bool) (n : Nat) (sem : Option Nat) (pc : Pc) :
    pc.place signalled sem (some (n + 1)) = (pc.place signalled sem (some n)).awake := by
  unfold place
  cases hheading : pc.heading signalled with
  | some r =>
      cases r with
      | pause k =>
          dsimp only
          split
          · rfl
          · rfl
      | wait w => cases n <;> rfl
      | exit => rfl
  | none =>
      cases pc with
      | blocked r => cases hheading
      | _ => rfl

-- The thread that a signaller has chosen and not yet logged.
def Pc.pending : Pc → List ThrID
  | handoff info u => if info.isBroadcast then [] else [u]
  | _ => []

@[simp] theorem Pc.pending_resumed (pc : Pc) : pc.resumed.pending = pc.pending := by
  cases pc with
  | blocked r => cases r <;> rfl
  | _ => rfl

@[simp] theorem Pc.pending_awake (pc : Pc) : pc.awake.pending = pc.pending := by
  cases pc with
  | blocked r => cases r <;> rfl
  | _ => rfl

theorem Pc.pending_place (signalled : Bool) (sem waitSem : Option Nat) (pc : Pc) :
    (pc.place signalled sem waitSem).pending = pc.pending := by
  unfold place
  cases hheading : pc.heading signalled with
  | some r =>
      have hnone : pc.pending = [] := by
        cases pc <;> first
          | rfl
          | cases hheading
      rw [hnone]
      cases r with
      | pause k =>
          dsimp only
          split
          · rfl
          · rfl
      | wait w =>
          dsimp only
          split
          · rfl
          · rfl
      | exit => rfl
  | none => rfl

-- What the end of a section says of the choices that are not logged.
def Effect.Pends (pc : Pc) : Effect → Prop
  | goto pc' => pc.pending = [] ∧ pc'.pending = []
  | created _ pc' => pc.pending = [] ∧ pc'.pending = []
  | signalChoice info => pc.pending = [] ∧ info.isBroadcast = false
  | signalled info u => pc = .handoff info u
  | schedule .. => pc.pending = []

-- What the entries of a log say of the kind of their schedule point.
def pointTypes : List String :=
  ["Before Mutex Lock", "Before Mutex Try Lock", "After Mutex Unlock", "Simulate Timed Wait (s)",
    "Simulate Cond Wait", "Simulate Timed Wait (e)", "Simulate Broadcast", "Simulate Signal",
    "Before Sem Wait", "Simulate Sem Post", "Memory Read", "Memory Write", "Simulate Sleep",
    "Simulate Usleep", "Before Generic Schedule Point", "Thrille Checkpoint", "Before Barrier Wait",
    "Before Join", "Thread Finish", "After Create"]

-- A schedule point is of one of these kinds, and comes without a fair map.
def Effect.Fresh : Effect → Prop
  | schedule info _ => info.fenmap = ∅ ∧ info.type ∈ pointTypes
  | _ => True

-- Only looking for a thread on a condition variable comes to one.
theorem Pc.next_handoff {pc : Pc} {info : SignalPointInfo} {u : ThrID}
    (h : pc.Next (.handoff info u)) :
    (∃ ret_addr cond isBroadcast, pc = .simulateSignal ret_addr cond isBroadcast) ∨
      ∃ info' u', pc = .waitReady info' u' := by
  cases pc with
  | enter ret_addr op => cases op <;> simp [Next, Op.Next] at h
  | simulateSignal ret_addr cond isBroadcast => exact Or.inl ⟨_, _, _, rfl⟩
  | waitReady info' u' => exact Or.inr ⟨_, _, rfl⟩
  | signalReady w =>
      simp only [Next] at h
      split at h <;> cases h
  | resume k => cases k <;> simp [Next] at h
  | _ => simp [Next] at h

-- Only the end of a timed wait looks at how the thread was woken.
theorem Pc.place_signalled {pc : Pc} (h : ∀ w, pc ≠ .checkTimeout w) (signalled signalled' : Bool)
    (sem waitSem : Option Nat) :
    pc.place signalled sem waitSem = pc.place signalled' sem waitSem := by
  cases pc with
  | checkTimeout w => exact absurd rfl (h w)
  | _ => rfl

namespace ExecutionTracker

variable {self tr tr' : ExecutionTracker} {t : ThrID} {pc : Pc} {eff : Effect}

-- The places of the threads in a tracker depend on these maps.
def Turns (self other : ExecutionTracker) : Prop :=
  other.sem_map = self.sem_map ∧ other.wait_sem_map = self.wait_sem_map ∧
    other.was_signalled_map = self.was_signalled_map

-- A section changes nothing about whose turn it is, but for a thread that it makes.
theorem turns_runSection (h : self.runSection t pc = .ok (tr, eff)) :
    self.Turns tr ∨ ∃ ret_addr child ret_val, pc = .beforeCreate ret_addr child ret_val ∧
      tr = self.initializeThreadData child ∧ eff = .created child (.spawn ret_addr child ret_val) := by
  by_cases hposts : pc.posts = true
  · cases pc with
    | enter ret_addr op =>
        cases op with
        | create ret_val =>
            cases h
            exact Or.inl ⟨rfl, rfl, rfl⟩
        | _ => cases hposts
    | handoff info w =>
        simp only [runSection, scheduleThreadWaitingOnCond, safe_assert_bind] at h
        cases h.2
        exact Or.inl ⟨rfl, rfl, rfl⟩
    | signalReady w =>
        cases h
        exact Or.inl ⟨rfl, rfl, rfl⟩
    | beforeCreate ret_addr child ret_val =>
        cases h
        exact Or.inr ⟨ret_addr, child, ret_val, rfl, rfl, rfl⟩
    | _ => cases hposts
  · have hsame := posts_runSection pc (by simpa using hposts) h
    exact Or.inl ⟨congrArg Posts.sem hsame, congrArg Posts.waitSem hsame,
      congrArg Posts.signalled hsame⟩

theorem goto_pends {pc' : Pc} (hsection : pc.isSection = true)
    (h : self.runSection t pc = .ok (tr, .goto pc')) : pc'.pending = [] := by
  have hleads : pc.Next pc' := runSection_leads pc hsection h
  cases pc' with
  | handoff info u =>
      rcases Pc.next_handoff hleads with ⟨ret_addr, cond, isBroadcast, rfl⟩ | ⟨info', u', rfl⟩
      · simp only [runSection, wakeThreadWaitingOnCond] at h
        split at h
        · cases h
        · split at h
          · rename_i hbroadcast
            split at h <;> cases h
            exact if_pos hbroadcast
          · cases h
      · simp only [runSection, waitThreadReady] at h
        split at h
        · rename_i hbroadcast
          split at h <;> cases h
          exact if_pos hbroadcast
        · cases h
  | _ => rfl

theorem signalChoice_pends {info : SignalPointInfo} (hsection : pc.isSection = true)
    (h : self.runSection t pc = .ok (tr, .signalChoice info)) : info.isBroadcast = false := by
  have hleads : pc.Next (.handoff info 0) := runSection_leads pc hsection h 0
  rcases Pc.next_handoff hleads with ⟨ret_addr, cond, isBroadcast, rfl⟩ | ⟨info', u', rfl⟩
  · simp only [runSection, wakeThreadWaitingOnCond] at h
    split at h
    · cases h
    · split at h
      · split at h <;> cases h
      · rename_i hbroadcast
        cases h
        exact Bool.eq_false_iff.mpr hbroadcast
  · simp only [runSection, waitThreadReady] at h
    split at h
    · split at h <;> cases h
    · cases h

theorem runSection_pends (hsection : pc.isSection = true)
    (h : self.runSection t pc = .ok (tr, eff)) : eff.Pends pc := by
  have hfollows := runSection_follows pc h
  by_cases hhandoff : ∃ info u, pc = .handoff info u
  · obtain ⟨info, u, rfl⟩ := hhandoff
    simp only [runSection, scheduleThreadWaitingOnCond, safe_assert_bind] at h
    cases h.2
    rfl
  · have hnone : pc.pending = [] := by
      cases pc with
      | handoff info u => exact absurd ⟨info, u, rfl⟩ hhandoff
      | _ => rfl
    cases eff with
    | goto pc' => exact ⟨hnone, goto_pends hsection h⟩
    | created child pc' =>
        obtain ⟨ret_addr, ret_val, _, rfl⟩ := hfollows
        exact ⟨hnone, rfl⟩
    | signalChoice info => exact ⟨hnone, signalChoice_pends hsection h⟩
    | signalled info u => exact hfollows.1
    | schedule info r => exact hnone

theorem goto_fresh {pc : Pc} (h : self.goto pc = .ok (tr, eff)) : eff.Fresh := by
  cases h
  trivial

theorem schedPoint_fresh {ret_addr : Addr} {type : String} {isYield : Bool} {r : Rest}
    (h : self.schedPoint ret_addr type t isYield r = .ok (tr, eff)) (htype : type ∈ pointTypes) :
    eff.Fresh := by
  cases h
  exact ⟨rfl, htype⟩

theorem enter_fresh (ret_addr : Addr) (op : Op) (h : self.enter t ret_addr op = .ok (tr, eff)) :
    eff.Fresh := by
  cases op with
  | mutexLock lock =>
      simp only [enter, beforeMutexLock] at h
      split at h
      · exact goto_fresh h
      · exact schedPoint_fresh h (by decide)
  | mutexTrylock lock => exact schedPoint_fresh h (by decide)
  | mutexDestroy lock =>
      simp only [enter] at h
      split at h
      · exact goto_fresh h
      · exact goto_fresh h
  | condSignal cond =>
      simp only [enter, beforeCond, safe_assert_bind] at h
      exact goto_fresh h.2
  | condBroadcast cond =>
      simp only [enter, beforeCond, safe_assert_bind] at h
      exact goto_fresh h.2
  | semWait sem =>
      simp only [enter, beforeSemWait, safe_assert_bind] at h
      exact schedPoint_fresh h.2 (by decide)
  | semPost sem =>
      simp only [enter, simulateSemPost, safe_assert_bind] at h
      exact schedPoint_fresh h.2 (by decide)
  | barrierWait barrier =>
      simp only [enter, ok_bind] at h
      obtain ⟨_, _, h⟩ := h
      exact schedPoint_fresh h (by decide)
  | join target =>
      simp only [enter, ok_bind] at h
      obtain ⟨_, _, h⟩ := h
      exact schedPoint_fresh h (by decide)
  | exit => exact schedPoint_fresh h (by decide)
  | threadReturn =>
      simp only [enter] at h
      split at h
      · cases h
      · exact schedPoint_fresh h (by decide)
  | point p =>
      simp only [enter, thrillePoint, safe_assert_bind] at h
      exact schedPoint_fresh h.2 (by cases p <;> decide)
  | _ => exact goto_fresh h

theorem runSection_fresh (pc : Pc) (h : self.runSection t pc = .ok (tr, eff)) : eff.Fresh := by
  cases pc with
  | enter ret_addr op => exact enter_fresh ret_addr op h
  | resume k =>
      cases k <;> simp only [runSection, resume, ok_bind] at h <;>
        grind [Effect.Fresh, ExecutionTracker.goto]
  | simulateWait w =>
      simp only [runSection, simulateCondWait, safe_assert_bind] at h
      obtain ⟨_, _, h⟩ := h
      split at h
      · exact schedPoint_fresh h (by decide)
      · exact schedPoint_fresh h (by decide)
  | afterUnlock ret_addr lock ret_val =>
      simp only [runSection, afterMutexUnlock] at h
      split at h
      · exact goto_fresh h
      · exact schedPoint_fresh h (by decide)
  | checkTimeout w =>
      simp only [runSection, checkTimeout] at h
      split at h
      · exact goto_fresh h
      · exact schedPoint_fresh h (by decide)
  | signalDone ret_addr isBroadcast => exact schedPoint_fresh h (by cases isBroadcast <;> decide)
  | afterCreate ret_addr ret_val => exact schedPoint_fresh h (by decide)
  | relock w =>
      simp only [runSection, beforeMutexLockInWait, safe_assert_bind] at h
      exact goto_fresh h.2
  | simulateSignal ret_addr cond isBroadcast =>
      simp only [runSection, wakeThreadWaitingOnCond] at h
      (repeat' split at h) <;> grind [Effect.Fresh, ExecutionTracker.goto]
  | waitReady info u =>
      simp only [runSection, waitThreadReady] at h
      (repeat' split at h) <;> exact goto_fresh h
  | handoff info u =>
      simp only [runSection, scheduleThreadWaitingOnCond, safe_assert_bind] at h
      cases h.2
      trivial
  | beforeCreate ret_addr child ret_val =>
      cases h
      trivial
  | _ => exact goto_fresh h

theorem settled_setWaitSem {n m : Nat} (h : tr.wait_sem_map t = some n) :
    (tr.setWaitSem t m).settled = tr.settled := by
  unfold settled setWaitSem
  congr 1
  funext u
  by_cases hut : u = t
  · subst hut
    simp [h]
  · simp [hut]

theorem settled_setSem {n m : Nat} (h : tr.sem_map t = some n) :
    (tr.setSem t m).settled = tr.settled := by
  unfold settled setSem
  congr 1
  funext u
  by_cases hut : u = t
  · subst hut
    simp [h]
  · simp [hut]

-- What a launch does but for the post.
def marked (self : ExecutionTracker) (target : ThrID) : ExecutionTracker :=
  if target ∈ self.cond_map then self.setSignalled target false else self

theorem settled_launch {target : ThrID} (h : self.launch target = .ok tr) :
    tr.settled = self.settled.marked target := by
  have hcond : self.settled.cond_map = self.cond_map := rfl
  unfold launch at h
  rw [marked, hcond]
  split at h
  · rename_i hwaits
    rw [if_pos hwaits]
    unfold waitWakeThread at h
    split at h
    · rename_i n hn
      cases h
      exact settled_setWaitSem hn
    · cases h
  · rename_i hwaits
    rw [if_neg hwaits]
    unfold wakeThread at h
    split at h
    · rename_i n hn
      cases h
      exact settled_setSem hn
    · cases h

end ExecutionTracker

end Thrille
