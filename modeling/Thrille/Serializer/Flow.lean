import Thrille.Serializer.Consistent
import Thrille.Serializer.Transition

namespace Thrille

-- Where a thread can come to at the end of an operation's first section.
def Op.Next (op : Op) (pc : Pc) : Prop :=
  match op with
  | mutexLock lock => pc = .originalLock lock ∨ pc = .launched (.pause (.lock lock))
  | mutexTrylock lock => pc = .launched (.pause (.trylock lock))
  | mutexUnlock lock => ∃ ret_addr ret_val, pc = .afterUnlock ret_addr lock ret_val
  | condWait cond lock => ∃ ret_addr, pc = .simulateWait { cond, lock, timed := false, ret_addr }
  | condTimedwait cond lock => ∃ ret_addr, pc = .simulateWait { cond, lock, timed := true, ret_addr }
  | condSignal cond => ∃ ret_addr, pc = .simulateSignal ret_addr cond false
  | condBroadcast cond => ∃ ret_addr, pc = .simulateSignal ret_addr cond true
  | semWait sem => pc = .launched (.pause (.semWait sem))
  | semPost _ => pc = .launched (.pause (.simple OPERATION_SUCCESSFUL))
  | barrierWait barrier => pc = .launched (.pause (.barrier barrier))
  | create ret_val => ∃ ret_addr child, pc = .beforeCreate ret_addr child ret_val
  | join target => pc = .launched (.pause (.join target))
  | exit => pc = .launched .exit
  | threadReturn => pc = .launched .exit
  | point _ => pc = .launched (.pause (.simple OPERATION_SUCCESSFUL))
  | _ => ∃ ret_val, pc = .program ret_val

-- Where a thread can come to at the end of a section.
def Pc.Next (pc pc' : Pc) : Prop :=
  match pc with
  | enter _ op => op.Next pc'
  | originalLock _ => ∃ ret_val, pc' = .program ret_val
  | afterUnlock _ _ ret_val => pc' = .program ret_val ∨ pc' = .launched (.pause (.simple ret_val))
  | simulateWait w => pc' = .launched (.wait w)
  | woken w => pc' = .relock w
  | relock w => pc' = .signalReady w
  | signalReady w =>
      if w.timed then pc' = .checkTimeout w else pc' = .leaving (.pause (.relock w false))
  | checkTimeout w =>
      pc' = .leaving (.pause (.relock w false)) ∨ pc' = .launched (.pause (.relock w true))
  | simulateSignal ret_addr cond isBroadcast => pc' = .signalDone ret_addr isBroadcast ∨
      ∃ info u, pc' = .handoff info u ∧ info.cond = cond ∧ info.isBroadcast = isBroadcast
  | handoff info u => pc' = .waitReady info u
  | waitReady info _ => pc' = .signalDone info.ret_addr info.isBroadcast ∨
      ∃ info' u, pc' = .handoff info' u ∧ info'.cond = info.cond ∧
        info'.isBroadcast = info.isBroadcast
  | signalDone .. => pc' = .launched (.pause (.simple OPERATION_SUCCESSFUL))
  | beforeCreate ret_addr child ret_val => pc' = .spawn ret_addr child ret_val
  | afterCreate _ ret_val => pc' = .launched (.pause (.simple ret_val))
  | resume (.simple ret_val) => pc' = .program ret_val
  | resume (.relock _ timedOut) =>
      pc' = .program (if timedOut then ETIMEDOUT else OPERATION_SUCCESSFUL)
  | resume _ => ∃ ret_val, pc' = .program ret_val
  | _ => False

-- What the end of a section makes of the program counter.
def Effect.Leads (pc : Pc) : Effect → Prop
  | goto pc' => pc.Next pc'
  | created _ pc' => pc.Next pc'
  | signalChoice info => ∀ u, pc.Next (.handoff info u)
  | signalled info u => pc.Next (.waitReady info u)
  | schedule _ r => pc.Next (.launched r)

namespace ExecutionTracker

variable {self tr : ExecutionTracker} {t : ThrID} {eff : Effect}

theorem enter_leads (ret_addr : Addr) (op : Op) (h : self.enter t ret_addr op = .ok (tr, eff)) :
    eff.Leads (.enter ret_addr op) := by
  cases op with
  | mutexLock lock =>
      simp only [enter, beforeMutexLock] at h
      split at h <;> cases h
      · exact Or.inl rfl
      · exact Or.inr rfl
  | mutexUnlock lock => cases h; exact ⟨_, _, rfl⟩
  | mutexDestroy lock =>
      simp only [enter] at h
      split at h <;> cases h <;> exact ⟨_, rfl⟩
  | condSignal cond =>
      simp only [enter, beforeCond, safe_assert_bind] at h
      cases h.2
      exact ⟨_, rfl⟩
  | condBroadcast cond =>
      simp only [enter, beforeCond, safe_assert_bind] at h
      cases h.2
      exact ⟨_, rfl⟩
  | semWait sem =>
      simp only [enter, beforeSemWait, safe_assert_bind] at h
      cases h.2
      rfl
  | semPost sem =>
      simp only [enter, simulateSemPost, safe_assert_bind] at h
      cases h.2
      rfl
  | barrierWait barrier =>
      simp only [enter, ok_bind] at h
      obtain ⟨tracker, _, h⟩ := h
      cases h
      rfl
  | create ret_val => cases h; exact ⟨_, _, rfl⟩
  | join target =>
      simp only [enter, ok_bind] at h
      obtain ⟨tracker, _, h⟩ := h
      cases h
      rfl
  | threadReturn =>
      simp only [enter] at h
      split at h <;> cases h
      rfl
  | point p =>
      simp only [enter, thrillePoint, safe_assert_bind] at h
      cases h.2
      rfl
  | mutexTrylock lock => cases h; rfl
  | exit => cases h; rfl
  | _ => cases h; exact ⟨_, rfl⟩

theorem runSection_leads (pc : Pc) (hsection : pc.isSection = true)
    (h : self.runSection t pc = .ok (tr, eff)) : eff.Leads pc := by
  cases pc with
  | enter ret_addr op => exact enter_leads ret_addr op h
  | originalLock lock => cases h; exact ⟨_, rfl⟩
  | afterUnlock ret_addr lock ret_val =>
      simp only [runSection, afterMutexUnlock] at h
      split at h <;> cases h
      · exact Or.inl rfl
      · exact Or.inr rfl
  | simulateWait w =>
      simp only [runSection, simulateCondWait, safe_assert_bind] at h
      obtain ⟨_, _, h⟩ := h
      split at h <;> cases h <;> rfl
  | relock w =>
      simp only [runSection, beforeMutexLockInWait, safe_assert_bind] at h
      cases h.2
      rfl
  | signalReady w =>
      cases h
      simp only [Effect.Leads, Pc.Next]
      split <;> rfl
  | checkTimeout w =>
      simp only [runSection, checkTimeout] at h
      split at h <;> cases h
      · exact Or.inl rfl
      · exact Or.inr rfl
  | simulateSignal ret_addr cond isBroadcast =>
      simp only [runSection, wakeThreadWaitingOnCond] at h
      split at h
      · cases h
        exact Or.inl rfl
      · split at h
        · split at h <;> cases h
          exact Or.inr ⟨_, _, rfl, rfl, rfl⟩
        · cases h
          exact fun u => Or.inr ⟨_, u, rfl, rfl, rfl⟩
  | handoff info u =>
      simp only [runSection, scheduleThreadWaitingOnCond, safe_assert_bind] at h
      cases h.2
      rfl
  | waitReady info u =>
      simp only [runSection, waitThreadReady] at h
      split at h
      · split at h <;> cases h
        · exact Or.inr ⟨_, _, rfl, rfl, rfl⟩
        · exact Or.inl rfl
      · cases h
        exact Or.inl rfl
  | resume k =>
      cases k with
      | semWait sem =>
          simp only [runSection, resume, ok_bind] at h
          obtain ⟨tracker, _, h⟩ := h
          cases h
          exact ⟨_, rfl⟩
      | simple ret_val => cases h; rfl
      | relock w timedOut => cases h; rfl
      | _ => cases h; exact ⟨_, rfl⟩
  | woken w => cases h; rfl
  | signalDone ret_addr isBroadcast => cases h; rfl
  | beforeCreate ret_addr child ret_val => cases h; rfl
  | afterCreate ret_addr ret_val => cases h; rfl
  | _ => cases hsection

end ExecutionTracker

end Thrille
