import Thrille.Randact.Handlers
import Thrille.Randact.Simulation

namespace Thrille

open ExecutionTracker

-- The same place in the two runs, or a lock for a trylock.
inductive Pc.Alike : Pc → Pc → Prop
  | same (pc : Pc) : Alike pc pc
  | enters (ret_addr m : Addr) :
      Alike (.enter ret_addr (.mutexLock m)) (.enter ret_addr (.mutexTrylock m))
  | resumes (m : Addr) : Alike (.resume (.lock m)) (.resume (.trylock m))

theorem Pc.Alike.observe {spc xpc : Pc} (h : spc.Alike xpc) (b : Barriers) (t : ThrID) :
    b.observe t spc = b.observe t xpc := by
  cases h <;> rfl

theorem Pc.Alike.afterSchedule {spc xpc : Pc} (h : spc.Alike xpc) (tr : ExecutionTracker)
    (t : ThrID) : tr.afterSchedule t spc = tr.afterSchedule t xpc := by
  cases h <;> rfl

theorem Pc.Alike.isSection {spc xpc : Pc} (h : spc.Alike xpc) :
    spc.isSection = xpc.isSection := by
  cases h <;> rfl

theorem Pc.Alike.relocked {spc xpc : Pc} (h : spc.Alike xpc) : spc.relocked = xpc.relocked := by
  cases h <;> rfl

theorem Pc.Alike.unlocked {spc xpc : Pc} (h : spc.Alike xpc) : spc.unlocked = xpc.unlocked := by
  cases h <;> rfl

theorem Pc.stage_of_section {pc : Pc} (hsection : pc.isSection = true)
    (hrelocked : pc.relocked = false) (k : Pending) : pc.stage ≠ .pending k := by
  cases pc with
  | signalReady w => cases hrelocked
  | checkTimeout w => cases hrelocked
  | created => cases hsection
  | threadStart => cases hsection
  | launched r => cases hsection
  | leaving r => cases hsection
  | blocked r => cases hsection
  | _ => nofun

theorem ExecutionTracker.sem_map_runSection {self tr : ExecutionTracker} {t u : ThrID} {pc : Pc}
    {eff : Effect} {n : Nat} (h : self.runSection t pc = .ok (tr, eff))
    (hu : tr.sem_map u = some (n + 1)) : self.sem_map u = some (n + 1) := by
  by_cases hposts : pc.posts = true
  · cases pc with
    | enter ret_addr op =>
        cases op with
        | create ret_val =>
            cases h
            exact hu
        | _ => cases hposts
    | handoff info w =>
        simp only [runSection, scheduleThreadWaitingOnCond, safe_assert_bind] at h
        cases h.2
        exact hu
    | signalReady w =>
        cases h
        exact hu
    | beforeCreate ret_addr child ret_val =>
        cases h
        have hat : Function.update self.sem_map child (some 0) u = some (n + 1) := hu
        by_cases huc : u = child
        · rw [huc, Function.update_self] at hat
          cases hat
        · rwa [Function.update_of_ne huc] at hat
    | _ => cases hposts
  · have hsame := posts_runSection pc (by simpa using hposts) h
    have hsem : tr.sem_map = self.sem_map := congrArg Posts.sem hsame
    rwa [hsem] at hu

-- A lock and a trylock of a free mutex do the same.
theorem ExecutionTracker.simulateMutexTrylock_of_free {self : ExecutionTracker} {t : ThrID}
    {lock : Addr} (h : self.mutexes lock = .free) :
    self.simulateMutexTrylock t lock = self.simulateMutexLock t lock := by
  have hacquired : (self.threadHasAcquiredLock t lock).mutexes lock = .free := h
  simp only [simulateMutexTrylock, simulateMutexLock, mutexTrylock, h, hacquired]
  rfl

theorem Shadow.weaken {P H : ThrID → Prop} {D : Prop} {s x : ExecutionTracker}
    (h : Shadow P H True s x) : Shadow P H D s x :=
  ⟨h.same, h.free, h.bare, h.shown, h.hidden, fun _ => h.down trivial⟩

namespace System

variable {σ : Type} {s : System σ} {t : ThrID} {c : Control} {str : ExecutionTracker} {seff : Effect}

-- Where no mutex has been unlocked without the threads that wait for it having been told.
theorem Tracked.maps (h : Tracked s) (hserial : Serial s c) (hne : ∀ u, u ≠ t → c ≠ .running u)
    (hlate : (s.pcs t).late = none) : LockMaps s.tracker none := by
  obtain ⟨late, hmaps, hiff⟩ := h.locks
  have hnone : late = none := by
    apply Option.ext
    intro m
    rw [hiff m]
    refine ⟨fun ⟨u, hu⟩ => ?_, nofun⟩
    by_cases hut : u = t
    · rw [hut, hlate] at hu
      cases hu
    · rw [hserial.late_of_others hne u hut] at hu
      cases hu
  rwa [hnone] at hmaps

-- At the end of a section that makes no thread and unlocks no mutex.
theorem Tracked.settled_section (h : Tracked s) (hserial : Serial s c)
    (hne : ∀ u, u ≠ t → c ≠ .running u) (hsection : (s.pcs t).isSection = true)
    (hrun : s.tracker.runSection t (s.pcs t) = .ok (str, seff))
    (hplain : ∀ child pc', seff ≠ .created child pc') (hunlocks : (s.pcs t).unlocks = none) :
    Settled (seff.stages t fun u => (s.pcs u).stage) str := by
  have hleads := ExecutionTracker.runSection_leads _ hsection hrun
  cases seff with
  | goto pc' => exact h.settled hserial hne hrun hleads (fun _ _ => nofun) rfl hunlocks
  | created child pc' => exact absurd rfl (hplain child pc')
  | signalChoice info =>
      exact h.settled hserial hne hrun (hleads 0) (fun _ _ => nofun) rfl hunlocks
  | signalled info u => exact h.settled hserial hne hrun hleads (fun _ _ => nofun) rfl hunlocks
  | schedule info r =>
      refine h.settled hserial hne hrun hleads (fun info' r' heq => ?_) rfl hunlocks
      cases heq
      rfl

end System

variable {ρ : Type}

-- The two runs when thread `t` has come to the end of a section and of the handler that it calls:
-- the section ends with `seff` and `eff`, and `p` is what the tester has then.
structure Halfway (isLockRace : Bool) (s x : System (RandomActiveTester ρ)) (c : Control)
    (t : ThrID) (str : ExecutionTracker) (seff eff : Effect) (p : Tested ρ) : Prop where
  serial : Serial s c
  turn : c = .running t ∨ ∃ u, c = .serving t u
  tracked : s.Tracked
  read : s.log.read_schedule = []
  lock : s.global_lock = x.global_lock
  barriers : s.barriers = x.barriers
  pcs : ∀ u, u ≠ t → s.pcs u = x.pcs u ∨ s.pcs u = (x.pcs u).locked
  alike : (s.pcs t).Alike (x.pcs t)
  at_section : (s.pcs t).isSection = true
  may : ∀ v ret_addr op, s.step v t ret_addr op = some (s.runThread v t (s.pcs t))
  run : s.tracker.runSection t (s.pcs t) = .ok (str, seff)
  ends : seff.Like eff ∧ (p.2.isPaused t = true → s.pcs t = x.pcs t) ∨
    s.pcs t ≠ x.pcs t ∧ ∃ info info' m, info.thread = info'.thread ∧
      seff = .schedule info' (.pause (.lock m)) ∧ eff = .schedule info (.pause (.trylock m))
  covers : Covers isLockRace (seff.stages t fun u => (s.pcs u).stage)
    (fun u => s.pcs u ≠ x.pcs u) str p
  posted : ∀ u n, s.tracker.sem_map u = some (n + 1) → p.2.isPaused u = false
  failed : p.2.failed = none

theorem Control.others_of_turn {c : Control} {t : ThrID}
    (h : c = .running t ∨ ∃ u, c = .serving t u) (u : ThrID) (hut : u ≠ t) : c ≠ .running u := by
  rcases h with rfl | ⟨y, rfl⟩
  · exact fun heq => hut (Control.running.inj heq).symm
  · nofun

namespace Sim

variable {isLockRace : Bool} {s x : System (RandomActiveTester ρ)} {c : Control} {t : ThrID}
  {xtr : ExecutionTracker} {eff : Effect}

theorem at_section (h : Sim isLockRace s x c) (hsection : (x.pcs t).isSection = true) :
    s.pcs t = x.pcs t ∨ ∃ m, s.pcs t = .resume (.lock m) ∧ x.pcs t = .resume (.trylock m) := by
  rcases h.pcs t with heq | heq
  · exact Or.inl heq
  · cases hpc : x.pcs t with
    | resume k =>
        rw [hpc] at heq
        cases k with
        | trylock m => exact Or.inr ⟨m, heq, rfl⟩
        | _ => exact Or.inl heq
    | launched r =>
        rw [hpc] at hsection
        cases hsection
    | leaving r =>
        rw [hpc] at hsection
        cases hsection
    | blocked r =>
        rw [hpc] at hsection
        cases hsection
    | _ =>
        rw [hpc] at heq
        exact Or.inl heq

theorem alike (h : Sim isLockRace s x c) (hsection : (x.pcs t).isSection = true) :
    (s.pcs t).Alike (x.pcs t) := by
  rcases h.at_section hsection with heq | ⟨m, hspc, hxpc⟩
  · rw [heq]
    exact .same _
  · rw [hspc, hxpc]
    exact .resumes m

-- The only sections of a postponed thread are those at the end of a wait.
theorem free_of_section (h : Sim isLockRace s x c) (hsection : (x.pcs t).isSection = true)
    (hrelocked : (x.pcs t).relocked = false) : x.scheduler.isPaused t = false := by
  by_contra hpaused
  obtain ⟨k, hk, _⟩ := h.stage_of_paused (by simpa using hpaused)
  refine Pc.stage_of_section ?_ ?_ k hk
  · rw [(h.alike hsection).isSection]
    exact hsection
  · rw [(h.alike hsection).relocked]
    exact hrelocked

-- A section does the same in the two runs. Where the random lock tester is told of a release,
-- postponed threads may have become enabled.
theorem section_spec (h : Sim isLockRace s x c) (hne : ∀ u, u ≠ t → c ≠ .running u)
    (hsection : (x.pcs t).isSection = true)
    (hrun : x.tracker.runSection t (x.pcs t) = .ok (xtr, eff)) :
    ∃ str seff, s.tracker.runSection t (s.pcs t) = .ok (str, seff) ∧ seff.Like eff ∧
      Shadow (fun u => x.scheduler.isPaused u = true) (fun u => s.pcs u ≠ x.pcs u)
        (isLockRace = true → (x.pcs t).tells = none) str xtr := by
  have hshadow := h.covers.shadow
  rcases h.at_section hsection with heq | ⟨m, hspc, hxpc⟩
  · have hboth := hshadow.weaken (D := isLockRace = true → (x.pcs t).tells = none) |>.runSection
      (t := t) (x.pcs t) ?_ ?_ ?_ ?_
    · rw [hrun] at hboth
      obtain ⟨⟨str, seff⟩, hrun', hends, hlike⟩ := hboth.of_ok
      rw [heq]
      exact ⟨str, seff, hrun', hlike, hends⟩
    · by_cases hrelocked : (x.pcs t).relocked = true
      · exact Or.inl hrelocked
      · right
        rw [h.free_of_section hsection (by simpa using hrelocked)]
        nofun
    · -- a thread that joins is not postponed
      intro u hjoin hpaused
      have hfinished : s.tracker.finish_map t = false := by
        rw [h.serial.consistent.finished_eq, decide_eq_false_iff_not, heq]
        cases hpc : x.pcs t with
        | launched r =>
            rw [hpc] at hsection
            cases hsection
        | leaving r =>
            rw [hpc] at hsection
            cases hsection
        | blocked r =>
            rw [hpc] at hsection
            cases hsection
        | _ => nofun
      have hpending := (h.serial.consistent.joins t u hfinished).mp hjoin
      obtain ⟨k, hk, _, hjoins⟩ := h.stage_of_paused hpaused
      have hpending : (s.pcs u).stage = .pending (.join t) := hpending
      rw [hpending] at hk
      cases hk
      exact hjoins t rfl
    · intro ret_addr child ret_val hpc hpaused
      have hunborn := (h.serial.controlled.child t ret_addr child ret_val (heq.trans hpc)).1
      obtain ⟨k, hk, _⟩ := h.stage_of_paused hpaused
      rw [hunborn] at hk
      cases hk
    · intro lock htells hnot u hpaused hwait
      obtain ⟨_, hpostponed⟩ := h.covers.known u hpaused
      have hdata : isLockRace = false := by
        by_contra htrue
        rw [hnot (by simpa using htrue)] at htells
        cases htells
      subst hdata
      have hst : (s.pcs u).stage = .pending (.simple OPERATION_SUCCESSFUL) := hpostponed
      have hfits := h.serial.consistent.fits u
      rw [hst] at hfits
      have hentries : s.tracker.entries u = { enabled := true } := hfits
      obtain ⟨lockReady, lockWait, hx, _, hnone⟩ := hshadow.entries_of_paused hpaused
      have hx : x.tracker.entries u = { enabled := false, lockReady, lockWait } := hx
      rw [hentries] at hnone
      rw [hx] at hwait
      obtain rfl : lockWait = none := hnone.elim id id
      cases hwait
  · -- the trylock finds the mutex that its thread has been waiting for
    have hst : (s.pcs t).stage = .resumed (.lock m) := by rw [hspc]; rfl
    have hready := h.serial.consistent.ready_of_resumed hst (Or.inl rfl)
    have hmaps := h.tracked.maps h.serial hne (by rw [hspc]; rfl)
    have hfree : s.tracker.mutexes m = .free := by
      cases hmutex : s.tracker.mutexes m with
      | free => rfl
      | held o => exact absurd hmutex (hmaps.ready t m hready o)
      | destroyed => exact absurd hmutex (h.tracked.alive t m (by rw [hst]; rfl))
    have hunpaused : ¬(x.scheduler.isPaused t = true) := by
      rw [h.free_of_section hsection (by rw [hxpc]; rfl)]
      nofun
    obtain ⟨hresult, hnext⟩ := hshadow.simulateMutexTrylock hunpaused m
    rw [simulateMutexTrylock_of_free hfree] at hresult hnext
    rw [hxpc] at hrun
    have hxtr : xtr = (x.tracker.simulateMutexTrylock t m).2 ∧
        eff = .goto (.program (x.tracker.simulateMutexTrylock t m).1) := by
      cases hrun
      exact ⟨rfl, rfl⟩
    obtain ⟨rfl, rfl⟩ := hxtr
    rw [hspc]
    exact ⟨(s.tracker.simulateMutexLock t m).2,
      .goto (.program (s.tracker.simulateMutexLock t m).1), rfl,
      congrArg (fun ret_val => Effect.goto (.program ret_val)) hresult, hnext.weaken⟩

-- What is postponed stays at the same place.
theorem known_after (h : Sim isLockRace s x c) (hsection : (s.pcs t).isSection = true)
    {str : ExecutionTracker} {seff : Effect}
    (hrun : s.tracker.runSection t (s.pcs t) = .ok (str, seff)) (u : ThrID)
    (hu : x.scheduler.isPaused u = true) : (x.scheduler.infoOf u).me = some u ∧
      Postponed isLockRace (x.scheduler.infoOf u).addr
        (seff.stages t (fun u => (s.pcs u).stage) u) := by
  obtain ⟨hme, hpostponed⟩ := h.covers.known u hu
  refine ⟨hme, ?_⟩
  have hpostponed : Postponed isLockRace (x.scheduler.infoOf u).addr (s.pcs u).stage := hpostponed
  obtain ⟨k, hk, hstart, _⟩ := h.stage_of_paused hu
  have hleads := ExecutionTracker.runSection_leads _ hsection hrun
  by_cases hut : u = t
  · -- the end of a wait
    subst hut
    have hmoves (k' : Pending) (hmutex : k'.mutex = k.mutex) (hnot : ∀ m, k' ≠ .trylock m)
        (hsimple : k ≠ .simple OPERATION_SUCCESSFUL) :
        Postponed isLockRace (x.scheduler.infoOf u).addr (.pending k') := by
      cases isLockRace with
      | false =>
          have hst : (s.pcs u).stage = .pending (.simple OPERATION_SUCCESSFUL) := hpostponed
          rw [hk] at hst
          cases hst
          exact absurd rfl hsimple
      | true =>
          obtain ⟨k₀, hst, hmutex₀, _⟩ : ∃ k : Pending, (s.pcs u).stage = .pending k ∧
            k.mutex = some (x.scheduler.infoOf u).addr ∧ ∀ m, k ≠ .trylock m := hpostponed
          rw [hk] at hst
          cases hst
          exact ⟨k', rfl, hmutex.trans hmutex₀, hnot⟩
    by_cases hrelocked : (s.pcs u).relocked = true
    · cases hpc : s.pcs u with
      | signalReady w =>
          rw [hpc] at hk hrun
          cases hk
          cases hrun
          rw [Effect.stages, Function.update_self]
          split
          · exact hmoves _ rfl (fun _ => by rintro ⟨⟩) (by rintro ⟨⟩)
          · exact hmoves _ rfl (fun _ => by rintro ⟨⟩) (by rintro ⟨⟩)
      | checkTimeout w =>
          rw [hpc] at hk hrun
          cases hk
          simp only [ExecutionTracker.runSection, ExecutionTracker.checkTimeout] at hrun
          split at hrun
          · cases hrun
            rw [Effect.stages, Function.update_self]
            exact hmoves _ rfl (fun _ => by rintro ⟨⟩) (by rintro ⟨⟩)
          · cases hrun
            rw [Effect.stages, Function.update_self]
            exact hmoves _ rfl (fun _ => by rintro ⟨⟩) (by rintro ⟨⟩)
      | _ =>
          rw [hpc] at hrelocked
          cases hrelocked
    · exact absurd hk (Pc.stage_of_section hsection (by simpa using hrelocked) k)
  · cases seff with
    | created child pc' =>
        obtain ⟨ret_addr, ret_val, hat, _⟩ := ExecutionTracker.runSection_follows _ hrun
        have hunborn := (h.serial.controlled.child t ret_addr child ret_val hat).1
        have huc : u ≠ child := by
          rintro rfl
          rw [hunborn] at hk
          cases hk
        rwa [Effect.stages, Function.update_of_ne hut, Function.update_of_ne huc]
    | _ => rwa [Effect.stages, Function.update_of_ne hut]

theorem ready (h : Sim isLockRace s x c) (hsection : (x.pcs t).isSection = true)
    (hready : x.ready (x.pcs t) = true) : s.ready (s.pcs t) = true := by
  rcases h.at_section hsection with heq | ⟨m, hspc, _⟩
  · have hsame : s.tracker.shade x.tracker = x.tracker := h.covers.shadow.same
    rw [heq]
    cases hpc : x.pcs t with
    | originalLock lock =>
        rw [hpc, System.ready, ← hsame] at hready
        exact hready
    | waitReady info u =>
        rw [hpc, System.ready, ← hsame] at hready
        exact hready
    | resume k =>
        cases k with
        | join target =>
            rw [hpc] at hready
            cases htarget : x.pcs target with
            | blocked r =>
                cases r with
                | exit =>
                    have hexit := h.pcs_eq htarget rfl
                    simp only [System.ready, hexit]
                | _ =>
                    simp only [System.ready, htarget] at hready
                    cases hready
            | _ =>
                simp only [System.ready, htarget] at hready
                cases hready
        | _ => rfl
    | _ => rfl
  · rw [hspc]
    rfl

-- A thread at a section has taken its post.
theorem not_posted (h : Sim isLockRace s x c) (hturn : c = .running t ∨ ∃ u, c = .serving t u)
    (hsection : (s.pcs t).isSection = true) (n : Nat) : s.tracker.sem_map t ≠ some (n + 1) := by
  have hborn : s.pcs t ≠ .unborn := by
    intro hunborn
    rw [hunborn] at hsection
    cases hsection
  rw [h.serial.controlled.sem t hborn]
  rcases hturn with rfl | ⟨u, rfl⟩
  · nofun
  · nofun

-- Where the base class is at the same section.
theorem halfway (h : Sim isLockRace s x c) (hturn : c = .running t ∨ ∃ u, c = .serving t u)
    (hsection : (x.pcs t).isSection = true)
    (hlock : (x.pcs t).unlocked = true ∨ x.global_lock = none)
    (hready : x.ready (x.pcs t) = true) {str : ExecutionTracker} {seff : Effect}
    (hrun : s.tracker.runSection t (s.pcs t) = .ok (str, seff)) (hlike : seff.Like eff)
    {p : Tested ρ} (hpaused : p.2.isPaused t = true → s.pcs t = x.pcs t)
    (hcovers : Covers isLockRace (seff.stages t fun u => (s.pcs u).stage)
      (fun u => s.pcs u ≠ x.pcs u) str p)
    (hknown : ∀ u, p.2.isPaused u = true → x.scheduler.isPaused u = true ∨ u = t)
    (hfailed : p.2.failed = x.scheduler.failed) :
    Halfway isLockRace s x c t str seff eff p := by
  have halike := h.alike hsection
  have hsection' : (s.pcs t).isSection = true := by
    rw [halike.isSection]
    exact hsection
  refine ⟨h.serial, hturn, h.tracked, h.read, h.lock, h.barriers, fun u _ => h.pcs u, halike,
    hsection', fun v ret_addr op => ?_, hrun, Or.inl ⟨hlike, hpaused⟩, hcovers, fun u n hu => ?_,
    hfailed.trans h.failed⟩
  · refine System.step_iff.mpr ⟨h.serial.running, .runs hsection' ?_ (h.ready hsection hready)⟩
    rw [halike.unlocked, h.lock]
    exact hlock
  · by_contra hnot
    rcases hknown u (by simpa using hnot) with hold | rfl
    · rw [h.posted u n hu] at hold
      cases hold
    · exact h.not_posted hturn hsection' n hu

-- A thread is at a section only before it has finished.
theorem unfinished (h : Sim isLockRace s x c) (hsection : (x.pcs t).isSection = true) :
    s.tracker.finish_map t = false := by
  rw [h.serial.consistent.finished_eq, decide_eq_false_iff_not]
  rcases h.at_section hsection with heq | ⟨m, hspc, _⟩
  · rw [heq]
    cases hpc : x.pcs t with
    | launched r =>
        rw [hpc] at hsection
        cases hsection
    | leaving r =>
        rw [hpc] at hsection
        cases hsection
    | blocked r =>
        rw [hpc] at hsection
        cases hsection
    | _ => nofun
  · rw [hspc]
    nofun

theorem unfinished_tester (h : Sim isLockRace s x c) (hsection : (x.pcs t).isSection = true) :
    x.tracker.threadIsFinished t = false := by
  have hsame : s.tracker.shade x.tracker = x.tracker := h.covers.shadow.same
  rw [← hsame]
  exact h.unfinished hsection

-- A trylock is postponed. The base class takes it for a lock from now on.
theorem handled_trylock {access : Active (Tested ρ)} {addr ret_addr : Addr} {iswrite : Bool}
    (h : Sim true s x c) (hturn : c = .running t ∨ ∃ u, c = .serving t u)
    (hpc : x.pcs t = .enter ret_addr (.mutexTrylock addr))
    (hlock : (x.pcs t).unlocked = true ∨ x.global_lock = none)
    (hrun : x.tracker.runSection t (x.pcs t) = .ok (xtr, eff))
    (haccess : access = .ok (xtr.disableThread t,
      (x.scheduler.setPaused t true).setInfo t { me := some t, addr, iswrite })) :
    ∃ s' str seff p, access = .ok p ∧ Halfway true s' x c t str seff eff p := by
  have hsection : (x.pcs t).isSection = true := by
    rw [hpc]
    rfl
  have hspc := h.pcs_eq hpc rfl
  have hfree := h.free_of_section hsection (by rw [hpc]; rfl)
  rw [hpc] at hrun hlock
  cases hrun
  have hglobal : s.global_lock = none := h.lock.trans (hlock.resolve_left (by rintro ⟨⟩))
  have hself : (s.goto t (.enter ret_addr (.mutexLock addr))).pcs t =
      .enter ret_addr (.mutexLock addr) := Function.update_self _ _ _
  have hothers (u : ThrID) (hut : u ≠ t) :
      (s.goto t (.enter ret_addr (.mutexLock addr))).pcs u = s.pcs u :=
    Function.update_of_ne hut _ _
  have hactive : s.tracker.entries t = { enabled := true } := by
    have hfits := h.serial.consistent.fits t
    rw [hspc] at hfits
    exact hfits
  obtain ⟨info, hrun, hthread⟩ : ∃ info : SchedPointInfo,
      s.tracker.runSection t (.enter ret_addr (.mutexLock addr)) =
        .ok (s.tracker.determineLockStatus t addr, .schedule info (.pause (.lock addr))) ∧
      info.thread = t := by
    have hunfinished : s.tracker.threadIsFinished t = false := h.unfinished hsection
    refine ⟨{
      ret_addr
      type := "Before Mutex Lock"
      thread := t
      enabled := (s.tracker.determineLockStatus t addr).enable_map
      isYield := false }, ?_, rfl⟩
    show s.tracker.beforeMutexLock t ret_addr addr = _
    rw [beforeMutexLock, if_neg (by rw [hunfinished]; rintro ⟨⟩)]
    rfl
  have hdiffer (u : ThrID) (hut : u ≠ t) :
      (s.goto t (.enter ret_addr (.mutexLock addr))).pcs u ≠ x.pcs u ↔ s.pcs u ≠ x.pcs u := by
    rw [hothers u hut]
  have hcovers := h.covers.relock hfree hactive hdiffer (by rw [hself, hpc]; rintro ⟨⟩)
    { me := some t, addr, iswrite } rfl
  refine ⟨s.goto t (.enter ret_addr (.mutexLock addr)), s.tracker.determineLockStatus t addr,
    .schedule info (.pause (.lock addr)), _, haccess,
    ⟨h.serial.kin hspc (.trylock ret_addr addr), hturn, h.tracked.kin hspc (.trylock ret_addr addr),
      h.read, h.lock, h.barriers, fun u hut => ?_, ?_, ?_, fun v addr' op => ?_, ?_,
      Or.inr ⟨?_, _, info, addr, hthread.symm, rfl, rfl⟩, ?_, fun u n hu => ?_, h.failed⟩⟩
  · rw [hothers u hut]
    exact h.pcs u
  · rw [hself, hpc]
    exact .enters ret_addr addr
  · rw [hself]
    rfl
  · refine System.step_iff.mpr ⟨h.serial.running, .runs ?_ (Or.inr hglobal) ?_⟩
    · rw [hself]
      rfl
    · rw [hself]
      rfl
  · rw [hself]
    exact hrun
  · rw [hself, hpc]
    rintro ⟨⟩
  · have hstages : (Effect.schedule info (.pause (.lock addr))).stages t (fun u =>
        ((s.goto t (.enter ret_addr (.mutexLock addr))).pcs u).stage) =
        Function.update (fun u => (s.pcs u).stage) t (.pending (.lock addr)) := by
      rw [Effect.stages, System.goto, Pc.stage_update, Function.update_idem]
      rfl
    rw [hstages]
    exact hcovers
  · by_contra hnot
    rcases (RandomActiveTester.postponed_self _ u).mp (by simpa using hnot) with hold | rfl
    · have hunpaused := h.posted u n hu
      rw [hunpaused] at hold
      cases hold
    · exact h.not_posted hturn (by rw [hspc]; rfl) n hu

-- A section that a tester watches: the caller is free, and is at the same place in the two runs.
theorem watching (h : Sim isLockRace s x c) (hturn : c = .running t ∨ ∃ u, c = .serving t u)
    (hsection : (x.pcs t).isSection = true)
    (hrun : x.tracker.runSection t (x.pcs t) = .ok (xtr, eff)) {ret_addr addr : Addr}
    {iswrite : Bool}
    (hwatched : x.scheduler.watched isLockRace t (x.pcs t) = some (ret_addr, addr, iswrite)) :
    x.scheduler.isPaused t = false ∧ s.pcs t = x.pcs t ∧ ∃ str seff,
      s.tracker.runSection t (s.pcs t) = .ok (str, seff) ∧ seff.Like eff ∧
      Settled (seff.stages t fun u => (s.pcs u).stage) str ∧
      Covers isLockRace (seff.stages t fun u => (s.pcs u).stage) (fun u => s.pcs u ≠ x.pcs u) str
        (xtr, x.scheduler) := by
  have hne := Control.others_of_turn hturn
  have hsection' : (s.pcs t).isSection = true := by
    rw [(h.alike hsection).isSection]
    exact hsection
  obtain ⟨str, seff, hrun', hlike, hshadow⟩ := h.section_spec hne hsection hrun
  obtain ⟨⟨hrelocked, htells, hunlocks⟩, hplain, _⟩ := RandomActiveTester.watched_spec
    (fun u => (s.pcs u).stage) hwatched (h.unfinished_tester hsection) hrun
  have heq : s.pcs t = x.pcs t := by
    rcases h.at_section hsection with heq | ⟨m, _, hxpc⟩
    · exact heq
    · rw [hxpc] at hwatched
      cases hwatched
  have hplain' (child : ThrID) (pc' : Pc) : seff ≠ .created child pc' := by
    rintro rfl
    cases eff with
    | created child' pc'' => exact hplain _ _ rfl
    | schedule info r => cases hlike
    | _ => cases hlike
  have hsettled := h.tracked.settled_section h.serial hne hsection' hrun' hplain'
    (by rw [heq]; exact hunlocks)
  exact ⟨h.free_of_section hsection hrelocked, heq, str, seff, hrun', hlike, hsettled,
    ⟨hshadow.same, hshadow.free, hshadow.bare, hshadow.shown, hshadow.hidden,
      fun _ => hshadow.down fun _ => htells⟩, h.known_after hsection' hrun'⟩

-- The handlers do not fail, and after them what is postponed is disabled.
theorem handled (h : Sim isLockRace s x c) (hturn : c = .running t ∨ ∃ u, c = .serving t u)
    (hsection : (x.pcs t).isSection = true)
    (hlock : (x.pcs t).unlocked = true ∨ x.global_lock = none)
    (hready : x.ready (x.pcs t) = true)
    (hrun : x.tracker.runSection t (x.pcs t) = .ok (xtr, eff)) :
    ∃ s' str seff p, x.scheduler.handle (RandactHandler.getNewExecutionTracker isLockRace) xtr t
      (x.pcs t) = .ok p ∧ Halfway isLockRace s' x c t str seff eff p := by
  have hsection' : (s.pcs t).isSection = true := by
    rw [(h.alike hsection).isSection]
    exact hsection
  rw [RandomActiveTester.handle_eq xtr (x.pcs t) fun hchecked => by
    rw [ExecutionTracker.threadIsFinished, finish_map_runSection hchecked hrun]
    exact h.unfinished_tester hsection]
  cases hwatched : x.scheduler.watched isLockRace t (x.pcs t) with
  | none =>
      obtain ⟨str, seff, hrun', hlike, hshadow⟩ :=
        h.section_spec (Control.others_of_turn hturn) hsection hrun
      have hknown := h.known_after hsection' hrun'
      by_cases htell : isLockRace = true ∧ (x.pcs t).tells.isSome = true
      · -- a release
        obtain ⟨xtr', hhandled, hdown⟩ := RandomLockTester.handleAfterMutexUnlock_spec hshadow
        refine ⟨s, str, seff, (xtr', x.scheduler), ?_, h.halfway hturn hsection hlock hready hrun'
          hlike (fun hpaused => ?_) ⟨hdown, hknown⟩ (fun _ => Or.inl) rfl⟩
        · simp only [if_pos htell]
          exact hhandled
        · rcases h.at_section hsection with heq | ⟨m, _, hxpc⟩
          · exact heq
          · rw [hxpc] at htell
            cases htell.2
      · refine ⟨s, str, seff, (xtr, x.scheduler), ?_, h.halfway hturn hsection hlock hready hrun'
          hlike (fun hpaused => ?_) ⟨?_, hknown⟩ (fun _ => Or.inl) rfl⟩
        · simp only [if_neg htell]
        · rcases h.at_section hsection with heq | ⟨m, _, hxpc⟩
          · exact heq
          · have hfree := h.free_of_section hsection (by rw [hxpc]; rfl)
            rw [hfree] at hpaused
            cases hpaused
        · refine ⟨hshadow.same, hshadow.free, hshadow.bare, hshadow.shown, hshadow.hidden,
            fun _ => hshadow.down fun htrue => ?_⟩
          by_contra hsome
          exact htell ⟨htrue, by simpa [Option.isSome_iff_ne_none] using hsome⟩
  | some access =>
      obtain ⟨ret_addr, addr, iswrite⟩ := access
      dsimp only
      obtain ⟨hfree, heq, str, seff, hrun', hlike, hsettled, hcovers⟩ :=
        h.watching hturn hsection hrun hwatched
      rcases RandomActiveTester.handleAccess_spec (reenables hsettled) hcovers hfree ret_addr addr
        iswrite with ⟨xtr', te, _, hhandled, hcovers', hlater, _⟩ | hhandled
      · exact ⟨s, str, seff, (xtr', te), hhandled, h.halfway hturn hsection hlock hready hrun'
          hlike (fun _ => heq) hcovers' (fun u hu => Or.inl (hlater.paused u hu)) hlater.failed⟩
      · obtain ⟨_, _, htrylock | hpostponed⟩ := RandomActiveTester.watched_spec
          (fun u => (s.pcs u).stage) hwatched (h.unfinished hsection) (heq ▸ hrun')
        · obtain ⟨rfl, ret_addr', hpc⟩ := htrylock
          exact h.handled_trylock hturn hpc hlock hrun hhandled
        · refine ⟨s, str, seff, _, hhandled, h.halfway hturn hsection hlock hready hrun' hlike
            (fun _ => heq) (hcovers.postpone hsettled hfree (fun hdiffer => hdiffer heq) _ rfl
              hpostponed) (fun u hu => ?_) rfl⟩
          exact (RandomActiveTester.postponed_self _ u).mp hu

-- A race is found where the caller and somebody who is postponed come to the same address.
theorem handled_found (h : Sim isLockRace s x c) (hturn : c = .running t ∨ ∃ u, c = .serving t u)
    (hsection : (x.pcs t).isSection = true)
    (hrun : x.tracker.runSection t (x.pcs t) = .ok (xtr, eff)) {p : Tested ρ}
    (hhandled : x.scheduler.handle (RandactHandler.getNewExecutionTracker isLockRace) xtr t
      (x.pcs t) = .ok p) (hno : x.scheduler.raceFound = false) (hfound : p.2.raceFound = true) :
    ∃ ret_addr addr iswrite u,
      x.scheduler.watched isLockRace t (x.pcs t) = some (ret_addr, addr, iswrite) ∧
      (ret_addr = x.scheduler.target1 ∨ ret_addr = x.scheduler.target2) ∧ u ≠ t ∧
      x.scheduler.isPaused u = true ∧ (x.scheduler.infoOf u).addr = addr := by
  rw [RandomActiveTester.handle_eq xtr (x.pcs t) fun hchecked => by
    rw [ExecutionTracker.threadIsFinished, finish_map_runSection hchecked hrun]
    exact h.unfinished_tester hsection] at hhandled
  cases hwatched : x.scheduler.watched isLockRace t (x.pcs t) with
  | none =>
      have hsame : p.2 = x.scheduler := by
        rw [hwatched] at hhandled
        dsimp only at hhandled
        split at hhandled
        · cases hhandled
          rfl
        · cases hhandled
          rfl
      rw [hsame, hno] at hfound
      cases hfound
  | some access =>
      obtain ⟨ret_addr, addr, iswrite⟩ := access
      rw [hwatched] at hhandled
      dsimp only at hhandled
      obtain ⟨hfree, _, str, seff, _, _, hsettled, hcovers⟩ :=
        h.watching hturn hsection hrun hwatched
      rcases RandomActiveTester.handleAccess_spec (reenables hsettled) hcovers hfree ret_addr addr
        iswrite with ⟨xtr', te, found, hresult, _, hlater, hrace⟩ | hresult
      · rw [hresult] at hhandled
        cases hhandled
        rcases hrace with hsame | ⟨htarget, u, hu, haddr⟩
        · have hkept : te.raceFound = found := hlater.found
          rw [hkept, hsame, hno] at hfound
          cases hfound
        · refine ⟨ret_addr, addr, iswrite, u, rfl, htarget, ?_, hu, haddr⟩
          rintro rfl
          rw [hfree] at hu
          cases hu
      · rw [hresult] at hhandled
        cases hhandled
        have hkept : x.scheduler.raceFound = true := hfound
        rw [hno] at hkept
        cases hkept

end Sim

end Thrille
