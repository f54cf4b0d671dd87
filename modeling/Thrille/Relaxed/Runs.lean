import Mathlib.Data.List.Forall2
import Thrille.Lib.OrderedMap
import Thrille.Relaxed.Tracker
import Thrille.Relaxed.Encoding

namespace Thrille

-- A schedule point of a run, and whether a signal comes before it.
structure RelaxedEvent where
  signals : Bool
  info : SchedPointInfo

-- What a tracker answers at every point: the thread to signal, if any, and the chosen thread.
def RelaxedTracker.replay {σ : Type} (v : RelaxedVirtual σ) (turns : Nat) :
    RelaxedTracker σ → List RelaxedEvent → Option (List (Option Int × Int))
  | _, [] => some []
  | self, e :: rest => do
      let (signalled, self) :=
        if e.signals then (some self.getNextSignalChoice.1, self.getNextSignalChoice.2)
        else (none, self)
      let (chosen, self) ← schedule v turns self e.info
      let choices ← replay v turns self rest
      return (signalled, chosen) :: choices

-- The event of a point of the schedule.
structure LogPoint.IsEvent (p : LogPoint) (e : RelaxedEvent) : Prop where
  signals : e.signals = p.signal.isSome
  thread : e.info.thread = p.caller
  ret_addr : e.info.ret_addr = p.idaddr
  enabled : ∀ thr, e.info.enabled.getD thr false = true ↔ thr ∈ p.enabled

def LogPoint.outcome (p : LogPoint) : Option Int × Int :=
  (p.signal.map fun entry => Int.ofNat entry.signalled, p.chosen)

-- What the points of a schedule have to satisfy on their own.
structure LogPoint.Replayable (p : LogPoint) : Prop where
  chosen : p.chosen ∈ p.enabled
  idaddr : p.idaddr ≠ 0

-- What the two trackers have in common where a schedule is followed.
structure RelaxedVirtual.Follows {σ : Type} (v : RelaxedVirtual σ) : Prop where
  address : v.checkAddressOfContextSwitch = RelaxedTracker.checkAddressOfContextSwitch
  times : ∀ handler : RelaxedTracker σ, 0 ≤ handler.timesScheduled →
    handler.timesScheduled < handler.timesToSchedule → v.checkTimesScheduled handler = false
  adherence : ∀ handler : RelaxedTracker σ, handler.timesScheduled < handler.timesToSchedule →
    v.scheduleAdherenceCheck handler = true

namespace RelaxedTracker

variable {σ : Type}

-- The tracker is in the block `b`, whose thread was scheduled `times` times at the addresses
-- `passed` and has signalled `sig`; the blocks behind it are not read yet.
structure Runs (handler : RelaxedTracker σ) (current : ThrID) (times : Nat) (passed : List Addr)
    (sig : List ThrID) (b : Block) (blocks : List Block) : Prop where
  current : handler.currentThreadToSchedule = current
  scheduled : handler.timesScheduled = times
  times : handler.timesToSchedule = b.times
  addr : handler.addrPreempt = b.addr.getD 0
  pass : handler.passPreempt = b.skip - ((b.addr.map passed.count).getD 0 : Nat)
  signals : sig.map Int.ofNat ++ handler.threadsToSignal = b.sig.map Int.ofNat
  rest : handler.relaxed_schedule = blocks.map Block.struct

variable {self : RelaxedTracker σ} {current : ThrID} {times : Nat} {passed : List Addr}
  {sig : List ThrID} {b : Block} {blocks : List Block}

-- The block that comes next is loaded.
theorem runs_regenerate (hrest : self.relaxed_schedule = (b :: blocks).map Block.struct) :
    Runs self.regenerateRelaxedSchedule b.sched 0 [] [] b blocks := by
  rw [regenerateRelaxedSchedule, hrest]
  refine ⟨rfl, rfl, rfl, rfl, ?_, rfl, rfl⟩
  cases b.addr <;> simp [Block.struct]

-- The next thread to signal is the one that the block lists next.
theorem Runs.getNextSignalChoice (hruns : Runs self current times passed sig b blocks)
    (signalled : ThrID) (hsig : sig ++ [signalled] <+: b.sig) :
    self.getNextSignalChoice.1 = Int.ofNat signalled ∧
      Runs self.getNextSignalChoice.2 current times passed (sig ++ [signalled]) b blocks := by
  obtain ⟨more, hmore⟩ := hsig
  have hthreads : self.threadsToSignal = Int.ofNat signalled :: more.map Int.ofNat := by
    have hsignals := hruns.signals
    rw [← hmore, List.append_assoc, List.map_append] at hsignals
    exact List.append_cancel_left hsignals
  have hchoice : self.getNextSignalChoice =
      (Int.ofNat signalled, { self with threadsToSignal := more.map Int.ofNat }) := by
    rw [RelaxedTracker.getNextSignalChoice, hthreads]
  rw [hchoice]
  refine ⟨rfl, hruns.current, hruns.scheduled, hruns.times, hruns.addr, hruns.pass, ?_, hruns.rest⟩
  rw [← hmore]
  simp

theorem deadlockCheck_of_enabled (s : SchedPointInfo) (thread : ThrID)
    (henabled : s.enabled.getD thread false = true) : deadlockCheck s = true := by
  have hmem : thread ∈ s.enabled := by
    apply OrderedMap.mem_of_getD_ne _ _ false
    rw [henabled]
    decide
  have hentry := OrderedMap.getD_mem_toList _ _ false hmem
  rw [henabled] at hentry
  exact List.any_eq_true.mpr ⟨_, hentry, rfl⟩

theorem isEnabled_chosen (p : LogPoint) (e : RelaxedEvent) (hevent : p.IsEvent e)
    (hchosen : p.chosen ∈ p.enabled) :
    isEnabled e.info.enabled p.chosen = true ∧ deadlockCheck e.info = true := by
  have hget : e.info.enabled.getD p.chosen false = true := (hevent.enabled p.chosen).mpr hchosen
  exact ⟨by simp [isEnabled, hget], deadlockCheck_of_enabled e.info p.chosen hget⟩

-- The end of a step, where no block has to be loaded or one has been.
theorem schedule_eq (v : RelaxedVirtual σ) (turns : Nat) (s : SchedPointInfo)
    (start : RelaxedTracker σ)
    (hstart : (if self.currentThreadToSchedule = UNKNOWN_THREAD then self.regenerateRelaxedSchedule
      else self) = start) (next : RelaxedTracker σ)
    (hnext : (if (mustRegenerateSchedule v start s).1 then
        regenerateLoop v s turns (mustRegenerateSchedule v start s).2
      else some (mustRegenerateSchedule v start s).2) = some next)
    (hdeadlock : deadlockCheck s = true) (hadherence : v.scheduleAdherenceCheck next = true)
    (henabled : isEnabled s.enabled next.currentThreadToSchedule = true) :
    schedule v turns self s =
      some (next.currentThreadToSchedule,
        { next with timesScheduled := next.timesScheduled + 1 }) := by
  rw [schedule, hstart]
  dsimp only
  split at hnext
  · rename_i hregenerate
    rw [if_pos hregenerate, hnext]
    simp [hdeadlock, hadherence, henabled]
  · rename_i hregenerate
    rw [if_neg hregenerate, hnext]
    simp [hdeadlock, hadherence, henabled]

-- The passes that are left when the thread reaches an address.
def passesLeft (b : Block) (passed : List Addr) : Int :=
  b.skip - ((b.addr.map passed.count).getD 0 : Nat)

theorem Runs.checkAddress (hruns : Runs self current times passed sig b blocks) (ret_addr : Addr)
    (hne : ret_addr ≠ 0) :
    self.checkAddressOfContextSwitch ret_addr =
      (decide (passesLeft b (ret_addr :: passed) < 0),
        { self with passPreempt := passesLeft b (ret_addr :: passed) }) := by
  have hpass := hruns.pass
  have haddr := hruns.addr
  -- what is left without the point
  have hkeep : ret_addr ≠ self.addrPreempt →
      passesLeft b (ret_addr :: passed) = self.passPreempt := by
    intro hmiss
    rw [hpass, passesLeft]
    cases hb : b.addr with
    | none => rfl
    | some addr =>
        rw [haddr, hb, Option.getD_some] at hmiss
        rw [Option.map_some, Option.map_some, Option.getD_some, Option.getD_some,
          List.count_cons_of_ne hmiss]
  have hpasses : ret_addr = self.addrPreempt →
      passesLeft b (ret_addr :: passed) = self.passPreempt - 1 := by
    intro hhit
    rw [hpass, passesLeft]
    cases hb : b.addr with
    | none =>
        rw [haddr, hb] at hhit
        exact absurd hhit hne
    | some addr =>
        rw [haddr, hb, Option.getD_some] at hhit
        rw [Option.map_some, Option.map_some, Option.getD_some, Option.getD_some, hhit,
          List.count_cons_self]
        omega
  rw [RelaxedTracker.checkAddressOfContextSwitch]
  by_cases hhit : ret_addr = self.addrPreempt
  · rw [if_pos hhit, hpasses hhit]
  · rw [if_neg hhit, hkeep hhit]

theorem ofNat_ne (n : Nat) (k : Int) (hk : k < 0) : Int.ofNat n ≠ k := by
  intro h
  have hnonneg : 0 ≤ Int.ofNat n := Int.natCast_nonneg n
  omega

theorem mustRegenerate_eq {v : RelaxedVirtual σ} (hv : v.Follows)
    (hruns : Runs self current times passed sig b blocks) (s : SchedPointInfo)
    (hne : s.ret_addr ≠ 0) :
    mustRegenerateSchedule v self s =
      (decide (passesLeft b (s.ret_addr :: passed) < 0) ||
          v.checkTimesScheduled
            { self with passPreempt := passesLeft b (s.ret_addr :: passed) } ||
        !isEnabled s.enabled current,
        { self with passPreempt := passesLeft b (s.ret_addr :: passed) }) := by
  rw [mustRegenerateSchedule, hv.address, hruns.checkAddress s.ret_addr hne]
  simp only [hruns.current]

-- The thread of the block runs on: it is not at its last pass of the address, it has times left
-- and it is enabled.
theorem Runs.stay {v : RelaxedVirtual σ} (hv : v.Follows) (turns : Nat) (p : LogPoint)
    (e : RelaxedEvent) (hevent : p.IsEvent e) (hp : p.Replayable) (hsame : p.chosen = p.caller)
    (hruns : Runs self p.caller times passed sig b blocks)
    (hopens : Opens (times + 1) (p.idaddr :: passed) sig b) :
    ∃ next, schedule v turns self e.info = some (Int.ofNat p.chosen, next) ∧
      Runs next p.chosen (times + 1) (p.idaddr :: passed) sig b blocks := by
  obtain ⟨henabled, hdeadlock⟩ := isEnabled_chosen p e hevent hp.chosen
  have hlt : times < b.times := hopens.times
  have hleft : ¬ passesLeft b (p.idaddr :: passed) < 0 := by
    rw [passesLeft]
    cases haddr : b.addr with
    | none => simp
    | some addr =>
        have hskip := hopens.skip addr (by rw [haddr]; rfl)
        rw [Option.map_some, Option.getD_some]
        omega
  have hregenerate := mustRegenerate_eq hv hruns e.info (by rw [hevent.ret_addr]; exact hp.idaddr)
  have htimes := hv.times { self with passPreempt := passesLeft b (p.idaddr :: passed) }
    (by simp [hruns.scheduled]) (by simpa [hruns.scheduled, hruns.times] using hlt)
  have hadherence := hv.adherence { self with passPreempt := passesLeft b (p.idaddr :: passed) }
    (by simpa [hruns.scheduled, hruns.times] using hlt)
  rw [hevent.ret_addr, htimes, ← hsame, henabled] at hregenerate
  have hcurrent : self.currentThreadToSchedule = Int.ofNat p.chosen := by
    rw [hruns.current, hsame]
    rfl
  have hknown : self.currentThreadToSchedule ≠ UNKNOWN_THREAD := by
    rw [hcurrent]
    exact ofNat_ne p.chosen UNKNOWN_THREAD (by decide)
  have hstep := schedule_eq v turns e.info self (if_neg hknown)
    { self with passPreempt := passesLeft b (p.idaddr :: passed) }
    (by simp [hregenerate, hleft]) hdeadlock hadherence (by rw [hcurrent]; exact henabled)
  refine ⟨_, hstep.trans (congrArg (fun chosen => some (chosen, _)) hcurrent), hcurrent, ?_,
    hruns.times, hruns.addr, rfl, hruns.signals, hruns.rest⟩
  rw [hruns.scheduled]
  rfl

-- The thread passes the address of the block for the last time: the next block is loaded.
theorem Runs.switch {v : RelaxedVirtual σ} (hv : v.Follows) (turns : Nat) (p : LogPoint)
    (e : RelaxedEvent) (hevent : p.IsEvent e) (hp : p.Replayable) (next : Block)
    (hruns : Runs self p.caller times passed sig b (next :: blocks))
    (haddr : b.addr = some p.idaddr) (hskip : b.skip = passed.count p.idaddr)
    (hopens : Opens 1 [] [] next) (hnext : next.sched = p.chosen) :
    ∃ tracker, schedule v (turns + 1) self e.info = some (Int.ofNat p.chosen, tracker) ∧
      Runs tracker p.chosen 1 [] [] next blocks := by
  obtain ⟨henabled, hdeadlock⟩ := isEnabled_chosen p e hevent hp.chosen
  have hleft : passesLeft b (p.idaddr :: passed) < 0 := by
    rw [passesLeft, haddr, Option.map_some, Option.getD_some, List.count_cons_self, hskip]
    omega
  have hregenerate := mustRegenerate_eq hv hruns e.info (by rw [hevent.ret_addr]; exact hp.idaddr)
  rw [hevent.ret_addr] at hregenerate
  have hloaded : Runs ({ self with passPreempt := passesLeft b (p.idaddr :: passed) } :
      RelaxedTracker σ).regenerateRelaxedSchedule next.sched 0 [] [] next blocks :=
    runs_regenerate hruns.rest
  generalize hload : ({ self with passPreempt := passesLeft b (p.idaddr :: passed) } :
      RelaxedTracker σ).regenerateRelaxedSchedule = loaded at hloaded
  rw [hnext] at hloaded
  have hcurrent : loaded.currentThreadToSchedule = Int.ofNat p.chosen := hloaded.current
  have hvalid : loaded.currentThreadToSchedule ≠ INVALID_THREAD := by
    rw [hcurrent]
    exact ofNat_ne p.chosen INVALID_THREAD (by decide)
  have hloop : regenerateLoop v e.info (turns + 1)
      { self with passPreempt := passesLeft b (p.idaddr :: passed) } = some loaded := by
    rw [regenerateLoop, hload]
    simp only [hdeadlock, guard_true, Option.bind_eq_bind, Option.pure_def, Option.bind_some]
    have hreturn : isEnabled e.info.enabled loaded.currentThreadToSchedule = true := by
      rw [hcurrent]
      exact henabled
    rw [if_neg hvalid, if_pos hreturn]
  have hknown : self.currentThreadToSchedule ≠ UNKNOWN_THREAD := by
    rw [hruns.current]
    exact ofNat_ne p.caller UNKNOWN_THREAD (by decide)
  have hadherence := hv.adherence loaded (by
    rw [hloaded.scheduled, hloaded.times]
    exact Int.ofNat_lt.mpr hopens.times)
  have hstep := schedule_eq v (turns + 1) e.info self (if_neg hknown) loaded
    (by simp [hregenerate, hleft, hloop]) hdeadlock hadherence (by rw [hcurrent]; exact henabled)
  refine ⟨_, hstep.trans (congrArg (fun chosen => some (chosen, _)) hcurrent), hcurrent, ?_,
    hloaded.times, hloaded.addr, hloaded.pass, hloaded.signals, hloaded.rest⟩
  rw [hloaded.scheduled]
  rfl

-- The signal that comes before a point.
theorem Runs.signal (hruns : Runs self current times passed sig b blocks) (p : LogPoint)
    (e : RelaxedEvent) (hevent : p.IsEvent e) (hsig : sig ++ p.signals <+: b.sig) :
    ∃ next, (if e.signals then (some self.getNextSignalChoice.1, self.getNextSignalChoice.2)
        else (none, self)) = (p.outcome.1, next) ∧
      Runs next current times passed (sig ++ p.signals) b blocks := by
  rw [hevent.signals, LogPoint.outcome]
  cases hp : p.signal with
  | none =>
      have hnone : p.signals = [] := by rw [LogPoint.signals, hp]; rfl
      rw [hnone, List.append_nil]
      exact ⟨self, rfl, hruns⟩
  | some entry =>
      have hone : p.signals = [entry.signalled] := by rw [LogPoint.signals, hp]; rfl
      rw [hone] at hsig ⊢
      obtain ⟨hchoice, hnext⟩ := hruns.getNextSignalChoice entry.signalled hsig
      exact ⟨_, by rw [hchoice]; rfl, hnext⟩

-- A step whose signal and whose choice are known.
theorem replay_cons (v : RelaxedVirtual σ) (turns : Nat) (e : RelaxedEvent)
    (events : List RelaxedEvent) (outcome : Option Int × Int) (signalled next : RelaxedTracker σ)
    (hsignal : (if e.signals then (some self.getNextSignalChoice.1, self.getNextSignalChoice.2)
        else (none, self)) = (outcome.1, signalled))
    (hstep : schedule v turns signalled e.info = some (outcome.2, next)) :
    replay v turns self (e :: events) = (replay v turns next events).map (outcome :: ·) := by
  rw [replay, hsignal]
  simp only [hstep, Option.bind_eq_bind, Option.bind_some]
  cases replay v turns next events with
  | none => rfl
  | some choices => rfl

-- From any point inside a block on, the tracker answers what the schedule has.
theorem Runs.replay {v : RelaxedVirtual σ} (hv : v.Follows) (turns : Nat) (sched : List LogPoint)
    (events : List RelaxedEvent) (hevents : List.Forall₂ LogPoint.IsEvent sched events)
    (hchain : ChainFrom current sched) (hreplayable : ∀ p ∈ sched, p.Replayable)
    (hruns : Runs self current times passed sig b blocks)
    (hblocks : encodeFrom (lastChosen current sched) times passed sig sched = b :: blocks) :
    self.replay v (turns + 1) events = some (sched.map LogPoint.outcome) := by
  induction hevents generalizing self current times passed sig b blocks with
  | nil => rfl
  | @cons p e rest events hevent _ ih =>
      obtain ⟨hcaller, hrest⟩ := hchain
      have hp := hreplayable p List.mem_cons_self
      have hreplayable' : ∀ q ∈ rest, q.Replayable :=
        fun q hq => hreplayable q (List.mem_cons_of_mem p hq)
      rw [encodeFrom] at hblocks
      rw [lastChosen] at hblocks
      rw [← hcaller] at hruns
      by_cases hpoint : p.chosen ≠ p.caller
      · rw [if_pos hpoint] at hblocks
        obtain ⟨following, more, hmore, hopens, hsched⟩ :=
          encodeFrom_sched p.chosen 1 [] [] rest hrest
        rw [hmore] at hblocks
        obtain ⟨hb, hbs⟩ := List.cons.inj hblocks
        subst hb hbs
        obtain ⟨signalled, hsignal, hsignalled⟩ := hruns.signal p e hevent List.prefix_rfl
        obtain ⟨next, hstep, hnext⟩ :=
          hsignalled.switch hv turns p e hevent hp following rfl rfl hopens hsched
        rw [replay_cons v (turns + 1) e events p.outcome signalled next hsignal hstep,
          ih hrest hreplayable' hnext hmore, List.map_cons]
        rfl
      · rw [if_neg hpoint] at hblocks
        have hsame : p.chosen = p.caller := not_not.mp hpoint
        obtain ⟨b', blocks', hblocks', hopens, -⟩ := encodeFrom_sched p.chosen (times + 1)
          (p.idaddr :: passed) (sig ++ p.signals) rest hrest
        rw [hblocks'] at hblocks
        obtain ⟨hb, hbs⟩ := List.cons.inj hblocks
        subst hb hbs
        obtain ⟨signalled, hsignal, hsignalled⟩ := hruns.signal p e hevent hopens.sig
        obtain ⟨next, hstep, hnext⟩ :=
          hsignalled.stay hv (turns + 1) p e hevent hp hsame hopens
        rw [replay_cons v (turns + 1) e events p.outcome signalled next hsignal hstep,
          ih hrest hreplayable' hnext hblocks', List.map_cons]
        rfl

end RelaxedTracker

end Thrille
