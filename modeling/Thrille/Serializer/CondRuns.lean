import Thrille.Serializer.Conditions

namespace Thrille

open Traces

namespace CondCall

variable {self : CondCall} {waiting : ThrID → Option (Addr × Bool)}

-- What a call has done so far.
def Progress (self : CondCall) (waiting : ThrID → Option (Addr × Bool)) : Prop :=
  (∀ u, waiting u = if u ∈ self.removed then none else self.before u) ∧
    ∀ u ∈ self.removed, self.Waited u

theorem served_of_nobody (hremoved : self.removed = []) (hnobody : ∀ u, ¬self.Waited u) :
    self.Served := by
  unfold Served
  split
  · intro u
    rw [hremoved]
    exact iff_of_false List.not_mem_nil (hnobody u)
  · exact fun ⟨u, hwaited⟩ => absurd hwaited (hnobody u)

-- A broadcast is over when nobody waits for the condition any more.
theorem served_of_all (hbroadcast : self.isBroadcast = true) (hprogress : self.Progress waiting)
    (hnobody : ∀ u timed, waiting u ≠ some (self.cond, timed)) : self.Served := by
  unfold Served
  rw [if_pos hbroadcast]
  intro u
  refine ⟨hprogress.2 u, fun ⟨timed, hbefore⟩ => ?_⟩
  by_contra hnot
  apply hnobody u timed
  rw [hprogress.1 u, if_neg hnot, hbefore]

theorem served_of_one (hbroadcast : self.isBroadcast = false) (u : ThrID)
    (hremoved : self.removed = [u]) : self.Served := by
  unfold Served
  rw [hbroadcast]
  exact fun _ => ⟨u, hremoved⟩

end CondCall

-- A thread that is neither in a wait nor in a call.
def Pc.apart : Pc → Bool
  | launched (.wait _) => false
  | leaving (.wait _) => false
  | blocked (.wait _) => false
  | launched (.pause (.relock ..)) => false
  | leaving (.pause (.relock ..)) => false
  | blocked (.pause (.relock ..)) => false
  | resume (.relock ..) => false
  | woken _ => false
  | relock _ => false
  | signalReady _ => false
  | checkTimeout _ => false
  | pc => !pc.inCall

-- A section that is none of the events.
def Pc.quiet : Pc → Bool
  | simulateWait _ => false
  | enter _ (.condSignal _) => false
  | enter _ (.condBroadcast _) => false
  | pc => pc.apart

-- How far the call of thread `t` is.
def Pc.Calls (t : ThrID) (a : CondVars) : Pc → Prop
  | simulateSignal _ cond isBroadcast =>
      a.call = some { caller := t, cond, isBroadcast, before := a.waiting }
  | handoff info _ => ∃ k, a.call = some k ∧ k.caller = t ∧ k.cond = info.cond ∧
      k.isBroadcast = info.isBroadcast ∧ k.Progress a.waiting ∧
      (k.isBroadcast = false → k.removed = [])
  | waitReady info u => ∃ k, a.call = some k ∧ k.caller = t ∧ k.cond = info.cond ∧
      k.isBroadcast = info.isBroadcast ∧ k.Progress a.waiting ∧
      (k.isBroadcast = false → k.removed = [u])
  | signalDone .. => ∃ k, a.call = some k ∧ k.caller = t ∧ k.Served
  | _ => True

-- The flags and program counters say what the waits are.
structure Conds (tr : ExecutionTracker) (pcs : ThrID → Pc) (a : CondVars) : Prop where
  waiting : ∀ u, a.waiting u = (pcs u).waits (tr.was_signalled_map u) (tr.wait_ready_map u)
  outcome : ∀ u, a.outcome u = (pcs u).outcome (tr.was_signalled_map u) (tr.wait_ready_map u)
  called : ∀ u, (pcs u).Calls u a
  idle : ∀ k, a.call = some k → (pcs k.caller).inCall = true

namespace System

variable {σ : Type} {v : Virtual σ} {s s' : System σ} {t : ThrID} {ret_addr : Addr} {op : Op}
  {tr : ExecutionTracker} {eff : Effect}

-- Only a schedule point logs a launch.
theorem launched_of_effect (hrun : s.tracker.runSection t (s.pcs t) = .ok (tr, eff))
    (heff : ∀ info r, eff ≠ .schedule info r)
    (hrunning : (s.runThread v t (s.pcs t)).stopped = none) :
    condEvents.launched s (s.runThread v t (s.pcs t)) = [] := by
  have hlog : (s.runThread v t (s.pcs t)).log.schedule = s.log.schedule ∨
      ∃ chosen caller addr cond oncond, (s.runThread v t (s.pcs t)).log.schedule =
        s.log.schedule ++ [.signal chosen caller addr cond oncond] := by
    unfold runThread at hrunning ⊢
    rw [hrun] at hrunning ⊢
    dsimp only at hrunning ⊢
    cases eff with
    | goto pc' => exact Or.inl rfl
    | created child pc' => exact Or.inl rfl
    | signalChoice info =>
        simp only [perform] at hrunning ⊢
        split at hrunning
        · rename_i u log hnext
          have hread := getNextChoice_schedule s.log
          rw [show s.log.getNextChoice = (some u, log) from hnext] at hread
          exact Or.inl hread
        · split at hrunning
          · exact Or.inl rfl
          · cases hrunning
    | signalled info u =>
        simp only [perform] at hrunning ⊢
        split at hrunning
        · show (s.log.signalScheduling u info).schedule = s.log.schedule ∨ _
          unfold Logger.signalScheduling
          split
          · exact Or.inl rfl
          · exact Or.inr ⟨_, _, _, _, _, rfl⟩
        · cases hrunning
    | schedule info r => exact absurd rfl (heff info r)
  rcases hlog with hlog | ⟨chosen, caller, addr, cond, oncond, hlog⟩
  · rw [condEvents.launched, hlog, List.drop_length]
  · rw [condEvents.launched, hlog, List.drop_left]

theorem runThread_scheduled {info : SchedPointInfo} {r : Rest}
    (hrun : s.tracker.runSection t (s.pcs t) = .ok (tr, .schedule info r))
    (hrunning : (s.runThread v t (s.pcs t)).stopped = none) :
    ∃ target tracker, tr.isEnabled target = true ∧
      (tr.recordScheduleInfo info.thread target).launch target = .ok tracker ∧
      (s.runThread v t (s.pcs t)).tracker = tracker.afterSchedule t (s.pcs t) ∧
      (s.runThread v t (s.pcs t)).pcs = Function.update s.pcs t (.launched r) ∧
      condEvents.launched s (s.runThread v t (s.pcs t)) =
        if target ∈ (s.runThread v t (s.pcs t)).tracker.cond_map then [.launch target] else [] := by
  unfold runThread at hrunning ⊢
  rw [hrun] at hrunning ⊢
  simp only [perform] at hrunning ⊢
  split at hrunning
  · rename_i hstopped
    rw [hrunning] at hstopped
    cases hstopped
  · rename_i hstopped
    rw [if_neg hstopped]
    have hnone : (schedule v { s with
        tracker := tr
        barriers := s.barriers.observe t (s.pcs t) } info).stopped = none := by
      simpa using hstopped
    obtain ⟨target, fenmap, fromLog, log, scheduler, tracker, henabled, _, hlaunch, hlog, heq⟩ :=
      schedule_cases info hnone
    refine ⟨target, tracker, henabled, hlaunch, ?_, ?_, ?_⟩
    · rw [heq]
    · rw [heq]
      rfl
    · rw [heq]
      simp only [condEvents.launched, goto]
      rw [hlog, List.drop_left]

end System

namespace Pc

variable {pc pc' : Pc} {t : ThrID} {a : CondVars}

theorem calls_of_not_inCall (h : pc.inCall = false) : pc.Calls t a := by
  cases pc with
  | simulateSignal addr cond isBroadcast => cases h
  | handoff info u => cases h
  | waitReady info u => cases h
  | signalDone addr isBroadcast => cases h
  | _ => trivial

theorem apart_eq (h : pc.apart = true) (signalled ready : Bool) :
    pc.waits signalled ready = none ∧ pc.outcome signalled ready = none ∧ pc.inCall = false := by
  have hrest (r : Rest) : (launched r).apart = (leaving r).apart ∧
      (launched r).apart = (blocked r).apart ∧ ((launched r).apart = true →
        (launched r).waits signalled ready = none ∧ (launched r).outcome signalled ready = none) := by
    cases r with
    | pause k => cases k <;> simp [apart, waits, outcome, inCall]
    | wait w => simp [apart]
    | exit => simp [apart, waits, outcome, inCall]
  cases pc with
  | launched r => exact ⟨((hrest r).2.2 h).1, ((hrest r).2.2 h).2, rfl⟩
  | leaving r =>
      obtain ⟨hleaving, _, hnone⟩ := hrest r
      obtain ⟨hwaits, houtcome⟩ := hnone (hleaving.trans h)
      refine ⟨?_, ?_, rfl⟩
      · rw [← hwaits]
        cases r <;> rfl
      · rw [← houtcome]
        cases r with
        | pause k => cases k <;> rfl
        | _ => rfl
  | blocked r =>
      obtain ⟨_, hblocked, hnone⟩ := hrest r
      obtain ⟨hwaits, houtcome⟩ := hnone (hblocked.trans h)
      refine ⟨?_, ?_, rfl⟩
      · rw [← hwaits]
        cases r <;> rfl
      · rw [← houtcome]
        cases r with
        | pause k => cases k <;> rfl
        | _ => rfl
  | resume k =>
      cases k with
      | relock w timedOut => cases h
      | _ => exact ⟨rfl, rfl, rfl⟩
  | _ => first
    | exact ⟨rfl, rfl, rfl⟩
    | cases h

theorem apart_of_quiet (h : pc.quiet = true) : pc.apart = true := by
  cases pc with
  | enter addr op => rfl
  | simulateWait w => cases h
  | _ => exact h

theorem Next.apart (h : pc.Next pc') (hquiet : pc.quiet = true) (hsection : pc.isSection = true) :
    pc'.apart = true := by
  cases pc with
  | enter addr op =>
      cases op with
      | mutexLock lock =>
          rcases h with rfl | rfl
          · rfl
          · rfl
      | mutexUnlock lock =>
          obtain ⟨_, _, rfl⟩ := h
          rfl
      | create ret_val =>
          obtain ⟨_, _, rfl⟩ := h
          rfl
      | condSignal cond => cases hquiet
      | condBroadcast cond => cases hquiet
      | _ =>
          obtain ⟨_, rfl⟩ := h
          rfl
  | originalLock lock =>
      obtain ⟨_, rfl⟩ := h
      rfl
  | afterUnlock addr lock ret_val =>
      rcases h with rfl | rfl
      · rfl
      · rfl
  | beforeCreate addr child ret_val =>
      obtain rfl := h
      rfl
  | afterCreate addr ret_val =>
      obtain rfl := h
      rfl
  | resume k =>
      cases k with
      | relock w timedOut => cases hquiet
      | simple ret_val =>
          obtain rfl := h
          rfl
      | _ =>
          obtain ⟨_, rfl⟩ := h
          rfl
  | _ => first
    | exact absurd hsection Bool.false_ne_true
    | exact absurd hquiet Bool.false_ne_true

theorem Next.of_handoff {sig : SignalPointInfo} {u : ThrID} (h : pc.Next (.handoff sig u))
    (hsection : pc.isSection = true) :
    (∃ addr, pc = .simulateSignal addr sig.cond sig.isBroadcast) ∨
      ∃ info x, pc = .waitReady info x := by
  by_cases hquiet : pc.quiet = true
  · have hapart := h.apart hquiet hsection
    cases hapart
  · cases pc with
    | simulateSignal addr cond isBroadcast =>
        obtain ⟨_, _, hplace, hcond, hbroadcast⟩ := h.resolve_left nofun
        cases hplace
        exact Or.inl ⟨addr, by rw [hcond, hbroadcast]⟩
    | waitReady info x => exact Or.inr ⟨info, x, rfl⟩
    | enter addr op =>
        cases op with
        | condSignal cond =>
            obtain ⟨_, h⟩ := h
            cases h
        | condBroadcast cond =>
            obtain ⟨_, h⟩ := h
            cases h
        | _ => exact absurd rfl hquiet
    | signalReady w =>
        simp only [Next] at h
        split at h <;> cases h
    | checkTimeout w =>
        rcases h with h | h
        · cases h
        · cases h
    | resume k =>
        cases k with
        | relock w timedOut => cases h
        | _ => exact absurd rfl hquiet
    | simulateWait w => cases h
    | woken w => cases h
    | relock w => cases h
    | handoff info x => cases h
    | signalDone addr isBroadcast => cases h
    | _ =>
        first
          | exact absurd hsection Bool.false_ne_true
          | exact absurd rfl hquiet

-- A thread that waits is on its way to its second semaphore, or there.
theorem waits_eq_some {signalled ready timed : Bool} {cond : Addr}
    (h : pc.waits signalled ready = some (cond, timed)) :
    ∃ w, pc.heading signalled = some (.wait w) ∧ w.cond = cond ∧ w.timed = timed := by
  have hrest (w : Wait) (hw : (if signalled && ready then some (w.cond, w.timed) else none) =
      some (cond, timed)) : w.cond = cond ∧ w.timed = timed := by
    split at hw
    · cases hw
      exact ⟨rfl, rfl⟩
    · cases hw
  cases pc with
  | launched r =>
      cases r with
      | wait w => exact ⟨w, rfl, hrest w h⟩
      | _ => cases h
  | leaving r =>
      cases r with
      | wait w => exact ⟨w, rfl, hrest w h⟩
      | _ => cases h
  | blocked r =>
      cases r with
      | wait w => exact ⟨w, rfl, hrest w h⟩
      | _ => cases h
  | _ => cases h

theorem waits_of_heading {signalled : Bool} {w : Wait}
    (h : pc.heading signalled = some (.wait w)) : pc.waits true true = some (w.cond, w.timed) := by
  cases pc with
  | launched r => cases h; rfl
  | leaving r => cases h; rfl
  | blocked r => cases h; rfl
  | checkTimeout w' =>
      simp only [heading] at h
      split at h <;> cases h
  | _ => cases h

end Pc

namespace Conds

variable {tr tr' : ExecutionTracker} {pcs pcs' : ThrID → Pc} {c : Control} {a a' : CondVars}
  {t : ThrID}

-- While a thread runs, no other one is in a call.
theorem not_inCall (hc : Controlled tr pcs (.running t)) (u : ThrID) (hu : u ≠ t) :
    (pcs u).inCall = false := by
  by_contra hcall
  have hruns : (pcs u).runs = true := by
    cases hat : pcs u <;> rw [hat] at hcall <;> first
      | rfl
      | exact absurd rfl hcall
  obtain ⟨w, hw⟩ := hc.others_not u hu (pcs u) rfl hruns
  rw [hw] at hcall
  exact hcall rfl

theorem call_none (h : Conds tr pcs a) (hc : Controlled tr pcs (.running t))
    (hpc : (pcs t).inCall = false) : a.call = none := by
  by_contra hcall
  obtain ⟨k, hk⟩ := Option.ne_none_iff_exists'.mp hcall
  have hin := h.idle k hk
  by_cases hkt : k.caller = t
  · rw [hkt, hpc] at hin
    cases hin
  · rw [not_inCall hc k.caller hkt] at hin
    cases hin

-- While a thread runs, the others wait as their program counters say.
theorem resting (h : Conds tr pcs a) (hc : Controlled tr pcs (.running t)) (u : ThrID)
    (hu : u ≠ t) :
    a.waiting u = (pcs u).waits true true ∧ a.outcome u = (pcs u).outcome true true := by
  rw [h.waiting u, h.outcome u]
  by_cases hborn : pcs u = .unborn
  · rw [hborn]
    exact ⟨rfl, rfl⟩
  · have hbeq : (u == t) = false := beq_eq_false_iff_ne.mpr hu
    have hsignalled : tr.was_signalled_map u = true := by
      rw [hc.signalled u hborn]
      simp only [Control.timedOut, hbeq, Bool.false_and, Bool.not_false]
    have hready : tr.wait_ready_map u = true := hc.ready u hborn
    rw [hsignalled, hready]
    exact ⟨rfl, rfl⟩

-- The runner goes on to another place.
theorem move (h : Conds tr pcs a) (hc : Controlled tr pcs (.running t)) (pc' : Pc)
    (hsignalled : ∀ u, u ≠ t → tr'.was_signalled_map u = tr.was_signalled_map u)
    (hready : ∀ u, u ≠ t → tr'.wait_ready_map u = tr.wait_ready_map u)
    (hwaiting : ∀ u, u ≠ t → a'.waiting u = a.waiting u)
    (houtcome : ∀ u, u ≠ t → a'.outcome u = a.outcome u)
    (hwaits : a'.waiting t = pc'.waits (tr'.was_signalled_map t) (tr'.wait_ready_map t))
    (hover : a'.outcome t = pc'.outcome (tr'.was_signalled_map t) (tr'.wait_ready_map t))
    (hcalls : pc'.Calls t a') (hidle : ∀ k, a'.call = some k → k.caller = t ∧ pc'.inCall = true) :
    Conds tr' (Function.update pcs t pc') a' := by
  refine ⟨fun u => ?_, fun u => ?_, fun u => ?_, fun k hk => ?_⟩
  · by_cases hu : u = t
    · rw [hu, Function.update_self, hwaits]
    · rw [Function.update_of_ne hu, hwaiting u hu, hsignalled u hu, hready u hu]
      exact h.waiting u
  · by_cases hu : u = t
    · rw [hu, Function.update_self, hover]
    · rw [Function.update_of_ne hu, houtcome u hu, hsignalled u hu, hready u hu]
      exact h.outcome u
  · by_cases hu : u = t
    · rw [hu, Function.update_self]
      exact hcalls
    · rw [Function.update_of_ne hu]
      exact Pc.calls_of_not_inCall (not_inCall hc u hu)
  · obtain ⟨hcaller, hin⟩ := hidle k hk
    rw [hcaller, Function.update_self]
    exact hin

-- It does so without a change of the flags.
theorem goOn (h : Conds tr pcs a) (hc : Controlled tr pcs (.running t)) (pc' : Pc)
    (hsignalled : tr'.was_signalled_map = tr.was_signalled_map)
    (hready : tr'.wait_ready_map = tr.wait_ready_map)
    (hwaiting : ∀ u, u ≠ t → a'.waiting u = a.waiting u)
    (houtcome : ∀ u, u ≠ t → a'.outcome u = a.outcome u)
    (hwaits : a'.waiting t = pc'.waits (tr.was_signalled_map t) (tr.wait_ready_map t))
    (hover : a'.outcome t = pc'.outcome (tr.was_signalled_map t) (tr.wait_ready_map t))
    (hcalls : pc'.Calls t a') (hidle : ∀ k, a'.call = some k → k.caller = t ∧ pc'.inCall = true) :
    Conds tr' (Function.update pcs t pc') a' := by
  apply h.move hc pc' (fun u _ => by rw [hsignalled]) (fun u _ => by rw [hready]) hwaiting houtcome
    ?_ ?_ hcalls hidle
  · rw [hsignalled, hready]
    exact hwaits
  · rw [hsignalled, hready]
    exact hover

-- Any thread goes on in its wait, or outside of waits and calls.
theorem still (h : Conds tr pcs a) (t : ThrID) (pc' : Pc)
    (hsignalled : tr'.was_signalled_map = tr.was_signalled_map)
    (hready : ∀ u, u ≠ t → tr'.wait_ready_map u = tr.wait_ready_map u)
    (hin : (pcs t).inCall = false) (hin' : pc'.inCall = false)
    (hwaits : pc'.waits (tr.was_signalled_map t) (tr'.wait_ready_map t) =
      (pcs t).waits (tr.was_signalled_map t) (tr.wait_ready_map t))
    (hover : pc'.outcome (tr.was_signalled_map t) (tr'.wait_ready_map t) =
      (pcs t).outcome (tr.was_signalled_map t) (tr.wait_ready_map t)) :
    Conds tr' (Function.update pcs t pc') a := by
  refine ⟨fun u => ?_, fun u => ?_, fun u => ?_, fun k hk => ?_⟩
  · rw [h.waiting u, hsignalled]
    by_cases hu : u = t
    · rw [hu, Function.update_self, hwaits]
    · rw [Function.update_of_ne hu, hready u hu]
  · rw [h.outcome u, hsignalled]
    by_cases hu : u = t
    · rw [hu, Function.update_self, hover]
    · rw [Function.update_of_ne hu, hready u hu]
  · by_cases hu : u = t
    · rw [hu, Function.update_self]
      exact Pc.calls_of_not_inCall hin'
    · rw [Function.update_of_ne hu]
      exact h.called u
  · have hcaller := h.idle k hk
    have hne : k.caller ≠ t := by
      intro heq
      rw [heq, hin] at hcaller
      cases hcaller
    rw [Function.update_of_ne hne]
    exact hcaller

-- A launch is that of a thread that waits, or of one that is paused.
theorem scheduled (target : ThrID) {c' : Control} (hc : Controlled tr' pcs' c')
    (hconsistent : Consistent tr' fun u => (pcs' u).stage)
    (hcase : c' = .posted target ∨ c' = .timeout target)
    (hwaiting : ∀ u, a.waiting u = (pcs' u).waits true true)
    (houtcome : ∀ u, a.outcome u = (pcs' u).outcome true true) (hcall : a.call = none) :
    ∃ a', Runs CondVars.Rule a (if target ∈ tr'.cond_map then [.launch target] else []) a' ∧
      Conds tr' pcs' a' := by
  have hapart (u : ThrID) : (pcs' u).inCall = false := by
    by_contra hin
    have hruns : (pcs' u).runs = true := by
      cases hat : pcs' u <;> rw [hat] at hin <;> first
        | rfl
        | exact absurd rfl hin
    have hnot : (∀ x, c' ≠ .running x) ∧ (∀ x y, c' ≠ .serving x y) ∧ ∀ x y, c' ≠ .handed x y := by
      rcases hcase with rfl | rfl
      · exact ⟨nofun, nofun, nofun⟩
      · exact ⟨nofun, nofun, nofun⟩
    rcases hc.runs_cases hruns with hr | ⟨w, hw, _⟩ | ⟨x, w, hr, _⟩ | ⟨x, sig, hr, _⟩
    · exact hnot.1 u hr
    · rw [hw] at hin
      exact hin rfl
    · exact hnot.2.1 u x hr
    · rcases hr with hr | hr
      · exact hnot.2.2 x u hr
      · exact hnot.2.1 x u hr
  have hcalled (a' : CondVars) (u : ThrID) : (pcs' u).Calls u a' :=
    Pc.calls_of_not_inCall (hapart u)
  have hready (u : ThrID) (hborn : pcs' u ≠ .unborn) : tr'.wait_ready_map u = true := by
    rw [hc.ready u hborn]
    rcases hcase with rfl | rfl
    · rfl
    · rfl
  have hrole := hc.role target
  have hnever (u : ThrID) (hborn : pcs' u = .unborn) (signalled ready : Bool) :
      (pcs' u).waits signalled ready = none ∧ (pcs' u).outcome signalled ready = none := by
    rw [hborn]
    exact ⟨rfl, rfl⟩
  rcases hcase with rfl | rfl
  · -- the thread is paused
    simp only [Control.Role, if_true] at hrole
    obtain ⟨k, hk⟩ := hrole
    have hfit := hconsistent.fits target
    rw [Pc.stage_of_heading _ _ _ hk] at hfit
    have hmem : target ∉ tr'.cond_map := by
      intro hmem
      obtain ⟨cond, hcond⟩ := Option.isSome_iff_exists.mp
        (Std.TreeMap.mem_iff_isSome_getElem?.mp hmem)
      obtain ⟨w, hw, _⟩ := hfit.cond cond hcond
      cases hw
    rw [if_neg hmem]
    refine ⟨a, .nil a, fun u => ?_, fun u => ?_, hcalled a, fun k hk => ?_⟩
    · rw [hwaiting u]
      by_cases hborn : pcs' u = .unborn
      · rw [(hnever u hborn _ _).1, (hnever u hborn _ _).1]
      · rw [hc.signalled u hborn, hready u hborn]
        rfl
    · rw [houtcome u]
      by_cases hborn : pcs' u = .unborn
      · rw [(hnever u hborn _ _).2, (hnever u hborn _ _).2]
      · rw [hc.signalled u hborn, hready u hborn]
        rfl
    · rw [hcall] at hk
      cases hk
  · -- the thread waits, and its wait times out
    simp only [Control.Role, if_true] at hrole
    obtain ⟨w, hw, htimed⟩ := hrole
    have hfit := hconsistent.fits target
    rw [Pc.stage_of_heading _ _ _ hw] at hfit
    have hmem : target ∈ tr'.cond_map := by
      have hentries : tr'.entries target = { enabled := w.timed, cond := some w.cond } := hfit
      have hcond : tr'.cond_map[target]? = some w.cond := congrArg Entries.cond hentries
      rw [Std.TreeMap.mem_iff_isSome_getElem?, hcond]
      rfl
    rw [if_pos hmem]
    have hborn : pcs' target ≠ .unborn := by
      intro hnew
      rw [hnew] at hw
      cases hw
    have hflag : tr'.was_signalled_map target = false := by
      rw [hc.signalled target hborn]
      simp [Control.timedOut]
    have hplace : (pcs' target).waits true true = some (w.cond, w.timed) ∧
        (pcs' target).waits false true = none ∧
        (pcs' target).outcome false true = some ETIMEDOUT := by
      cases hat : pcs' target <;> rw [hat] at hw <;> simp only [Pc.heading] at hw <;> first
        | cases hw
          exact ⟨rfl, rfl, rfl⟩
        | cases hw
        | split at hw <;> cases hw
    have hwaits : a.waiting target = some (w.cond, true) := by
      rw [hwaiting target, hplace.1, htimed]
    refine ⟨_, Runs.single _ _ _ (.launch target w.cond hcall hwaits), fun u => ?_, fun u => ?_,
      hcalled _, fun k hk => ?_⟩
    · show Function.update a.waiting target none u = _
      by_cases hu : u = target
      · rw [hu, Function.update_self, hflag, hready target hborn, hplace.2.1]
      · rw [Function.update_of_ne hu, hwaiting u]
        by_cases hnew : pcs' u = .unborn
        · rw [(hnever u hnew _ _).1, (hnever u hnew _ _).1]
        · rw [hc.signalled u hnew, hready u hnew]
          have hbeq : (u == target) = false := beq_eq_false_iff_ne.mpr hu
          simp only [Control.timedOut, hbeq, Bool.not_false]
    · show Function.update a.outcome target (some ETIMEDOUT) u = _
      by_cases hu : u = target
      · rw [hu, Function.update_self, hflag, hready target hborn, hplace.2.2]
      · rw [Function.update_of_ne hu, houtcome u]
        by_cases hnew : pcs' u = .unborn
        · rw [(hnever u hnew _ _).2, (hnever u hnew _ _).2]
        · rw [hc.signalled u hnew, hready u hnew]
          have hbeq : (u == target) = false := beq_eq_false_iff_ne.mpr hu
          simp only [Control.timedOut, hbeq, Bool.not_false]
    · have hk' : a.call = some k := hk
      rw [hcall] at hk'
      cases hk'

end Conds

namespace System

variable {σ : Type} {v : Virtual σ} {s s' : System σ} {t : ThrID} {ret_addr : Addr} {op : Op}
  {tr : ExecutionTracker} {eff : Effect} {a : CondVars} {c : Control}

-- The threads in `cond_map` are those that wait, while a thread is between two operations.
theorem waiting_iff (hserial : Serial s (.running t)) (h : Conds s.tracker s.pcs a)
    (hactive : (s.pcs t).stage = .active) (u : ThrID) (cond : Addr) :
    s.tracker.cond_map[u]? = some cond ↔ ∃ timed, a.waiting u = some (cond, timed) := by
  have hentry : (s.tracker.entries u).cond = s.tracker.cond_map[u]? := rfl
  have hfit := hserial.consistent.fits u
  constructor
  · intro hcond
    obtain ⟨w, hw, hwcond⟩ := hfit.cond cond hcond
    have hut : u ≠ t := by
      rintro rfl
      rw [hactive] at hw
      cases hw
    have hheading := (hserial.controlled.others u hut).heading_wait w hw
    refine ⟨w.timed, ?_⟩
    rw [(h.resting hserial.controlled u hut).1, Pc.waits_of_heading hheading, hwcond]
  · rintro ⟨timed, hwaiting⟩
    rw [h.waiting u] at hwaiting
    obtain ⟨w, hw, hwcond, _⟩ := Pc.waits_eq_some hwaiting
    rw [Pc.stage_of_heading _ _ _ hw] at hfit
    have hentries : s.tracker.entries u = { enabled := w.timed, cond := some w.cond } := hfit
    rw [← hentry, hentries, hwcond]

theorem own_of_quiet (hquiet : (s.pcs t).quiet = true) : condEvents.own s t s' = [] := by
  unfold condEvents.own
  split <;> first
    | rfl
    | rename_i hpc
      rw [hpc] at hquiet
      cases hquiet
    | rename_i hpc _
      rw [hpc] at hquiet
      cases hquiet

-- What the runner does before it passes its turn on.
theorem Conds.beforeLaunch (hserial : Serial s (.running t)) (h : Conds s.tracker s.pcs a)
    (hpc : (s.pcs t).isSection = true) {info : SchedPointInfo} {r : Rest}
    (hrun : s.tracker.runSection t (s.pcs t) = .ok (tr, .schedule info r))
    (hpcs : s'.pcs = Function.update s.pcs t (.launched r)) :
    ∃ a', Runs CondVars.Rule a (condEvents.own s t s') a' ∧ a'.call = none ∧
      (∀ u, a'.waiting u = (s'.pcs u).waits true true) ∧
      ∀ u, a'.outcome u = (s'.pcs u).outcome true true := by
  have hc := hserial.controlled
  have hnext : (s.pcs t).Next (.launched r) := ExecutionTracker.runSection_leads _ hpc hrun
  have hothers (u : ThrID) (hu : u ≠ t) : a.waiting u = (s'.pcs u).waits true true ∧
      a.outcome u = (s'.pcs u).outcome true true := by
    rw [hpcs, Function.update_of_ne hu]
    exact h.resting hc u hu
  have hself : s'.pcs t = .launched r := by rw [hpcs, Function.update_self]
  have hwaiting := h.waiting t
  have houtcome := h.outcome t
  -- where nothing changes for the thread itself
  have hsame (hcall : a.call = none) (hown : condEvents.own s t s' = [])
      (hwaits : a.waiting t = (Pc.launched r).waits true true)
      (hover : a.outcome t = (Pc.launched r).outcome true true) :
      ∃ a', Runs CondVars.Rule a (condEvents.own s t s') a' ∧ a'.call = none ∧
        (∀ u, a'.waiting u = (s'.pcs u).waits true true) ∧
        ∀ u, a'.outcome u = (s'.pcs u).outcome true true := by
    rw [hown]
    refine ⟨a, .nil a, hcall, fun u => ?_, fun u => ?_⟩
    · by_cases hu : u = t
      · rw [hu, hself, hwaits]
      · exact (hothers u hu).1
    · by_cases hu : u = t
      · rw [hu, hself, hover]
      · exact (hothers u hu).2
  by_cases hquiet : (s.pcs t).quiet = true
  · obtain ⟨hwaits, hover, hin⟩ := Pc.apart_eq (Pc.apart_of_quiet hquiet)
      (s.tracker.was_signalled_map t) (s.tracker.wait_ready_map t)
    obtain ⟨hwaits', hover', _⟩ := Pc.apart_eq (hnext.apart hquiet hpc) true true
    apply hsame (h.call_none hc hin) (own_of_quiet hquiet)
    · rw [hwaiting, hwaits, hwaits']
    · rw [houtcome, hover, hover']
  · cases hat : s.pcs t with
    | simulateWait w =>
        rw [hat] at hnext hwaiting houtcome
        obtain rfl : r = .wait w := Pc.launched.inj hnext
        have hown : condEvents.own s t s' = [.wait t w.cond w.timed] := by
          simp only [condEvents.own, hat]
        have hfree := h.call_none hc (by rw [hat]; rfl)
        rw [hown]
        refine ⟨_, Runs.single _ _ _ (.wait t w.cond w.timed hfree hwaiting houtcome), hfree,
          fun u => ?_, fun u => ?_⟩
        · show Function.update a.waiting t (some (w.cond, w.timed)) u = _
          by_cases hu : u = t
          · rw [hu, Function.update_self, hself]
            rfl
          · rw [Function.update_of_ne hu]
            exact (hothers u hu).1
        · show a.outcome u = _
          by_cases hu : u = t
          · rw [hu, houtcome, hself]
            rfl
          · exact (hothers u hu).2
    | checkTimeout w =>
        -- the wait has timed out
        rw [hat] at hnext hwaiting houtcome hrun
        obtain rfl : r = .pause (.relock w true) := by
          rcases hnext with hnext | hnext
          · cases hnext
          · exact Pc.launched.inj hnext
        simp only [ExecutionTracker.runSection, ExecutionTracker.checkTimeout] at hrun
        split at hrun
        · cases hrun
        · rename_i hnot
          have hflag : s.tracker.was_signalled_map t = false := by simpa using hnot
          rw [hflag] at houtcome hwaiting
          apply hsame (h.call_none hc (by rw [hat]; rfl))
          · simp only [condEvents.own, hat]
          · exact hwaiting
          · exact houtcome
    | signalDone addr isBroadcast =>
        rw [hat] at hnext hwaiting houtcome
        obtain rfl : r = .pause (.simple OPERATION_SUCCESSFUL) := Pc.launched.inj hnext
        have hcalled := h.called t
        rw [hat] at hcalled
        obtain ⟨k, hk, rfl, hserved⟩ := hcalled
        have hown : condEvents.own s k.caller s' = [.done k.caller] := by
          simp only [condEvents.own, hat]
        rw [hown]
        refine ⟨_, Runs.single _ _ _ (.done k hk hserved), rfl, fun u => ?_, fun u => ?_⟩
        · show a.waiting u = _
          by_cases hu : u = k.caller
          · rw [hu, hwaiting, hself]
            rfl
          · exact (hothers u hu).1
        · show a.outcome u = _
          by_cases hu : u = k.caller
          · rw [hu, houtcome, hself]
            rfl
          · exact (hothers u hu).2
    | enter addr op =>
        rw [hat] at hquiet hnext
        cases op with
        | condSignal cond =>
            obtain ⟨_, hnext⟩ := hnext
            cases hnext
        | condBroadcast cond =>
            obtain ⟨_, hnext⟩ := hnext
            cases hnext
        | _ => exact absurd rfl hquiet
    | woken w => rw [hat] at hnext; cases hnext
    | relock w => rw [hat] at hnext; cases hnext
    | signalReady w =>
        rw [hat] at hnext
        simp only [Pc.Next] at hnext
        split at hnext <;> cases hnext
    | simulateSignal addr cond isBroadcast =>
        rw [hat] at hnext
        rcases hnext with hnext | ⟨_, _, hnext, _⟩
        · cases hnext
        · cases hnext
    | handoff sig u => rw [hat] at hnext; cases hnext
    | waitReady sig u =>
        rw [hat] at hnext
        rcases hnext with hnext | ⟨_, _, hnext, _⟩
        · cases hnext
        · cases hnext
    | resume k =>
        rw [hat] at hquiet hnext
        cases k with
        | relock w timedOut => cases hnext
        | _ => exact absurd rfl hquiet
    | _ =>
        rw [hat] at hpc hquiet
        first
          | exact absurd hpc Bool.false_ne_true
          | exact absurd rfl hquiet

-- Nobody waits for the condition, or a broadcast has its first thread.
theorem Conds.simulateSignal (hserial : Serial s (.running t)) (h : Conds s.tracker s.pcs a)
    (addr cond : Addr) (isBroadcast : Bool) (hat : s.pcs t = .simulateSignal addr cond isBroadcast)
    {pc' : Pc} (hrun : s.tracker.runSection t (s.pcs t) = .ok (tr, .goto pc')) :
    Conds tr (Function.update s.pcs t pc') a := by
  obtain ⟨_, _, hmapReady, hmapSignalled, _⟩ :=
    Controlled.posts_goto (s.pcs t) pc' (fun w hw => by rw [hat] at hw; cases hw) hrun
  have hcalled := h.called t
  have hwaiting := h.waiting t
  have houtcome := h.outcome t
  rw [hat] at hcalled hwaiting houtcome hrun
  have hcall : a.call = some { caller := t, cond, isBroadcast, before := a.waiting } := hcalled
  have hmine (k : CondCall) (hk : a.call = some k) : k.caller = t := by
    rw [hcall] at hk
    cases hk
    rfl
  simp only [ExecutionTracker.runSection, ExecutionTracker.wakeThreadWaitingOnCond] at hrun
  split at hrun
  · rename_i hmissed
    cases hrun
    refine h.goOn hserial.controlled _ hmapSignalled hmapReady (fun _ _ => rfl) (fun _ _ => rfl)
      hwaiting houtcome ?_ ?_
    · refine ⟨_, hcall, rfl, CondCall.served_of_nobody rfl fun u hwaits => ?_⟩
      obtain ⟨timed, hwaits⟩ := hwaits
      have hcond := (waiting_iff hserial h (by rw [hat]; rfl) u cond).mpr ⟨timed, hwaits⟩
      have hmem := (PtrMap.mem_threadsAt _ cond u).mpr hcond
      rw [List.isEmpty_iff.mp hmissed] at hmem
      cases hmem
    · exact fun k hk => ⟨hmine k hk, rfl⟩
  · split at hrun
    · rename_i hbroadcast
      split at hrun
      · cases hrun
        refine h.goOn hserial.controlled _ hmapSignalled hmapReady (fun _ _ => rfl) (fun _ _ => rfl)
          hwaiting houtcome ?_ ?_
        · refine ⟨_, hcall, rfl, rfl, rfl, ⟨fun u => ?_, by rintro _ ⟨⟩⟩, fun _ => rfl⟩
          exact (if_neg List.not_mem_nil).symm
        · exact fun k hk => ⟨hmine k hk, rfl⟩
      · cases hrun
    · cases hrun

-- A signal is over with its thread, and a broadcast with the last one.
theorem Conds.waitReady (hserial : Serial s (.running t)) (h : Conds s.tracker s.pcs a)
    (sig : SignalPointInfo) (u : ThrID) (hat : s.pcs t = .waitReady sig u)
    {pc' : Pc} (hrun : s.tracker.runSection t (s.pcs t) = .ok (tr, .goto pc')) :
    Conds tr (Function.update s.pcs t pc') a := by
  obtain ⟨_, _, hmapReady, hmapSignalled, _⟩ :=
    Controlled.posts_goto (s.pcs t) pc' (fun w hw => by rw [hat] at hw; cases hw) hrun
  have hcalled := h.called t
  have hwaiting := h.waiting t
  have houtcome := h.outcome t
  rw [hat] at hcalled hwaiting houtcome hrun
  obtain ⟨k, hk, hcaller, hcond, hbroadcast, hprogress, hsignal⟩ := hcalled
  have hmine (k' : CondCall) (hk' : a.call = some k') : k'.caller = t := by
    rw [hk] at hk'
    cases hk'
    exact hcaller
  simp only [ExecutionTracker.runSection, ExecutionTracker.waitThreadReady] at hrun
  split at hrun
  · rename_i hsig
    have hbroad : k.isBroadcast = true := hbroadcast.trans hsig
    split at hrun
    · -- the next thread
      cases hrun
      refine h.goOn hserial.controlled _ hmapSignalled hmapReady (fun _ _ => rfl) (fun _ _ => rfl)
        hwaiting houtcome ?_ ?_
      · refine ⟨k, hk, hcaller, hcond, hbroadcast, hprogress, fun hnot => ?_⟩
        rw [hbroad] at hnot
        cases hnot
      · exact fun k' hk' => ⟨hmine k' hk', rfl⟩
    · rename_i hnone
      cases hrun
      refine h.goOn hserial.controlled _ hmapSignalled hmapReady (fun _ _ => rfl) (fun _ _ => rfl)
        hwaiting houtcome ?_ ?_
      · refine ⟨k, hk, hcaller, CondCall.served_of_all hbroad hprogress fun x timed hwaits => ?_⟩
        have hat' := (waiting_iff hserial h (by rw [hat]; rfl) x k.cond).mpr ⟨timed, hwaits⟩
        have hmem := (PtrMap.mem_threadsAt _ k.cond x).mpr hat'
        rw [hcond, List.head?_eq_none_iff.mp hnone] at hmem
        cases hmem
      · exact fun k' hk' => ⟨hmine k' hk', rfl⟩
  · rename_i hsig
    cases hrun
    have hnot : k.isBroadcast = false := by
      rw [hbroadcast]
      exact Bool.eq_false_iff.mpr hsig
    refine h.goOn hserial.controlled _ hmapSignalled hmapReady (fun _ _ => rfl) (fun _ _ => rfl)
      hwaiting houtcome ?_ ?_
    · exact ⟨k, hk, hcaller, CondCall.served_of_one hnot u (hsignal hnot)⟩
    · exact fun k' hk' => ⟨hmine k' hk', rfl⟩

-- The runner goes on to its next section, or back to the program.
theorem Conds.goto (hserial : Serial s (.running t)) (h : Conds s.tracker s.pcs a)
    (hpc : (s.pcs t).isSection = true) {pc' : Pc}
    (hrun : s.tracker.runSection t (s.pcs t) = .ok (tr, .goto pc')) (hself : s'.pcs t = pc') :
    ∃ a', Runs CondVars.Rule a (condEvents.own s t s') a' ∧
      Conds tr (Function.update s.pcs t pc') a' := by
  have hc := hserial.controlled
  have hnext : (s.pcs t).Next pc' := ExecutionTracker.runSection_leads _ hpc hrun
  have hwaiting := h.waiting t
  have houtcome := h.outcome t
  by_cases hready : ∃ w, s.pcs t = .signalReady w
  · -- only the flag of the thread itself is set, which its place does not depend on any more
    obtain ⟨w, hat⟩ := hready
    have hown : condEvents.own s t s' = [] := by simp only [condEvents.own, hat]
    have hfree := h.call_none hc (by rw [hat]; rfl)
    have hrole := hc.role t
    simp only [Control.Role, if_true, hat] at hrole
    have htimed : w.timed = true := hrole.2 w rfl
    rw [hat] at hrun hwaiting houtcome
    cases hrun
    rw [hown, if_pos htimed]
    refine ⟨a, .nil a, h.move hc _ (fun _ _ => rfl) (fun u hu => ?_) (fun _ _ => rfl)
      (fun _ _ => rfl) hwaiting houtcome trivial fun k hk => ?_⟩
    · exact Function.update_of_ne hu _ _
    · rw [hfree] at hk
      cases hk
  obtain ⟨_, _, hmapReady, hmapSignalled, _⟩ :=
    Controlled.posts_goto (s.pcs t) pc' (fun w hw => hready ⟨w, hw⟩) hrun
  -- a thread that is in no call before or after the step
  have hsame (hin : (s.pcs t).inCall = false) (hin' : pc'.inCall = false)
      (hwaits : a.waiting t =
        pc'.waits (s.tracker.was_signalled_map t) (s.tracker.wait_ready_map t))
      (hover : a.outcome t =
        pc'.outcome (s.tracker.was_signalled_map t) (s.tracker.wait_ready_map t)) :
      Conds tr (Function.update s.pcs t pc') a := by
    apply h.goOn hc pc' hmapSignalled hmapReady (fun _ _ => rfl) (fun _ _ => rfl) hwaits hover
      (Pc.calls_of_not_inCall hin')
    intro k hk
    rw [h.call_none hc hin] at hk
    cases hk
  by_cases hquiet : (s.pcs t).quiet = true
  · have hplain := Pc.apart_eq (Pc.apart_of_quiet hquiet) (s.tracker.was_signalled_map t)
      (s.tracker.wait_ready_map t)
    have hplain' := Pc.apart_eq (hnext.apart hquiet hpc) (s.tracker.was_signalled_map t)
      (s.tracker.wait_ready_map t)
    rw [own_of_quiet hquiet]
    refine ⟨a, .nil a, hsame hplain.2.2 hplain'.2.2 ?_ ?_⟩
    · rw [hwaiting, hplain.1, hplain'.1]
    · rw [houtcome, hplain.2.1, hplain'.2.1]
  -- a call begins
  have hcall (cond : Addr) (isBroadcast : Bool) (hin : (s.pcs t).inCall = false)
      (hpc' : ∃ addr, pc' = .simulateSignal addr cond isBroadcast)
      (hwaits : a.waiting t = none) (hover : a.outcome t = none) :
      ∃ a', Runs CondVars.Rule a [.call t cond isBroadcast] a' ∧
        Conds tr (Function.update s.pcs t pc') a' := by
    obtain ⟨addr, rfl⟩ := hpc'
    refine ⟨_, Runs.single _ _ _ (.call t cond isBroadcast (h.call_none hc hin)),
      h.goOn hc _ hmapSignalled hmapReady (fun _ _ => rfl) (fun _ _ => rfl) hwaits hover rfl
        fun k hk => ?_⟩
    cases hk
    exact ⟨rfl, rfl⟩
  cases hat : s.pcs t with
  | enter addr op =>
      rw [hat] at hquiet hnext hwaiting houtcome
      cases op with
      | condSignal cond =>
          have hown : condEvents.own s t s' = [.call t cond false] := by
            simp only [condEvents.own, hat]
          rw [hown]
          exact hcall cond false (by rw [hat]; rfl) hnext hwaiting houtcome
      | condBroadcast cond =>
          have hown : condEvents.own s t s' = [.call t cond true] := by
            simp only [condEvents.own, hat]
          rw [hown]
          exact hcall cond true (by rw [hat]; rfl) hnext hwaiting houtcome
      | _ => exact absurd rfl hquiet
  | simulateWait w =>
      rw [hat] at hrun
      simp only [ExecutionTracker.runSection, ExecutionTracker.simulateCondWait,
        safe_assert_bind] at hrun
      obtain ⟨_, _, hrun⟩ := hrun
      split at hrun
      · cases hrun
      · cases hrun
  | woken w =>
      have hown : condEvents.own s t s' = [] := by simp only [condEvents.own, hat]
      rw [hat] at hnext hwaiting houtcome
      obtain rfl : pc' = .relock w := hnext
      rw [hown]
      exact ⟨a, .nil a, hsame (by rw [hat]; rfl) rfl hwaiting houtcome⟩
  | relock w =>
      have hown : condEvents.own s t s' = [] := by simp only [condEvents.own, hat]
      rw [hat] at hnext hwaiting houtcome
      obtain rfl : pc' = .signalReady w := hnext
      rw [hown]
      exact ⟨a, .nil a, hsame (by rw [hat]; rfl) rfl hwaiting houtcome⟩
  | signalReady w => exact absurd ⟨w, hat⟩ hready
  | checkTimeout w =>
      have hown : condEvents.own s t s' = [] := by simp only [condEvents.own, hat]
      rw [hat] at hrun hwaiting houtcome
      simp only [ExecutionTracker.runSection, ExecutionTracker.checkTimeout] at hrun
      split at hrun
      · rename_i hsignalled
        cases hrun
        rw [hown]
        refine ⟨a, .nil a, hsame (by rw [hat]; rfl) rfl hwaiting ?_⟩
        rw [houtcome]
        simp only [Pc.outcome, hsignalled, Bool.not_true]
      · cases hrun
  | simulateSignal addr cond isBroadcast =>
      have hown : condEvents.own s t s' = [] := by simp only [condEvents.own, hat]
      rw [hown]
      exact ⟨a, .nil a, Conds.simulateSignal hserial h addr cond isBroadcast hat hrun⟩
  | handoff sig u =>
      rw [hat] at hrun
      simp only [ExecutionTracker.runSection, ExecutionTracker.scheduleThreadWaitingOnCond,
        safe_assert_bind] at hrun
      cases hrun.2
  | waitReady sig u =>
      have hown : condEvents.own s t s' = [] := by simp only [condEvents.own, hat]
      rw [hown]
      exact ⟨a, .nil a, Conds.waitReady hserial h sig u hat hrun⟩
  | signalDone addr isBroadcast => rw [hat] at hrun; cases hrun
  | resume k =>
      cases k with
      | relock w timedOut =>
          rw [hat] at hnext hwaiting houtcome
          obtain rfl : pc' = .program (if timedOut then ETIMEDOUT else OPERATION_SUCCESSFUL) :=
            hnext
          have hown : condEvents.own s t s' =
              [.ret t (if timedOut then ETIMEDOUT else OPERATION_SUCCESSFUL)] := by
            simp only [condEvents.own, hat, hself]
          have hfree := h.call_none hc (by rw [hat]; rfl)
          rw [hown]
          refine ⟨_, Runs.single _ _ _ (.ret t _ houtcome), h.goOn hc _ hmapSignalled hmapReady
            (fun _ _ => rfl) (fun u hu => Function.update_of_ne hu _ _) hwaiting
            (Function.update_self _ _ _) trivial fun k hk => ?_⟩
          have hk' : a.call = some k := hk
          rw [hfree] at hk'
          cases hk'
      | _ =>
          rw [hat] at hquiet
          exact absurd rfl hquiet
  | _ =>
      rw [hat] at hpc hquiet
      first
        | exact absurd hpc Bool.false_ne_true
        | exact absurd rfl hquiet

-- The new thread is neither in a wait nor in a call.
theorem Conds.created (hserial : Serial s (.running t)) (h : Conds s.tracker s.pcs a) {pc' : Pc}
    (child : ThrID) (hrun : s.tracker.runSection t (s.pcs t) = .ok (tr, .created child pc')) :
    Runs CondVars.Rule a (condEvents.own s t s') a ∧
      Conds tr (Function.update (Function.update s.pcs child .created) t pc') a := by
  obtain ⟨addr, ret_val, hat, rfl⟩ := ExecutionTracker.runSection_follows _ hrun
  have hc := hserial.controlled
  have hnew : s.pcs child = .unborn := (hc.child t addr child ret_val hat).1
  have hfree := h.call_none hc (by rw [hat]; rfl)
  have hown : condEvents.own s t s' = [] := by simp only [condEvents.own, hat]
  have htr : tr = s.tracker.initializeThreadData child := by
    rw [hat] at hrun
    cases hrun
    rfl
  rw [hown, htr]
  refine ⟨.nil a, fun u => ?_, fun u => ?_, fun u => ?_, fun k hk => ?_⟩
  · rw [h.waiting u]
    by_cases hut : u = t
    · rw [hut, Function.update_self, hat]
      rfl
    · rw [Function.update_of_ne hut]
      by_cases huc : u = child
      · rw [huc, Function.update_self, hnew]
        rfl
      · rw [Function.update_of_ne huc]
        simp only [ExecutionTracker.initializeThreadData, Function.update_of_ne huc,
          ExecutionTracker.enableThread]
  · rw [h.outcome u]
    by_cases hut : u = t
    · rw [hut, Function.update_self, hat]
      rfl
    · rw [Function.update_of_ne hut]
      by_cases huc : u = child
      · rw [huc, Function.update_self, hnew]
        rfl
      · rw [Function.update_of_ne huc]
        simp only [ExecutionTracker.initializeThreadData, Function.update_of_ne huc,
          ExecutionTracker.enableThread]
  · apply Pc.calls_of_not_inCall
    by_cases hut : u = t
    · rw [hut, Function.update_self]
      rfl
    · rw [Function.update_of_ne hut]
      by_cases huc : u = child
      · rw [huc, Function.update_self]
        rfl
      · rw [Function.update_of_ne huc]
        exact Conds.not_inCall hc u hut
  · rw [hfree] at hk
    cases hk

-- A signal has its thread.
theorem Conds.signalChoice (hserial : Serial s (.running t)) (h : Conds s.tracker s.pcs a)
    (sig : SignalPointInfo) (u : ThrID)
    (hrun : s.tracker.runSection t (s.pcs t) = .ok (tr, .signalChoice sig))
    (hpc : (s.pcs t).isSection = true) :
    Runs CondVars.Rule a (condEvents.own s t s') a ∧
      Conds tr (Function.update s.pcs t (.handoff sig u)) a := by
  obtain ⟨_, hposts, _⟩ := ExecutionTracker.runSection_follows _ hrun
  have heq : tr.posts = s.tracker.posts := ExecutionTracker.posts_runSection _ hposts hrun
  have hnext := ExecutionTracker.runSection_leads _ hpc hrun u
  have hcalled := h.called t
  rcases hnext.of_handoff hpc with ⟨addr, hat⟩ | ⟨info, x, hat⟩
  · have hown : condEvents.own s t s' = [] := by simp only [condEvents.own, hat]
    rw [hat] at hcalled
    have hcall : a.call = some
        { caller := t, cond := sig.cond, isBroadcast := sig.isBroadcast, before := a.waiting } :=
      hcalled
    rw [hown]
    refine ⟨.nil a, h.goOn hserial.controlled _ (congrArg Posts.signalled heq)
      (congrArg Posts.ready heq) (fun _ _ => rfl) (fun _ _ => rfl) ?_ ?_ ?_ fun k hk => ?_⟩
    · rw [h.waiting t, hat]
      rfl
    · rw [h.outcome t, hat]
      rfl
    · refine ⟨_, hcall, rfl, rfl, rfl, ⟨fun u => ?_, nofun⟩, fun _ => rfl⟩
      exact (if_neg List.not_mem_nil).symm
    · rw [hcall] at hk
      cases hk
      exact ⟨rfl, rfl⟩
  · rw [hat] at hrun
    simp only [ExecutionTracker.runSection, ExecutionTracker.waitThreadReady] at hrun
    split at hrun
    · split at hrun
      · cases hrun
      · cases hrun
    · cases hrun

-- The thread that is handed the condition is removed from those that wait.
theorem Conds.signalled (hserial : Serial s (.running t)) (h : Conds s.tracker s.pcs a)
    (sig : SignalPointInfo) (u : ThrID) {tracker : ExecutionTracker}
    (hrun : s.tracker.runSection t (s.pcs t) = .ok (tr, .signalled sig u))
    (hwake : tr.waitWakeThread u = .ok tracker) :
    ∃ a', Runs CondVars.Rule a (condEvents.own s t s') a' ∧
      Conds tracker (Function.update s.pcs t (.waitReady sig u)) a' := by
  obtain ⟨hat, hcond⟩ := ExecutionTracker.runSection_follows _ hrun
  have hc := hserial.controlled
  have hown : condEvents.own s t s' = [.remove t u] := by simp only [condEvents.own, hat]
  have htr : tr = s.tracker.setWaitReady u false := by
    rw [hat] at hrun
    simp only [ExecutionTracker.runSection, ExecutionTracker.scheduleThreadWaitingOnCond,
      safe_assert_bind] at hrun
    cases hrun.2
    rfl
  have hflags : tracker.was_signalled_map = s.tracker.was_signalled_map ∧
      tracker.wait_ready_map = Function.update s.tracker.wait_ready_map u false := by
    rw [htr] at hwake
    simp only [ExecutionTracker.waitWakeThread] at hwake
    split at hwake
    · cases hwake
      exact ⟨rfl, rfl⟩
    · cases hwake
  have hcalled := h.called t
  rw [hat] at hcalled
  obtain ⟨k, hk, rfl, hkcond, hbroadcast, hprogress, hsignal⟩ := hcalled
  rw [hc.copy k.caller sig u hat, ← hkcond] at hcond
  obtain ⟨timed, hwaits⟩ := (waiting_iff hserial h (by rw [hat]; rfl) u k.cond).mp hcond
  have hut : u ≠ k.caller := by
    intro hut
    rw [hut, h.waiting, hat] at hwaits
    cases hwaits
  have hnot : u ∉ k.removed := by
    intro hmem
    rw [hprogress.1 u, if_pos hmem] at hwaits
    cases hwaits
  -- where the thread is
  obtain ⟨w, hheading, _, _⟩ := Pc.waits_eq_some ((h.waiting u).symm.trans hwaits)
  have hplace (ready : Bool) : ((s.pcs u).waits true ready = if ready then
      some (w.cond, w.timed) else none) ∧ (s.pcs u).outcome true ready =
        if ready then none else some OPERATION_SUCCESSFUL := by
    have hheading := Pc.heading_wait_congr hheading true
    cases hpc : s.pcs u with
    | launched r => rw [hpc] at hheading; cases hheading; cases ready <;> exact ⟨rfl, rfl⟩
    | leaving r => rw [hpc] at hheading; cases hheading; cases ready <;> exact ⟨rfl, rfl⟩
    | blocked r => rw [hpc] at hheading; cases hheading; cases ready <;> exact ⟨rfl, rfl⟩
    | _ => rw [hpc] at hheading; cases hheading
  have hborn : s.pcs u ≠ .unborn := by
    intro hborn
    rw [hborn] at hheading
    cases hheading
  have hset : s.tracker.was_signalled_map u = true := by
    rw [hc.signalled u hborn]
    simp [Control.timedOut, hut]
  rw [hown]
  refine ⟨_, Runs.single _ _ _ (.remove k u timed hk hwaits), fun x => ?_, fun x => ?_, fun x => ?_,
    fun k' hk' => ?_⟩
  · show Function.update a.waiting u none x = _
    rw [hflags.1, hflags.2]
    by_cases hxu : x = u
    · rw [hxu, Function.update_self, Function.update_self, Function.update_of_ne hut, hset,
        (hplace false).1]
      rfl
    · rw [Function.update_of_ne hxu, Function.update_of_ne hxu, h.waiting x]
      by_cases hxt : x = k.caller
      · rw [hxt, Function.update_self, hat]
        rfl
      · rw [Function.update_of_ne hxt]
  · show Function.update a.outcome u (some OPERATION_SUCCESSFUL) x = _
    rw [hflags.1, hflags.2]
    by_cases hxu : x = u
    · rw [hxu, Function.update_self, Function.update_self, Function.update_of_ne hut, hset,
        (hplace false).2]
      rfl
    · rw [Function.update_of_ne hxu, Function.update_of_ne hxu, h.outcome x]
      by_cases hxt : x = k.caller
      · rw [hxt, Function.update_self, hat]
        rfl
      · rw [Function.update_of_ne hxt]
  · by_cases hxt : x = k.caller
    · rw [hxt, Function.update_self]
      refine ⟨_, rfl, rfl, hkcond, hbroadcast, ⟨fun y => ?_, fun y hy => ?_⟩, fun hsig => ?_⟩
      · show Function.update a.waiting u none y = if y ∈ k.removed ++ [u] then none else k.before y
        by_cases hyu : y = u
        · rw [hyu, Function.update_self, if_pos (List.mem_append_right _ (List.mem_singleton_self u))]
        · have hiff : y ∈ k.removed ++ [u] ↔ y ∈ k.removed := by simp [hyu]
          rw [Function.update_of_ne hyu, hprogress.1 y]
          simp only [hiff]
      · rcases List.mem_append.mp hy with hy | hy
        · exact hprogress.2 y hy
        · rw [List.mem_singleton.mp hy]
          refine ⟨timed, ?_⟩
          rw [hprogress.1 u, if_neg hnot] at hwaits
          exact hwaits
      · show k.removed ++ [u] = [u]
        rw [hsignal hsig, List.nil_append]
    · rw [Function.update_of_ne hxt]
      exact Pc.calls_of_not_inCall (Conds.not_inCall hc x hxt)
  · cases hk'
    show (Function.update s.pcs k.caller (.waitReady sig u) k.caller).inCall = true
    rw [Function.update_self]
    rfl

-- The sections of the thread that runs.
theorem Conds.runner (hserial : Serial s (.running t)) (h : Conds s.tracker s.pcs a)
    (hpc : (s.pcs t).isSection = true)
    (hrunning : (s.runThread v t (s.pcs t)).stopped = none) :
    ∃ a', Runs CondVars.Rule a (condEvents s t (s.runThread v t (s.pcs t))) a' ∧
      Conds (s.runThread v t (s.pcs t)).tracker (s.runThread v t (s.pcs t)).pcs a' := by
  have hc := hserial.controlled
  obtain ⟨tr, eff, hrun, hperformed⟩ := runThread_performed (s.pcs t) hrunning
  have hne (u : ThrID) (hu : u ≠ t) : Control.running t ≠ .running u := by
    intro heq
    exact hu (Control.running.inj heq).symm
  have hstages := hserial.consistent.runSection (s.pcs t) rfl
    (fun u hu k => hc.no_resume hne u hu k)
    (fun ra child rv heq => by rw [(hc.child t ra child rv heq).1]; rfl) hrun
  -- the sections that do not end with a schedule point
  have hown (heff : ∀ info r, eff ≠ .schedule info r) :
      condEvents s t (s.runThread v t (s.pcs t)) =
        condEvents.own s t (s.runThread v t (s.pcs t)) := by
    rw [condEvents, launched_of_effect hrun heff hrunning, List.append_nil]
  cases eff with
  | goto pc' =>
      obtain ⟨htracker, hpcs⟩ := hperformed.goto_eq
      rw [hown nofun, htracker, hpcs]
      exact Conds.goto hserial h hpc hrun (by rw [hpcs, Function.update_self])
  | created child pc' =>
      obtain ⟨htracker, hpcs⟩ := hperformed.created_eq
      rw [hown nofun, htracker, hpcs]
      exact ⟨a, Conds.created hserial h child hrun⟩
  | signalChoice sig =>
      obtain ⟨htracker, u, hpcs⟩ := hperformed.signalChoice_eq
      rw [hown nofun, htracker, hpcs]
      exact ⟨a, Conds.signalChoice hserial h sig u hrun hpc⟩
  | signalled sig u =>
      obtain ⟨hwake, hpcs⟩ := hperformed.signalled_eq
      rw [hown nofun, hpcs]
      exact Conds.signalled hserial h sig u hrun hwake
  | schedule info r =>
      obtain ⟨target, tracker, henabled, hlaunch, htracker, hpcs, hlaunched⟩ :=
        runThread_scheduled hrun hrunning
      obtain ⟨hthread, _⟩ := ExecutionTracker.runSection_follows _ hrun
      rw [hthread] at hlaunch
      obtain ⟨⟨c', hcontrolled, hcase⟩, hconsistent, _⟩ :=
        hc.schedule hpc hrun hstages henabled hlaunch
      rw [← htracker, ← hpcs] at hcontrolled hconsistent
      obtain ⟨a1, hruns1, hfree, hwaiting, houtcome⟩ := Conds.beforeLaunch hserial h hpc hrun hpcs
      obtain ⟨a', hruns, hconds⟩ :=
        Conds.scheduled target hcontrolled hconsistent hcase hwaiting houtcome hfree
      refine ⟨a', ?_, hconds⟩
      rw [condEvents, hlaunched]
      exact hruns1.append hruns

-- The sections of a thread that has been removed, up to its next pause.
theorem Conds.server {x : ThrID} (hserial : Serial s (.serving t x)) (h : Conds s.tracker s.pcs a)
    (w : Wait) (hpc : s.pcs t = .woken w ∨ s.pcs t = .relock w ∨ s.pcs t = .signalReady w)
    {pc' : Pc} (hrun : s.tracker.runSection t (s.pcs t) = .ok (tr, .goto pc')) :
    Conds tr (Function.update s.pcs t pc') a := by
  have hsection : (s.pcs t).isSection = true := by
    rcases hpc with hpc | hpc | hpc <;> rw [hpc] <;> rfl
  have hnext : (s.pcs t).Next pc' := ExecutionTracker.runSection_leads _ hsection hrun
  have hborn : s.pcs t ≠ .unborn := by
    rcases hpc with hpc | hpc | hpc <;> rw [hpc] <;> nofun
  have hsignalled : s.tracker.was_signalled_map t = true := hserial.controlled.signalled t hborn
  rcases hpc with hat | hat | hat
  · obtain ⟨_, _, hmapReady, hmapSignalled, _⟩ :=
      Controlled.posts_goto (s.pcs t) pc' (fun w hw => by rw [hat] at hw; cases hw) hrun
    rw [hat] at hnext
    obtain rfl : pc' = .relock w := hnext
    refine h.still t _ hmapSignalled (fun u _ => by rw [hmapReady]) (by rw [hat]; rfl) rfl ?_ ?_
    · rw [hat]
      rfl
    · rw [hat]
      rfl
  · obtain ⟨_, _, hmapReady, hmapSignalled, _⟩ :=
      Controlled.posts_goto (s.pcs t) pc' (fun w hw => by rw [hat] at hw; cases hw) hrun
    rw [hat] at hnext
    obtain rfl : pc' = .signalReady w := hnext
    refine h.still t _ hmapSignalled (fun u _ => by rw [hmapReady]) (by rw [hat]; rfl) rfl ?_ ?_
    · rw [hat]
      rfl
    · rw [hat]
      rfl
  · rw [hat] at hrun
    cases hrun
    refine h.still t _ rfl (fun u hu => Function.update_of_ne hu _ _) (by rw [hat]; rfl) ?_ ?_ ?_
    · split
      · rfl
      · rfl
    · rw [hat]
      split
      · rfl
      · rfl
    · rw [hat, hsignalled]
      split
      · rfl
      · rfl

-- A section of any thread.
theorem Conds.runThread (hserial : Serial s c) (h : Conds s.tracker s.pcs a)
    (hpc : (s.pcs t).isSection = true) (hready : s.ready (s.pcs t) = true)
    (hrunning : (s.runThread v t (s.pcs t)).stopped = none) :
    ∃ a', Runs CondVars.Rule a (condEvents s t (s.runThread v t (s.pcs t))) a' ∧
      Conds (s.runThread v t (s.pcs t)).tracker (s.runThread v t (s.pcs t)).pcs a' := by
  rcases hserial.controlled.section_cases hpc (fun sig u hat => by rw [hat] at hready; exact hready)
    with rfl | ⟨w, hat, hsignalled, hne⟩ | ⟨x, w, rfl, hat⟩
  · exact Conds.runner hserial h hpc hrunning
  · obtain ⟨tr, eff, hrun, hperformed⟩ := runThread_performed (s.pcs t) hrunning
    have hrun' := hrun
    rw [hat] at hrun'
    simp only [ExecutionTracker.runSection, ExecutionTracker.checkTimeout, if_pos hsignalled]
      at hrun'
    cases hrun'
    obtain ⟨htracker, hpcs⟩ := hperformed.goto_eq
    have hown : condEvents s t (s.runThread v t (s.pcs t)) = [] := by
      rw [condEvents, launched_of_effect hrun (by rintro _ _ ⟨⟩) hrunning]
      simp only [condEvents.own, hat, List.append_nil]
    rw [hown, htracker, hpcs]
    refine ⟨a, .nil a, h.still t _ rfl (fun _ _ => rfl) (by rw [hat]; rfl) rfl ?_ ?_⟩
    · rw [hat]
      rfl
    · rw [hat, hsignalled]
      rfl
  · obtain ⟨tr, eff, hrun, hperformed⟩ := runThread_performed (s.pcs t) hrunning
    have hgoto : ∃ pc', eff = .goto pc' := by
      rcases hat with hat | hat | hat
      · rw [hat] at hrun
        cases hrun
        exact ⟨_, rfl⟩
      · rw [hat] at hrun
        simp only [ExecutionTracker.runSection, ExecutionTracker.beforeMutexLockInWait,
          safe_assert_bind] at hrun
        cases hrun.2
        exact ⟨_, rfl⟩
      · rw [hat] at hrun
        cases hrun
        exact ⟨_, rfl⟩
    obtain ⟨pc', rfl⟩ := hgoto
    obtain ⟨htracker, hpcs⟩ := hperformed.goto_eq
    have hown : condEvents s t (s.runThread v t (s.pcs t)) = [] := by
      rw [condEvents, launched_of_effect hrun (by rintro _ _ ⟨⟩) hrunning]
      rcases hat with hat | hat | hat
      · simp only [condEvents.own, hat, List.append_nil]
      · simp only [condEvents.own, hat, List.append_nil]
      · simp only [condEvents.own, hat, List.append_nil]
    rw [hown, htracker, hpcs]
    exact ⟨a, .nil a, Conds.server hserial h w hat hrun⟩

-- Every step is what the rules allow.
theorem Conds.step (hserial : Serial s c) (h : Conds s.tracker s.pcs a)
    (hstep : s.step v t ret_addr op = some s') (hrunning : s'.stopped = none) :
    ∃ a', Runs CondVars.Rule a (condEvents s t s') a' ∧ Conds s'.tracker s'.pcs a' := by
  obtain ⟨_, htransition⟩ := step_iff.mp hstep
  -- the steps that are not sections
  have hquiet (hpc : (s.pcs t).isSection = false) (hlog : s'.log = s.log)
      (hconds : Conds s'.tracker s'.pcs a) :
      ∃ a', Runs CondVars.Rule a (condEvents s t s') a' ∧ Conds s'.tracker s'.pcs a' := by
    have hnone : condEvents s t s' = [] := by
      have hown : condEvents.own s t s' = [] := by
        unfold condEvents.own
        split <;> first
          | rfl
          | rename_i hat
            rw [hat] at hpc
            cases hpc
          | rename_i hat _
            rw [hat] at hpc
            cases hpc
      rw [condEvents, hown, condEvents.launched, hlog, List.drop_length]
      rfl
    rw [hnone]
    exact ⟨a, .nil a, hconds⟩
  have hrest (r : Rest) (signalled ready : Bool) :
      (Pc.leaving r).waits signalled ready = (Pc.launched r).waits signalled ready ∧
      (Pc.leaving r).outcome signalled ready = (Pc.launched r).outcome signalled ready ∧
      (Pc.blocked r).waits signalled ready = (Pc.leaving r).waits signalled ready ∧
      (Pc.blocked r).outcome signalled ready = (Pc.leaving r).outcome signalled ready := by
    cases r with
    | pause k => cases k <;> exact ⟨rfl, rfl, rfl, rfl⟩
    | wait w => exact ⟨rfl, rfl, rfl, rfl⟩
    | exit => exact ⟨rfl, rfl, rfl, rfl⟩
  cases htransition with
  | asks ret_val hat =>
      refine hquiet (by rw [hat]; rfl) rfl ?_
      exact h.still t _ rfl (fun _ _ => rfl) (by rw [hat]; rfl) rfl (by rw [hat]; rfl)
        (by rw [hat]; rfl)
  | spawns addr child hat =>
      have hchild := hserial.controlled.spawn t addr child _ hat
      have hne : t ≠ child := by
        rintro rfl
        rw [hat] at hchild
        cases hchild
      refine hquiet (by rw [hat]; rfl) rfl ?_
      have hstarted := h.still child .threadStart rfl (fun _ _ => rfl) (by rw [hchild]; rfl) rfl
        (by rw [hchild]; rfl) (by rw [hchild]; rfl)
      have hself : Function.update s.pcs child .threadStart t =
          .spawn addr child OPERATION_SUCCESSFUL := by
        rw [Function.update_of_ne hne, hat]
      exact hstarted.still t _ rfl (fun _ _ => rfl) (by rw [hself]; rfl) rfl (by rw [hself]; rfl)
        (by rw [hself]; rfl)
  | starts hat hlock =>
      refine hquiet (by rw [hat]; rfl) rfl ?_
      exact h.still t _ rfl (fun _ _ => rfl) (by rw [hat]; rfl) rfl (by rw [hat]; rfl)
        (by rw [hat]; rfl)
  | unlocks r hat =>
      refine hquiet (by rw [hat]; rfl) rfl ?_
      refine h.still t _ rfl (fun _ _ => rfl) (by rw [hat]; rfl) rfl ?_ ?_
      · rw [hat]
        exact (hrest r _ _).1
      · rw [hat]
        exact (hrest r _ _).2.1
  | leaves r hat hlock =>
      refine hquiet (by rw [hat]; rfl) rfl ?_
      refine h.still t _ rfl (fun _ _ => rfl) (by rw [hat]; rfl) rfl ?_ ?_
      · rw [hat]
        exact (hrest r _ _).2.2.1
      · rw [hat]
        exact (hrest r _ _).2.2.2
  | resumes k n hat hsem =>
      refine hquiet (by rw [hat]; rfl) rfl ?_
      refine h.still t _ rfl (fun _ _ => rfl) (by rw [hat]; rfl) rfl (by rw [hat]; rfl) ?_
      rw [hat]
      cases k <;> rfl
  | wakes w n hat hsem =>
      refine hquiet (by rw [hat]; rfl) rfl ?_
      have hborn : s.pcs t ≠ .unborn := by rw [hat]; nofun
      have hsignalled := hserial.controlled.signalled t hborn
      have hready := hserial.controlled.ready t hborn
      -- the scheduler or a signaller has let it go
      have hflags : (s.tracker.was_signalled_map t && s.tracker.wait_ready_map t) = false := by
        obtain ⟨c', _, ⟨rfl, _⟩ | ⟨x, rfl, _⟩⟩ := hserial.controlled.takeWaitSem w n hat hsem
        · rw [hsignalled]
          simp [Control.timedOut]
        · rw [hready]
          simp [Control.served]
      refine h.still t _ rfl (fun _ _ => rfl) (by rw [hat]; rfl) rfl ?_ ?_
      · rw [hat]
        show none = if _ then _ else none
        rw [if_neg (by rw [hflags]; exact Bool.false_ne_true)]
      · rw [hat]
        show some _ = if _ then none else some _
        rw [if_neg (by rw [hflags]; exact Bool.false_ne_true)]
  | runs hsection hlock hready => exact Conds.runThread hserial h hsection hready hrunning

end System

end Thrille
