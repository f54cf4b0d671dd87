import Thrille.Serializer.Traced

namespace Thrille

-- What happens to the waits for conditions: one begins, a thread calls `pthread_cond_signal` or
-- `pthread_cond_broadcast`, removes a waiting thread and is done with its call, the scheduler
-- launches a thread that waits, and a wait returns.
inductive CondEvent
  | wait (t : ThrID) (cond : Addr) (timed : Bool)
  | call (t : ThrID) (cond : Addr) (isBroadcast : Bool)
  | remove (t u : ThrID)
  | done (t : ThrID)
  | launch (u : ThrID)
  | ret (t : ThrID) (ret_val : Int)
  deriving DecidableEq, Repr

-- A call under way, with the waits that there were when it was made.
structure CondCall where
  caller : ThrID
  cond : Addr
  isBroadcast : Bool
  before : ThrID → Option (Addr × Bool)
  removed : List ThrID := []

namespace CondCall

variable (self : CondCall)

def Waited (u : ThrID) : Prop := ∃ timed, self.before u = some (self.cond, timed)

-- A broadcast has removed those that waited, and a signal exactly one if there were any.
def Served : Prop :=
  if self.isBroadcast then ∀ u, u ∈ self.removed ↔ self.Waited u
  else (∃ u, self.Waited u) → ∃ u, self.removed = [u]

end CondCall

-- The conditions. `waiting` is what a thread waits for and whether its wait is timed, and
-- `outcome` is what a wait that is over and has not returned will return.
structure CondVars where
  waiting : ThrID → Option (Addr × Bool) := fun _ => none
  outcome : ThrID → Option Int := fun _ => none
  call : Option CondCall := none

namespace CondVars

inductive Rule (self : CondVars) : CondEvent → CondVars → Prop
  | wait (t : ThrID) (cond : Addr) (timed : Bool) (hfree : self.call = none)
      (hwaiting : self.waiting t = none) (houtcome : self.outcome t = none) :
      Rule self (.wait t cond timed) { self with
        waiting := Function.update self.waiting t (some (cond, timed)) }
  | call (t : ThrID) (cond : Addr) (isBroadcast : Bool) (hfree : self.call = none) :
      Rule self (.call t cond isBroadcast) { self with
        call := some { caller := t, cond, isBroadcast, before := self.waiting } }
  | remove (k : CondCall) (u : ThrID) (timed : Bool) (hcall : self.call = some k)
      (hwaits : self.waiting u = some (k.cond, timed)) :
      Rule self (.remove k.caller u) {
        waiting := Function.update self.waiting u none
        outcome := Function.update self.outcome u (some OPERATION_SUCCESSFUL)
        call := some { k with removed := k.removed ++ [u] } }
  | done (k : CondCall) (hcall : self.call = some k) (hserved : k.Served) :
      Rule self (.done k.caller) { self with call := none }
  | launch (u : ThrID) (cond : Addr) (hfree : self.call = none)
      (hwaits : self.waiting u = some (cond, true)) :
      Rule self (.launch u) { self with
        waiting := Function.update self.waiting u none
        outcome := Function.update self.outcome u (some ETIMEDOUT) }
  | ret (t : ThrID) (ret_val : Int) (houtcome : self.outcome t = some ret_val) :
      Rule self (.ret t ret_val) { self with outcome := Function.update self.outcome t none }

end CondVars

namespace CondEvent

-- What is about the waits of thread `t`.
def concerns (t : ThrID) : CondEvent → Bool
  | wait u _ _ => u == t
  | remove _ u => u == t
  | launch u => u == t
  | ret u _ => u == t
  | _ => false

-- The last wait of thread `t` has not ended.
def Open (past : List CondEvent) (t : ThrID) (cond : Addr) (timed : Bool) : Prop :=
  ∃ front back, past = front ++ wait t cond timed :: back ∧ ∀ e ∈ back, e.concerns t = false

-- It has ended: a signaller has removed the thread, or the wait is timed and the scheduler has
-- launched the thread.
def Ended (past : List CondEvent) (t : ThrID) (ret_val : Int) : Prop :=
  ∃ front cond timed middle last back,
    past = front ++ wait t cond timed :: (middle ++ last :: back) ∧
    (∀ e ∈ middle ++ back, e.concerns t = false) ∧
    ((∃ caller, last = remove caller t) ∧ ret_val = OPERATION_SUCCESSFUL ∨
      last = launch t ∧ timed = true ∧ ret_val = ETIMEDOUT)

variable {past : List CondEvent} {t : ThrID} {cond : Addr} {timed : Bool} {ret_val : Int}
  {e : CondEvent}

theorem Open.snoc (h : Open past t cond timed) (he : e.concerns t = false) :
    Open (past ++ [e]) t cond timed := by
  obtain ⟨front, back, rfl, hback⟩ := h
  refine ⟨front, back ++ [e], by simp, fun x hx => ?_⟩
  rcases List.mem_append.mp hx with hx | hx
  · exact hback x hx
  · rw [List.mem_singleton.mp hx]
    exact he

theorem Ended.snoc (h : Ended past t ret_val) (he : e.concerns t = false) :
    Ended (past ++ [e]) t ret_val := by
  obtain ⟨front, cond, timed, middle, last, back, rfl, hquiet, hlast⟩ := h
  refine ⟨front, cond, timed, middle, last, back ++ [e], by simp, fun x hx => ?_, hlast⟩
  rw [← List.append_assoc] at hx
  rcases List.mem_append.mp hx with hx | hx
  · exact hquiet x hx
  · rw [List.mem_singleton.mp hx]
    exact he

theorem Open.end (h : Open past t cond timed)
    (hover : (∃ caller, e = remove caller t) ∧ ret_val = OPERATION_SUCCESSFUL ∨
      e = launch t ∧ timed = true ∧ ret_val = ETIMEDOUT) : Ended (past ++ [e]) t ret_val := by
  obtain ⟨front, back, rfl, hback⟩ := h
  exact ⟨front, cond, timed, back, e, [], by simp, by simpa using hback, hover⟩

end CondEvent

namespace CondVars

open Traces

-- What the state says of the past.
structure Recalls (past : List CondEvent) (a : CondVars) : Prop where
  waiting : ∀ t cond timed, a.waiting t = some (cond, timed) → CondEvent.Open past t cond timed
  outcome : ∀ t ret_val, a.outcome t = some ret_val → CondEvent.Ended past t ret_val
  either : ∀ t, a.waiting t = none ∨ a.outcome t = none

theorem Recalls.step {past : List CondEvent} {a a' : CondVars} {e : CondEvent}
    (h : Recalls past a) (hrule : Rule a e a') : Recalls (past ++ [e]) a' := by
  -- the threads that the event is not about
  have hothers (u : ThrID) (he : e.concerns u = false) (hwaiting : a'.waiting u = a.waiting u)
      (houtcome : a'.outcome u = a.outcome u) :
      (∀ cond timed, a'.waiting u = some (cond, timed) →
        CondEvent.Open (past ++ [e]) u cond timed) ∧
      (∀ ret_val, a'.outcome u = some ret_val → CondEvent.Ended (past ++ [e]) u ret_val) ∧
      (a'.waiting u = none ∨ a'.outcome u = none) := by
    rw [hwaiting, houtcome]
    exact ⟨fun cond timed hu => (h.waiting u cond timed hu).snoc he,
      fun ret_val hu => (h.outcome u ret_val hu).snoc he, h.either u⟩
  have hall (hthread : ∀ u, (∀ cond timed, a'.waiting u = some (cond, timed) →
        CondEvent.Open (past ++ [e]) u cond timed) ∧
      (∀ ret_val, a'.outcome u = some ret_val → CondEvent.Ended (past ++ [e]) u ret_val) ∧
      (a'.waiting u = none ∨ a'.outcome u = none)) : Recalls (past ++ [e]) a' :=
    ⟨fun u => (hthread u).1, fun u => (hthread u).2.1, fun u => (hthread u).2.2⟩
  apply hall
  intro u
  cases hrule with
  | wait t cond timed hfree hwaiting houtcome =>
      by_cases hut : u = t
      · subst hut
        refine ⟨fun cond' timed' hu => ?_, fun ret_val hu => ?_, Or.inr houtcome⟩
        · have hu' : some (cond, timed) = some (cond', timed') :=
            (Function.update_self u _ a.waiting).symm.trans hu
          cases hu'
          exact ⟨past, [], rfl, by simp⟩
        · have hu' : a.outcome u = some ret_val := hu
          rw [houtcome] at hu'
          cases hu'
      · exact hothers u (beq_eq_false_iff_ne.mpr (Ne.symm hut)) (Function.update_of_ne hut _ _) rfl
  | call t cond isBroadcast hfree => exact hothers u rfl rfl rfl
  | remove k t timed hcall hwaits =>
      by_cases hut : u = t
      · subst hut
        have hnone : Function.update a.waiting u none u = none := Function.update_self _ _ _
        refine ⟨fun cond' timed' hu => ?_, fun ret_val hu => ?_, Or.inl hnone⟩
        · have hu' : none = some (cond', timed') := hnone.symm.trans hu
          cases hu'
        · have hu' : some OPERATION_SUCCESSFUL = some ret_val :=
            (Function.update_self u _ a.outcome).symm.trans hu
          cases hu'
          exact (h.waiting u k.cond timed hwaits).end (Or.inl ⟨⟨k.caller, rfl⟩, rfl⟩)
      · exact hothers u (beq_eq_false_iff_ne.mpr (Ne.symm hut)) (Function.update_of_ne hut _ _)
          (Function.update_of_ne hut _ _)
  | done k hcall hserved => exact hothers u rfl rfl rfl
  | launch t cond hfree hwaits =>
      by_cases hut : u = t
      · subst hut
        have hnone : Function.update a.waiting u none u = none := Function.update_self _ _ _
        refine ⟨fun cond' timed' hu => ?_, fun ret_val hu => ?_, Or.inl hnone⟩
        · have hu' : none = some (cond', timed') := hnone.symm.trans hu
          cases hu'
        · have hu' : some ETIMEDOUT = some ret_val :=
            (Function.update_self u _ a.outcome).symm.trans hu
          cases hu'
          exact (h.waiting u cond true hwaits).end (Or.inr ⟨rfl, rfl, rfl⟩)
      · exact hothers u (beq_eq_false_iff_ne.mpr (Ne.symm hut)) (Function.update_of_ne hut _ _)
          (Function.update_of_ne hut _ _)
  | ret t ret_val houtcome =>
      by_cases hut : u = t
      · subst hut
        have hwaiting : a.waiting u = none := by
          rcases h.either u with hnone | hnone
          · exact hnone
          · rw [houtcome] at hnone
            cases hnone
        have hnone : Function.update a.outcome u none u = none := Function.update_self _ _ _
        refine ⟨fun cond timed' hu => ?_, fun ret_val' hu => ?_, Or.inl hwaiting⟩
        · have hu' : a.waiting u = some (cond, timed') := hu
          rw [hwaiting] at hu'
          cases hu'
        · have hu' : none = some ret_val' := hnone.symm.trans hu
          cases hu'
      · exact hothers u (beq_eq_false_iff_ne.mpr (Ne.symm hut)) rfl (Function.update_of_ne hut _ _)

theorem Recalls.of_runs {past : List CondEvent} {a : CondVars} (h : Runs Rule {} past a) :
    Recalls past a := by
  apply h.induction_last
  · exact ⟨nofun, nofun, fun _ => Or.inl rfl⟩
  · exact fun _ _ _ _ hrecalls hrule => hrecalls.step hrule

-- A wait returns what its end says.
theorem ended_of_ret {past front back : List CondEvent} {a : CondVars} {t : ThrID} {ret_val : Int}
    (h : Runs Rule {} past a) (hpast : past = front ++ .ret t ret_val :: back) :
    CondEvent.Ended front t ret_val := by
  rw [hpast] at h
  obtain ⟨b, hfront, hback⟩ := h.of_append
  cases hback with
  | cons _ _ _ _ _ hrule _ =>
      cases hrule with
      | ret _ _ houtcome => exact (Recalls.of_runs hfront).outcome t ret_val houtcome

end CondVars

namespace Pc

-- What a thread waits for: neither a signaller nor the scheduler has let it go.
def waits (signalled ready : Bool) : Pc → Option (Addr × Bool)
  | launched (.wait w) => if signalled && ready then some (w.cond, w.timed) else none
  | leaving (.wait w) => if signalled && ready then some (w.cond, w.timed) else none
  | blocked (.wait w) => if signalled && ready then some (w.cond, w.timed) else none
  | _ => none

-- What a wait that is over will return.
def outcome (signalled ready : Bool) : Pc → Option Int
  | launched (.wait _) => ended signalled ready
  | leaving (.wait _) => ended signalled ready
  | blocked (.wait _) => ended signalled ready
  | woken _ => some (result (!signalled))
  | relock _ => some (result (!signalled))
  | signalReady _ => some (result (!signalled))
  | checkTimeout _ => some (result (!signalled))
  | launched (.pause (.relock _ timedOut)) => some (result timedOut)
  | leaving (.pause (.relock _ timedOut)) => some (result timedOut)
  | blocked (.pause (.relock _ timedOut)) => some (result timedOut)
  | resume (.relock _ timedOut) => some (result timedOut)
  | _ => none
where
  result (timedOut : Bool) : Int := if timedOut then ETIMEDOUT else OPERATION_SUCCESSFUL
  ended (signalled ready : Bool) : Option Int :=
    if signalled && ready then none else some (result (!signalled))

def inCall : Pc → Bool
  | simulateSignal .. => true
  | handoff .. => true
  | waitReady .. => true
  | signalDone .. => true
  | _ => false

end Pc

namespace System

variable {σ : Type}

-- What a step of thread `t` from `s` to `s'` is for the conditions.
def condEvents (s : System σ) (t : ThrID) (s' : System σ) : List CondEvent :=
  own ++ launched
where
  own : List CondEvent :=
    match s.pcs t, s'.pcs t with
    | .enter _ (.condSignal cond), _ => [.call t cond false]
    | .enter _ (.condBroadcast cond), _ => [.call t cond true]
    | .simulateWait w, _ => [.wait t w.cond w.timed]
    | .handoff _ u, _ => [.remove t u]
    | .signalDone .., _ => [.done t]
    | .resume (.relock ..), .program ret_val => [.ret t ret_val]
    | _, _ => []
  launched : List CondEvent :=
    match s'.log.schedule.drop s.log.schedule.length with
    | [.sched chosen ..] => if chosen ∈ s'.tracker.cond_map then [.launch chosen] else []
    | _ => []

end System

end Thrille
