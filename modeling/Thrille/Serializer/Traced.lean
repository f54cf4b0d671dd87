import Thrille.Lib.Traces
import Thrille.Serializer.Exclusion
import Thrille.Serializer.Flow
import Thrille.Serializer.Kept

namespace Thrille

open Traces

namespace System

variable {σ ε : Type} {v : Virtual σ} {s s' : System σ} {t : ThrID} {ret_addr : Addr} {op : Op}

-- What a section of thread `t` at `pc` leaves behind when the run goes on, by how it ends.
inductive Performed (t : ThrID) (pc : Pc) (tr : ExecutionTracker) (pcs : ThrID → Pc) :
    Effect → ExecutionTracker → (ThrID → Pc) → Prop
  | goto (pc' : Pc) : Performed t pc tr pcs (.goto pc') tr (Function.update pcs t pc')
  | created (child : ThrID) (pc' : Pc) : Performed t pc tr pcs (.created child pc') tr
      (Function.update (Function.update pcs child .created) t pc')
  | signalChoice (info : SignalPointInfo) (u : ThrID) :
      Performed t pc tr pcs (.signalChoice info) tr (Function.update pcs t (.handoff info u))
  | signalled (info : SignalPointInfo) (u : ThrID) (tracker : ExecutionTracker)
      (hwake : tr.waitWakeThread u = .ok tracker) :
      Performed t pc tr pcs (.signalled info u) tracker (Function.update pcs t (.waitReady info u))
  | schedule (info : SchedPointInfo) (r : Rest) (target : ThrID) (tracker : ExecutionTracker)
      (henabled : tr.isEnabled target = true)
      (hlaunch : (tr.recordScheduleInfo info.thread target).launch target = .ok tracker) :
      Performed t pc tr pcs (.schedule info r) (tracker.afterSchedule t pc)
        (Function.update pcs t (.launched r))

theorem perform_performed {pc : Pc} {eff : Effect}
    (hrunning : (s.perform v t pc eff).stopped = none) :
    Performed t pc s.tracker s.pcs eff (s.perform v t pc eff).tracker
      (s.perform v t pc eff).pcs := by
  cases eff with
  | goto pc' => exact .goto pc'
  | created child pc' => exact .created child pc'
  | signalChoice info =>
      simp only [perform] at hrunning ⊢
      split at hrunning
      · exact .signalChoice info _
      · split at hrunning
        · exact .signalChoice info _
        · cases hrunning
  | signalled info u =>
      simp only [perform] at hrunning ⊢
      split at hrunning
      · rename_i tracker hwake
        exact .signalled info u tracker hwake
      · cases hrunning
  | schedule info r =>
      simp only [perform] at hrunning ⊢
      split at hrunning
      · rename_i hstopped
        rw [hrunning] at hstopped
        cases hstopped
      · rename_i hstopped
        rw [if_neg hstopped]
        have hnone : (schedule v s info).stopped = none := by simpa using hstopped
        obtain ⟨target, fenmap, fromLog, log, scheduler, tracker, henabled, _, hlaunch, _, heq⟩ :=
          schedule_cases info hnone
        rw [heq]
        exact .schedule info r target tracker henabled hlaunch

theorem runThread_performed (pc : Pc) (hrunning : (s.runThread v t pc).stopped = none) :
    ∃ tr eff, s.tracker.runSection t pc = .ok (tr, eff) ∧
      Performed t pc tr s.pcs eff (s.runThread v t pc).tracker (s.runThread v t pc).pcs := by
  unfold runThread at hrunning ⊢
  cases hrun : s.tracker.runSection t pc with
  | error reason =>
      rw [hrun] at hrunning
      cases hrunning
  | ok result =>
      obtain ⟨tr, eff⟩ := result
      rw [hrun] at hrunning
      exact ⟨tr, eff, rfl, perform_performed (s := { s with
        tracker := tr
        barriers := s.barriers.observe t pc }) hrunning⟩

section Performed

variable {pc pc' : Pc} {tr tr' : ExecutionTracker} {pcs pcs' : ThrID → Pc}

theorem Performed.goto_eq (h : Performed t pc tr pcs (.goto pc') tr' pcs') :
    tr' = tr ∧ pcs' = Function.update pcs t pc' := by
  cases h
  exact ⟨rfl, rfl⟩

theorem Performed.created_eq {child : ThrID}
    (h : Performed t pc tr pcs (.created child pc') tr' pcs') :
    tr' = tr ∧ pcs' = Function.update (Function.update pcs child .created) t pc' := by
  cases h
  exact ⟨rfl, rfl⟩

theorem Performed.signalChoice_eq {info : SignalPointInfo}
    (h : Performed t pc tr pcs (.signalChoice info) tr' pcs') :
    tr' = tr ∧ ∃ u, pcs' = Function.update pcs t (.handoff info u) := by
  cases h with
  | signalChoice info u => exact ⟨rfl, u, rfl⟩

theorem Performed.signalled_eq {info : SignalPointInfo} {u : ThrID}
    (h : Performed t pc tr pcs (.signalled info u) tr' pcs') :
    tr.waitWakeThread u = .ok tr' ∧ pcs' = Function.update pcs t (.waitReady info u) := by
  cases h with
  | signalled info u tracker hwake => exact ⟨hwake, rfl⟩

theorem Performed.schedule_eq {info : SchedPointInfo} {r : Rest}
    (h : Performed t pc tr pcs (.schedule info r) tr' pcs') :
    pcs' = Function.update pcs t (.launched r) := by
  cases h with
  | schedule info r target tracker henabled hlaunch => rfl

end Performed

theorem Performed.waits {pc : Pc} {tr tr' : ExecutionTracker} {pcs pcs' : ThrID → Pc} {eff : Effect}
    (h : Performed t pc tr pcs eff tr' pcs') : tr'.waits = tr.waits := by
  cases h with
  | goto pc' => rfl
  | created child pc' => rfl
  | signalChoice info u => rfl
  | signalled info u tracker hwake => exact ExecutionTracker.waits_waitWakeThread u hwake
  | schedule info r target tracker henabled hlaunch =>
      rw [ExecutionTracker.waits_afterSchedule, ExecutionTracker.waits_launch target hlaunch,
        ExecutionTracker.waits_recordScheduleInfo]

theorem Performed.next {pc : Pc} {tr tr' : ExecutionTracker} {pcs pcs' : ThrID → Pc} {eff : Effect}
    (h : Performed t pc tr pcs eff tr' pcs') (hleads : eff.Leads pc) : pc.Next (pcs' t) := by
  cases h with
  | goto pc' => rwa [Function.update_self]
  | created child pc' => rwa [Function.update_self]
  | signalChoice info u =>
      rw [Function.update_self]
      exact hleads u
  | signalled info u tracker hwake => rwa [Function.update_self]
  | schedule info r target tracker henabled hlaunch => rwa [Function.update_self]

def Initial (s : System σ) : Prop := ∃ scheduler read_schedule, s = initial scheduler read_schedule

-- A step after which the run goes on, with what `events` makes of it.
def Shows (v : Virtual σ) (events : System σ → ThrID → System σ → List ε) (s : System σ)
    (shown : List ε) (s' : System σ) : Prop :=
  ∃ t ret_addr op, s.step v t ret_addr op = some s' ∧ s'.stopped = none ∧ shown = events s t s'

theorem serial_of_traced {events : System σ → ThrID → System σ → List ε} {past : List ε}
    (h : Traced Initial (Shows v events) s past) : ∃ c, Serial s c := by
  induction h with
  | initial s hstart =>
      obtain ⟨scheduler, read_schedule, rfl⟩ := hstart
      exact ⟨_, Serial.initial scheduler read_schedule⟩
  | step s s' past shown _ hstep ih =>
      obtain ⟨c, hserial⟩ := ih
      obtain ⟨t, ret_addr, op, hstep, hrunning, _⟩ := hstep
      rcases hserial.step hstep with hnext | hhalted
      · exact hnext
      · exact absurd hrunning hhalted.stopped

-- The events of a list of steps.
def shown (v : Virtual σ) (events : System σ → ThrID → System σ → List ε) :
    System σ → List (ThrID × Addr × Op) → List ε
  | _, [] => []
  | s, (t, ret_addr, op) :: steps =>
      (s.step v t ret_addr op).elim [] fun s' => events s t s' ++ shown v events s' steps

theorem traced_of_run {events : System σ → ThrID → System σ → List ε} {past : List ε}
    (steps : List (ThrID × Addr × Op)) (h : Traced Initial (Shows v events) s past)
    (hrun : s.run v steps = some s') (hrunning : s'.stopped = none) :
    Traced Initial (Shows v events) s' (past ++ shown v events s steps) := by
  induction steps generalizing s past with
  | nil =>
      cases hrun
      rw [shown, List.append_nil]
      exact h
  | cons next steps ih =>
      obtain ⟨t, ret_addr, op⟩ := next
      obtain ⟨middle, hstep, hrest⟩ := Option.bind_eq_some_iff.mp hrun
      have hstep' : s.step v t ret_addr op = some middle := hstep
      have hmiddle : middle.stopped = none := by
        cases steps with
        | nil =>
            cases hrest
            exact hrunning
        | cons next steps =>
            obtain ⟨_, hnext, _⟩ := Option.bind_eq_some_iff.mp hrest
            exact (step_iff.mp hnext).1
      have hnext := ih (h.step s middle past _ ⟨t, ret_addr, op, hstep', hmiddle, rfl⟩) hrest
      rw [List.append_assoc] at hnext
      rw [shown, hstep']
      exact hnext

end System

end Thrille
