import Thrille.Files.RoundTrip
import Thrille.Replay.Strict
import Thrille.Replay.Written

namespace Thrille

open Relation Text ExecutionTracker

-- A tracker whose log shows every thread that it launches.
def Lists {σ : Type} (v : Virtual σ) : Prop :=
  ∀ info target, info.enabled.getD target false = true → v.admits info target = true →
    target ∈ Logger.enabledThreads (v.logged info)

theorem Lists.chessTracker : Lists ChessTracker.virtual := fun _ _ _ hadmits =>
  (Logger.mem_enabledThreads _ _).mpr hadmits

-- Every signal has its schedule point.
def Logger.Whole (self : Logger) : Prop :=
  ∃ points : List LogPoint, self.schedule = points.flatMap LogPoint.decisions ∧
    ∀ p ∈ points, p.Recorded

namespace System

variable {σ : Type} {v : Virtual σ} {s s' : System σ} {t x : ThrID} {ret_addr addr : Addr} {op : Op}
  {c : Control} {tr : ExecutionTracker} {eff : Effect} {points : List LogPoint}
  {rest : Option (ThrID × SignalEntry)}

-- While a thread runs no other one has a signal open.
theorem signalled_running (hserial : Serial s (.running t))
    (hx : (s.place x).signalled = some addr) : x = t := by
  rw [place, Pc.blind_signalled.place] at hx
  have hruns : (s.pcs x).runs = true := by
    rcases Pc.signalled_cases hx with ⟨info, u, hat, _⟩ | hat
    · rw [hat]
      rfl
    · rw [hat]
      rfl
  have hcheck (w : Wait) (hat : s.pcs x = .checkTimeout w) : False := by
    rw [hat] at hx
    cases hx
  rcases hserial.controlled.runs_cases hruns with hc | ⟨w, hat, _⟩ | ⟨u, w, hc, _⟩ |
    ⟨u, info, hc, _⟩
  · exact (Control.running.inj hc).symm
  · exact (hcheck w hat).elim
  · cases hc
  · rcases hc with hc | hc
    · cases hc
    · cases hc

-- A thread that a signaller has let go makes no entry before it is through.
theorem signalled_unique (hserial : Serial s c) (hadvances : s.Advances t)
    (hstep : s.step v t ret_addr op = some s')
    (hrun : s.tracker.runSection t (s.pcs t) = .ok (tr, eff)) (hlogs : eff.logs = true)
    (hx : (s.place x).signalled = some addr) : x = t := by
  rcases control_of_advances hserial hadvances hstep with rfl | ⟨y, rfl⟩
  · exact signalled_running hserial hx
  · have hfollows := runSection_follows _ hrun
    rcases hserial.controlled.runs_cases (Pc.runs_of_advances hadvances) with hc |
      ⟨w, hat, hsignalled, _⟩ | ⟨u, w, _, hwakes, hnot⟩ | ⟨u, info, hc, hne, _⟩
    · cases hc
    · rw [Advances, hat, hsignalled] at hadvances
      cases hadvances
    · cases eff with
      | signalled info u =>
          rw [hfollows.1] at hwakes
          cases hwakes
      | schedule info r => exact absurd (hfollows.2.2.2 w hwakes).1 hnot
      | _ => cases hlogs
    · rcases hc with hc | hc
      · cases hc
      · exact absurd (Control.serving.inj hc).1 hne

theorem Decides.mem_enabled (hlists : Lists v) {info : SchedPointInfo} {r : Rest} {choice : ThrID}
    {enabled : List ThrID} {left : List DecisionInfo} {scheduler : σ}
    (h : Decides v s (.schedule info r) choice enabled left scheduler) : choice ∈ enabled := by
  cases h with
  | schedule _ _ _ _ _ _ _ _ _ _ henabled hadmits _ => exact hlists _ _ henabled hadmits

theorem Advanced.written {made : List ThrID} (hlists : Lists v) (hserial : Serial s c)
    (hadvances : s.Advances t) (hstep : s.step v t ret_addr op = some s')
    (h : Advanced v s t ret_addr op s' made) (hwritten : s.view.Written points rest) :
    ∃ points' rest', s'.view.Written points' rest' := by
  have hplace : s.view.places t = s.pcs t := hadvances.place_eq
  cases h with
  | asks ret_val hpc hview hlog hscheduler =>
      rw [hview]
      refine ⟨points, rest, hwritten.goto (fun addr haddr => ?_) fun u hu => ?_⟩
      · rw [hplace, hpc] at haddr
        cases haddr
      · cases hu
  | spawns addr child hpc hview hlog hscheduler =>
      rw [hview]
      have hchild : s.view.places child = .created := by
        have hcreated : s.pcs child = .created := hserial.controlled.spawn t addr child _ hpc
        show s.place child = _
        rw [place, hcreated]
        rfl
      refine ⟨points, rest, (hwritten.goto (fun addr haddr => ?_) fun u hu => ?_).goto
        (fun addr haddr => ?_) fun u hu => ?_⟩
      · rw [hchild] at haddr
        cases haddr
      · cases hu
      · have hne : t ≠ child := by
          rintro rfl
          rw [hplace, hpc] at hchild
          cases hchild
        simp only [View.goto, Function.update_of_ne hne] at haddr
        rw [hplace, hpc] at haddr
        cases haddr
      · cases hu
  | runs tr eff choice enabled hpc hrun hdecides hview =>
      rw [hview]
      have hwritten' : ({ s.view with tracker := tr.settled } : View).Written points rest :=
        hwritten.keeps rfl (fun _ _ h => h) hwritten.names
      refine hwritten'.perform hplace (runSection_records hpc (fun u hu => ?_) hrun) ?_ ?_ ?_
      · exact hwritten.names t u (hplace ▸ hu)
      · intro child pc' heff
        subst heff
        obtain ⟨addr, ret_val, hat, _⟩ := runSection_follows _ hrun
        have hunborn := (hserial.controlled.child t addr child ret_val hat).1
        show (s.place child).signalled = none
        rw [place, hunborn]
        rfl
      · intro hlogs x addr hx
        exact signalled_unique hserial hadvances hstep hrun hlogs hx
      · intro info r heff
        subst heff
        exact hdecides.mem_enabled hlists

-- The log of a run that goes on.
theorem written_of_steps {asks : System σ → ThrID → Addr → Op → Prop} (hlists : Lists v)
    {scheduler : σ} {read_schedule : List DecisionInfo}
    (h : ReflTransGen (Step v asks) (initial scheduler read_schedule) s)
    (hrunning : s.stopped = none) :
    (∃ c, Serial s c) ∧ ∃ points rest, s.view.Written points rest := by
  induction h with
  | refl =>
      refine ⟨⟨_, Serial.initial scheduler read_schedule⟩, [], none, rfl, nofun, nofun, ?_⟩
      intro t u hu
      change ((initial scheduler read_schedule).place t).signaller = some u at hu
      rw [place, Pc.blind_signaller.place, initial_pcs] at hu
      split at hu
      · cases hu
      · cases hu
  | @tail before after _ hstep ih =>
      obtain ⟨t, ret_addr, op, _, hstep⟩ := hstep
      obtain ⟨⟨c, hserial⟩, points, rest, hwritten⟩ := ih (step_iff.mp hstep).1
      refine ⟨?_, ?_⟩
      · rcases hserial.step hstep with hnext | hhalted
        · exact hnext
        · exact absurd hrunning hhalted.stopped
      · by_cases hadvances : before.Advances t
        · obtain ⟨made, hadvanced⟩ := advanced_of_step hserial hadvances hstep hrunning
          exact hadvanced.written hlists hserial hadvances hstep hwritten
        · rw [(view_of_quiet hstep hadvances).1]
          exact ⟨points, rest, hwritten⟩

-- A thread that is enabled is one to launch.
theorem isEnd_schedule {info : SchedPointInfo} {reason : Stop} (hrunning : s.stopped = none)
    (henabled : s.tracker.isEnabled t = true)
    (h : (s.schedule v info).stopped = some reason) : reason.isEnd = false := by
  unfold schedule at h
  split at h
  · dsimp only at h
    split at h
    · have hmem : (t, true) ∈ s.tracker.enable_map.toList := by
        have hentry := OrderedMap.getD_mem_toList s.tracker.enable_map t false
          (OrderedMap.mem_of_getD_ne _ t false (by
            unfold ExecutionTracker.isEnabled at henabled
            simp [henabled]))
        unfold ExecutionTracker.isEnabled at henabled
        rwa [henabled] at hentry
      have hany : (s.tracker.enable_map.toList.any fun entry => entry.2) = true :=
        List.any_eq_true.mpr ⟨_, hmem, rfl⟩
      unfold deadlockCheck at h
      rw [if_pos hany] at h
      cases h
      rfl
    · exact isEnd_launchThread h hrunning
  · exact isEnd_launchThread h hrunning

theorem stopped_perform (pc : Pc) (info : SchedPointInfo) (r : Rest) :
    (s.perform v t pc (.schedule info r)).stopped = (s.schedule v info).stopped := by
  simp only [perform]
  split
  · rfl
  · rfl

-- On its way out of a wait a thread can fail one assertion.
theorem stopped_of_wakes {w : Wait} {reason : Stop} (hrunning : s.stopped = none)
    (hwakes : (s.pcs t).wakes = some w) (hnot : s.pcs t ≠ .checkTimeout w)
    (hstopped : (s.runThread v t (s.pcs t)).stopped = some reason) : reason = .proceedInWait := by
  unfold runThread at hstopped
  cases hpc : s.pcs t with
  | relock w' =>
      rw [hpc] at hstopped
      cases hfinished : s.tracker.threadIsFinished t with
      | true =>
          have herror : s.tracker.runSection t (.relock w') = .error .proceedInWait := by
            simp only [runSection, beforeMutexLockInWait, hfinished]
            rfl
          rw [herror] at hstopped
          cases hstopped
          rfl
      | false =>
          have hgoes : s.tracker.runSection t (.relock w') =
              (s.tracker.determineLockStatus t w'.lock).goto (.signalReady w') := by
            simp only [runSection, beforeMutexLockInWait, hfinished]
            rfl
          rw [hgoes] at hstopped
          change s.stopped = _ at hstopped
          rw [hrunning] at hstopped
          cases hstopped
  | woken w' =>
      rw [hpc] at hstopped
      change s.stopped = _ at hstopped
      rw [hrunning] at hstopped
      cases hstopped
  | signalReady w' =>
      rw [hpc] at hstopped
      change s.stopped = _ at hstopped
      rw [hrunning] at hstopped
      cases hstopped
  | checkTimeout w' =>
      rw [hpc] at hwakes hnot
      cases hwakes
      exact absurd rfl hnot
  | _ =>
      rw [hpc] at hwakes
      cases hwakes

theorem isEnd_of_signaller {reason : Stop} (hrunning : s.stopped = none)
    (hpc : (s.pcs t).signalled = some addr)
    (hstopped : (s.runThread v t (s.pcs t)).stopped = some reason) : reason.isEnd = false := by
  unfold runThread at hstopped
  rcases Pc.signalled_cases hpc with ⟨info, u, hat, hsingle, _⟩ | hat
  · rw [hat] at hstopped
    simp only [runSection, waitThreadReady, hsingle, Bool.false_eq_true, if_false] at hstopped
    change s.stopped = _ at hstopped
    rw [hrunning] at hstopped
    cases hstopped
  · rw [hat] at hstopped
    simp only [runSection, simulateCondSignal, schedPoint] at hstopped
    rw [stopped_perform] at hstopped
    refine isEnd_schedule (t := t) ?_ ?_ hstopped
    · exact hrunning
    · simp [ExecutionTracker.isEnabled, enableThread]

-- With a signal open a run is only ended by a failed assertion.
theorem isEnd_of_signalled {reason : Stop} (hserial : Serial s c)
    (hstep : s.step v t ret_addr op = some s') (hstopped : s'.stopped = some reason)
    (hx : (s.place x).signalled = some addr) : reason.isEnd = false := by
  have hadvances : s.Advances t := by
    by_contra hquiet
    rw [(view_of_quiet hstep hquiet).2.1] at hstopped
    cases hstopped
  have hruns : s' = s.runThread v t (s.pcs t) ∨ s'.stopped = s.stopped := by
    obtain ⟨_, htransition⟩ := step_iff.mp hstep
    cases htransition with
    | runs hpc hlock hready => exact Or.inl rfl
    | _ => exact Or.inr rfl
  rcases hruns with rfl | hsame
  · rcases control_of_advances hserial hadvances hstep with rfl | ⟨y, rfl⟩
    · obtain rfl : x = t := signalled_running hserial hx
      rw [hadvances.place_eq] at hx
      exact isEnd_of_signaller hserial.running hx hstopped
    · rcases hserial.controlled.runs_cases (Pc.runs_of_advances hadvances) with hc |
        ⟨w, hat, hsignalled, _⟩ | ⟨u, w, _, hwakes, hnot⟩ | ⟨u, info, hc, hne, _⟩
      · cases hc
      · rw [Advances, hat, hsignalled] at hadvances
        cases hadvances
      · rw [stopped_of_wakes hserial.running hwakes hnot hstopped]
        rfl
      · rcases hc with hc | hc
        · cases hc
        · exact absurd (Control.serving.inj hc).1 hne
  · rw [hsame, hserial.running] at hstopped
    cases hstopped

-- How a run comes to the last line of its log: the main thread returns, no thread is enabled, or a
-- thread crashes in the program or fails an assertion of it.
inductive Ends (s : System σ) : Final → Prop
  | returned (h : s.stopped = some .mainReturned) : Ends s .endLog
  | deadlocked (h : s.stopped = some .programDeadlock) : Ends s .programDeadlock
  | crashed (t : ThrID) (ret_val : Int) (hrunning : s.stopped = none)
      (hpc : s.pcs t = .program ret_val) : Ends s (.segfault t)
  | asserted (t : ThrID) (ret_val : Int) (ret_addr : Addr) (hrunning : s.stopped = none)
      (hpc : s.pcs t = .program ret_val) : Ends s (.programAssertFail t ret_addr)

section Ends

variable {asks : System σ → ThrID → Addr → Op → Prop} {scheduler : σ}
  {read_schedule : List DecisionInfo}

theorem whole_of_written (h : s.view.Written points none) : s.log.Whole :=
  ⟨points, h.schedule.trans (List.append_nil _), h.points⟩

theorem whole_of_isEnd (hlists : Lists v)
    (h : ReflTransGen (Step v asks) (initial scheduler read_schedule) s) {reason : Stop}
    (hstopped : s.stopped = some reason) (hend : reason.isEnd = true) : s.log.Whole := by
  cases h with
  | refl => cases hstopped
  | tail h hstep =>
      obtain ⟨t, ret_addr, op, _, hstep⟩ := hstep
      obtain ⟨⟨c, hserial⟩, points, rest, hwritten⟩ := written_of_steps hlists h
        (step_iff.mp hstep).1
      cases hrest : rest with
      | none =>
          subst hrest
          obtain ⟨points, hschedule, hpoints⟩ := whole_of_written hwritten
          exact ⟨points, (schedule_of_isEnd hstep hstopped hend).trans hschedule, hpoints⟩
      | some signal =>
          have hopen := (hwritten.rest signal.1 signal.2 hrest).2
          rw [isEnd_of_signalled hserial hstep hstopped hopen] at hend
          cases hend

theorem whole_of_program (hlists : Lists v)
    (h : ReflTransGen (Step v asks) (initial scheduler read_schedule) s)
    (hrunning : s.stopped = none) {ret_val : Int} (hpc : s.pcs t = .program ret_val) :
    s.log.Whole := by
  obtain ⟨⟨c, hserial⟩, points, rest, hwritten⟩ := written_of_steps hlists h hrunning
  have hc : c = .running t :=
    hserial.controlled.runner (by rw [hpc]; rfl) (by rw [hpc]; rfl) (by simp [hpc])
  cases hrest : rest with
  | none =>
      subst hrest
      exact whole_of_written hwritten
  | some signal =>
      have hopen := (hwritten.rest signal.1 signal.2 hrest).2
      have hsame : signal.1 = t := signalled_running (hc ▸ hserial) hopen
      have hplace : s.view.places t = .program ret_val := by
        show s.place t = _
        rw [place, hpc]
        rfl
      rw [hsame, hplace] at hopen
      cases hopen

theorem Ends.whole {final : Final} (hlists : Lists v)
    (h : ReflTransGen (Step v asks) (initial scheduler read_schedule) s) (hends : s.Ends final) :
    s.log.Whole := by
  cases hends with
  | returned hstopped => exact whole_of_isEnd hlists h hstopped rfl
  | deadlocked hstopped => exact whole_of_isEnd hlists h hstopped rfl
  | crashed t ret_val hrunning hpc => exact whole_of_program hlists h hrunning hpc
  | asserted t ret_val ret_addr hrunning hpc => exact whole_of_program hlists h hrunning hpc

theorem Ends.clear {final : Final} (hends : s.Ends final) : final.Sound ∧ final.Clear := by
  cases hends with
  | returned hstopped => exact ⟨trivial, trivial⟩
  | deadlocked hstopped => exact ⟨trivial, trivial⟩
  | crashed t ret_val hrunning hpc => exact ⟨trivial, trivial⟩
  | asserted t ret_val ret_addr hrunning hpc => exact ⟨trivial, trivial⟩

end Ends

end System

namespace LogPoint

end LogPoint

namespace LogFile

-- A log in which every signal has its schedule point.
def whole (points : AddrPoints) (schedule : List LogPoint) (final : Final) : LogFile where
  points
  schedule
  truncated := none
  final
  cut := nofun

variable {points : AddrPoints} {schedule : List LogPoint} {final : Final}

end LogFile

end Thrille
