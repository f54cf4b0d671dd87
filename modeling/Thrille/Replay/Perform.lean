import Thrille.Replay.Moves

namespace Thrille

open ExecutionTracker

theorem ExecutionTracker.settled_recordScheduleInfo (self : ExecutionTracker) (t target : ThrID) :
    (self.recordScheduleInfo t target).settled = self.settled.recordScheduleInfo t target := by
  have henabled : self.settled.isEnabled t = self.isEnabled t := rfl
  unfold recordScheduleInfo
  rw [henabled]
  split
  · rfl
  · split
    · rfl
    · rfl

theorem ExecutionTracker.settled_afterSchedule (self : ExecutionTracker) (t : ThrID) (pc : Pc) :
    (self.afterSchedule t pc).settled = self.settled.afterSchedule t pc := by
  cases pc <;> rfl

theorem ExecutionTracker.cond_map_recordScheduleInfo (self : ExecutionTracker)
    (t target : ThrID) : (self.recordScheduleInfo t target).cond_map = self.cond_map := by
  unfold recordScheduleInfo
  split
  · rfl
  · split
    · rfl
    · rfl

-- The ends of a section at which a thread is chosen.
def Effect.decides : Effect → Bool
  | signalChoice _ => true
  | schedule .. => true
  | _ => false

namespace View

def goto (self : View) (t : ThrID) (pc : Pc) : View :=
  { self with places := Function.update self.places t pc }

def launch (self : View) (target : ThrID) : View :=
  { self with
    tracker := self.tracker.marked target
    places := Function.update self.places target
      (if target ∈ self.tracker.cond_map then (self.places target).awake
      else (self.places target).resumed) }

-- The end of a section, where `choice` is the thread that is chosen and `enabled` what the entry
-- of the log shows.
def perform (self : View) (t : ThrID) (pc : Pc) (choice : ThrID) (enabled : List ThrID) :
    Effect → View
  | .goto pc' =>
      self.goto t (pc'.place (self.tracker.was_signalled_map t) (some 0) (some 0))
  | .created child pc' => (self.goto child .created).goto t pc'
  | .signalChoice info => self.goto t (.handoff info choice)
  | .signalled info u =>
      { (self.goto u (self.places u).awake).goto t (.waitReady info u) with
        schedule := (Logger.signalScheduling { schedule := self.schedule } u info).schedule }
  | .schedule info r =>
      let view := { self.goto t (.blocked r) with
        tracker := self.tracker.recordScheduleInfo info.thread choice
        schedule := self.schedule ++ [DecisionInfo.sched choice info.thread
          (DecisionInfo.changeSpacesToUnderscores info.type) info.ret_addr enabled] }
      let view := view.launch choice
      { view with tracker := view.tracker.afterSchedule t pc }

end View

-- A choice that the log makes, or one for which nothing is left of it.
def Logger.Follows (read_schedule : List DecisionInfo) (fromLog : Bool) (choice : ThrID)
    (rest : List DecisionInfo) : Prop :=
  if fromLog then ∃ d, read_schedule = d :: rest ∧ d.getChosen = choice
  else read_schedule = [] ∧ rest = []

section Decisions

variable {σ : Type}

-- What a tracker answers at a schedule point.
def Virtual.Decides (v : Virtual σ) (scheduler : σ) (info : SchedPointInfo) (fromLog : Bool)
    (target : ThrID) (fenmap : ThrMap Bool) (scheduler' : σ) : Prop :=
  if fromLog then v.followingChoiceFromLog scheduler info = (fenmap, scheduler')
  else v.pickNextSchedulingChoice scheduler info = (some target, fenmap, scheduler')

def Virtual.Selects (v : Virtual σ) (scheduler : σ) (info : SignalPointInfo) (fromLog : Bool)
    (target : ThrID) (scheduler' : σ) : Prop :=
  if fromLog then scheduler' = scheduler
  else v.selectThreadWaitingOnCond scheduler info = (some target, scheduler')

namespace System

-- How the end of a section chooses a thread, when the run goes on, and what is left of the log
-- to follow.
inductive Decides (v : Virtual σ) (s : System σ) :
    Effect → ThrID → List ThrID → List DecisionInfo → σ → Prop
  | goto (pc' : Pc) (choice : ThrID) (enabled : List ThrID) :
      Decides v s (.goto pc') choice enabled s.log.read_schedule s.scheduler
  | created (child : ThrID) (pc' : Pc) (choice : ThrID) (enabled : List ThrID) :
      Decides v s (.created child pc') choice enabled s.log.read_schedule s.scheduler
  | signalChoice (info : SignalPointInfo) (fromLog : Bool) (target : ThrID) (enabled : List ThrID)
      (rest : List DecisionInfo) (scheduler : σ)
      (hfollows : Logger.Follows s.log.read_schedule fromLog target rest)
      (hselects : v.Selects s.scheduler info fromLog target scheduler) :
      Decides v s (.signalChoice info) target enabled rest scheduler
  | signalled (info : SignalPointInfo) (u : ThrID) (tracker : ExecutionTracker) (choice : ThrID)
      (enabled : List ThrID) (hwake : s.tracker.waitWakeThread u = .ok tracker) :
      Decides v s (.signalled info u) choice enabled s.log.read_schedule s.scheduler
  | schedule (info : SchedPointInfo) (r : Rest) (fromLog : Bool) (target : ThrID)
      (fenmap : ThrMap Bool) (rest : List DecisionInfo) (scheduler : σ)
      (tracker : ExecutionTracker)
      (hfollows : Logger.Follows s.log.read_schedule fromLog target rest)
      (hdecides : v.Decides s.scheduler info fromLog target fenmap scheduler)
      (henabled : s.tracker.isEnabled target = true)
      (hadmits : v.admits { info with fenmap, fromLog, enabled := s.tracker.enable_map } target =
        true)
      (hlaunch : (s.tracker.recordScheduleInfo info.thread target).launch target = .ok tracker) :
      Decides v s (.schedule info r) target (Logger.enabledThreads
        (v.logged { info with fenmap, fromLog, enabled := s.tracker.enable_map })) rest scheduler

variable {v : Virtual σ} {s s' : System σ} {t : ThrID} {pc : Pc} {eff : Effect}

theorem Decides.of_signalChoice {info : SignalPointInfo} {choice : ThrID} {enabled : List ThrID}
    {rest : List DecisionInfo} {scheduler : σ}
    (h : Decides v s (.signalChoice info) choice enabled rest scheduler) :
    ∃ fromLog, Logger.Follows s.log.read_schedule fromLog choice rest ∧
      v.Selects s.scheduler info fromLog choice scheduler := by
  cases h with
  | signalChoice _ fromLog _ _ _ _ hfollows hselects => exact ⟨fromLog, hfollows, hselects⟩

theorem Decides.of_signalled {info : SignalPointInfo} {u choice : ThrID} {enabled : List ThrID}
    {rest : List DecisionInfo} {scheduler : σ}
    (h : Decides v s (.signalled info u) choice enabled rest scheduler) :
    (∃ tracker, s.tracker.waitWakeThread u = .ok tracker) ∧ rest = s.log.read_schedule ∧
      scheduler = s.scheduler := by
  cases h with
  | signalled _ _ tracker _ _ hwake => exact ⟨⟨tracker, hwake⟩, rfl, rfl⟩

theorem isEnabled_recordScheduleInfo (tr : ExecutionTracker) (u target : ThrID) :
    (tr.recordScheduleInfo u target).isEnabled target = tr.isEnabled target := by
  unfold ExecutionTracker.isEnabled
  rw [(tr.recordScheduleInfo_keeps u target).2.2.2.1]

-- A schedule point at which the run goes on.
theorem decides_of_schedule (info : SchedPointInfo) (r : Rest)
    (h : (s.schedule v info).stopped = none) :
    ∃ target enabled, Decides v s (.schedule info r) target enabled
      (s.schedule v info).log.read_schedule (s.schedule v info).scheduler := by
  unfold schedule Logger.getNextScheduleChoice Logger.getNextChoice at h ⊢
  cases hread : s.log.read_schedule with
  | nil =>
      simp only [hread] at h ⊢
      cases hpick : v.pickNextSchedulingChoice s.scheduler info with
      | mk nextchoice answer =>
          obtain ⟨fenmap, scheduler⟩ := answer
          simp only [hpick] at h ⊢
          cases nextchoice with
          | none => exact absurd h deadlockCheck_stopped
          | some target =>
              obtain ⟨henabled, hadmits, tracker, hlaunch, heq⟩ := launchThread_cases _ _ h
              rw [isEnabled_recordScheduleInfo] at henabled
              dsimp only at heq ⊢
              rw [heq]
              exact ⟨target, _, .schedule info r false target fenmap _ scheduler tracker
                ⟨hread, hread⟩ hpick henabled hadmits hlaunch⟩
  | cons d rest =>
      simp only [hread] at h ⊢
      cases hfollow : v.followingChoiceFromLog s.scheduler info with
      | mk fenmap scheduler =>
          simp only [hfollow] at h ⊢
          obtain ⟨henabled, hadmits, tracker, hlaunch, heq⟩ := launchThread_cases _ _ h
          rw [isEnabled_recordScheduleInfo] at henabled
          dsimp only at heq ⊢
          rw [heq]
          exact ⟨d.getChosen, _, .schedule info r true d.getChosen fenmap rest scheduler tracker
            ⟨d, hread, rfl⟩ hfollow henabled hadmits hlaunch⟩

theorem launchThread_eq {target : ThrID} {info : SchedPointInfo} {tracker : ExecutionTracker}
    (henabled : s.tracker.isEnabled target = true) (hadmits : v.admits info target = true)
    (hlaunch : s.tracker.launch target = .ok tracker) :
    s.launchThread v target info = { s with
      tracker
      log := s.log.scheduling target { info with enabled := v.logged info } } := by
  simp only [launchThread, henabled, hadmits, hlaunch, Bool.not_true, Bool.false_eq_true, if_false]

theorem schedule_of_decides {info : SchedPointInfo} {r : Rest} {target : ThrID}
    {enabled : List ThrID} {rest : List DecisionInfo} {scheduler : σ}
    (h : Decides v s (.schedule info r) target enabled rest scheduler) :
    ∃ tracker, (s.tracker.recordScheduleInfo info.thread target).launch target = .ok tracker ∧
      s.schedule v info = { s with
        tracker
        scheduler
        log := {
          schedule := s.log.schedule ++ [.sched target info.thread
            (DecisionInfo.changeSpacesToUnderscores info.type) info.ret_addr enabled]
          read_schedule := rest } } := by
  cases h with
  | schedule info r fromLog target fenmap rest scheduler tracker hfollows hdecides henabled hadmits
      hlaunch =>
      refine ⟨tracker, hlaunch, ?_⟩
      rw [← isEnabled_recordScheduleInfo s.tracker info.thread target] at henabled
      unfold schedule Logger.getNextScheduleChoice Logger.getNextChoice
      cases fromLog with
      | false =>
          obtain ⟨hread, rfl⟩ := hfollows
          have hpick : v.pickNextSchedulingChoice s.scheduler info =
            (some target, fenmap, scheduler) := hdecides
          simp only [hread, hpick]
          rw [launchThread_eq henabled hadmits hlaunch]
          simp only [Logger.scheduling, hread]
      | true =>
          obtain ⟨d, hread, rfl⟩ := hfollows
          have hfollow : v.followingChoiceFromLog s.scheduler info = (fenmap, scheduler) := hdecides
          simp only [hread, hfollow]
          rw [launchThread_eq henabled hadmits hlaunch]
          rfl

-- When the run goes on at the end of a section, that is how.
theorem decides_of_perform (hrunning : (s.perform v t pc eff).stopped = none) :
    ∃ choice enabled, Decides v s eff choice enabled (s.perform v t pc eff).log.read_schedule
      (s.perform v t pc eff).scheduler := by
  cases eff with
  | goto pc' => exact ⟨0, [], .goto pc' 0 []⟩
  | created child pc' => exact ⟨0, [], .created child pc' 0 []⟩
  | signalChoice info =>
      simp only [perform] at hrunning ⊢
      unfold Logger.getNextSignalChoice Logger.getNextChoice at hrunning ⊢
      cases hread : s.log.read_schedule with
      | nil =>
          simp only [hread] at hrunning ⊢
          split at hrunning
          · rename_i choice scheduler hselect
            exact ⟨choice, [], .signalChoice info false choice [] _ _ ⟨hread, hread⟩ hselect⟩
          · cases hrunning
      | cons d rest =>
          simp only [hread] at hrunning ⊢
          exact ⟨d.getChosen, [], .signalChoice info true _ [] rest _ ⟨d, hread, rfl⟩ rfl⟩
  | signalled info u =>
      simp only [perform] at hrunning ⊢
      split at hrunning
      · rename_i tracker hwake
        have hlog : (s.log.signalScheduling u info).read_schedule = s.log.read_schedule := by
          unfold Logger.signalScheduling
          split <;> rfl
        simp only [System.goto, hlog]
        exact ⟨0, [], .signalled info u tracker 0 [] hwake⟩
      · cases hrunning
  | schedule info r =>
      simp only [perform] at hrunning ⊢
      split at hrunning
      · rename_i hstopped
        rw [hrunning] at hstopped
        cases hstopped
      · rename_i hstopped
        rw [if_neg hstopped]
        exact decides_of_schedule info r (by simpa using hstopped)

-- The places that a step leaves behind, when it moves thread `t`.
theorem place_goto (pc' : Pc) (u : ThrID) (hsem : s.tracker.sem_map t = some 0)
    (hwait : s.tracker.wait_sem_map t = some 0) :
    (s.goto t pc').place u = Function.update s.place t
      (pc'.place (s.tracker.was_signalled_map t) (some 0) (some 0)) u := by
  by_cases hut : u = t
  · subst hut
    rw [Function.update_self, place]
    show (Function.update s.pcs u pc' u).place (s.tracker.was_signalled_map u)
      (s.tracker.sem_map u) (s.tracker.wait_sem_map u) = _
    rw [Function.update_self, hsem, hwait]
  · rw [Function.update_of_ne hut, place]
    show (Function.update s.pcs t pc' u).place _ _ _ = _
    rw [Function.update_of_ne hut]
    rfl

theorem view_goto (pc' : Pc) (hsem : s.tracker.sem_map t = some 0)
    (hwait : s.tracker.wait_sem_map t = some 0) :
    (s.goto t pc').view = s.view.goto t
      (pc'.place (s.tracker.was_signalled_map t) (some 0) (some 0)) := by
  unfold view View.goto
  congr 1
  funext u
  exact place_goto pc' u hsem hwait

theorem view_goto_none (pc' : Pc) (h : ∀ signalled, pc'.heading signalled = none) :
    (s.goto t pc').view = s.view.goto t pc' := by
  unfold view View.goto
  congr 1
  funext u
  by_cases hut : u = t
  · subst hut
    rw [Function.update_self, place]
    show (Function.update s.pcs u pc' u).place _ _ _ = _
    rw [Function.update_self]
    exact Pc.place_of_none (h _) _ _
  · rw [Function.update_of_ne hut, place]
    show (Function.update s.pcs t pc' u).place _ _ _ = _
    rw [Function.update_of_ne hut]
    rfl

theorem place_setSignalled (value : Bool) (h : ∀ w, s.pcs t ≠ .checkTimeout w) :
    ({ s with tracker := s.tracker.setSignalled t value } : System σ).place = s.place := by
  funext u
  by_cases hut : u = t
  · subst hut
    exact Pc.place_signalled h _ _ _ _
  · simp [place, hut]

theorem place_waitWakeThread {target : ThrID} {tracker : ExecutionTracker}
    (hwake : s.tracker.waitWakeThread target = .ok tracker) :
    ({ s with tracker } : System σ).place =
      Function.update s.place target (s.place target).awake := by
  funext u
  unfold waitWakeThread at hwake
  split at hwake
  · rename_i n hn
    cases hwake
    by_cases hut : u = target
    · subst hut
      simp only [place, setWaitSem_sem_map, setWaitSem_wait_sem_map, setWaitSem_was_signalled_map,
        Function.update_self]
      rw [Pc.place_waitSem, hn]
    · rw [Function.update_of_ne hut]
      simp [place, hut]
  · cases hwake

theorem place_wakeThread {target : ThrID} {tracker : ExecutionTracker}
    (hwake : s.tracker.wakeThread target = .ok tracker) :
    ({ s with tracker } : System σ).place =
      Function.update s.place target (s.place target).resumed := by
  funext u
  unfold wakeThread at hwake
  split at hwake
  · rename_i n hn
    cases hwake
    by_cases hut : u = target
    · subst hut
      simp only [place, setSem_sem_map, setSem_wait_sem_map, setSem_was_signalled_map,
        Function.update_self]
      rw [Pc.place_sem, hn]
    · rw [Function.update_of_ne hut]
      simp [place, hut]
  · cases hwake

theorem view_waitWakeThread {target : ThrID} {tracker : ExecutionTracker}
    (hwake : s.tracker.waitWakeThread target = .ok tracker) :
    ({ s with tracker } : System σ).view = s.view.goto target (s.place target).awake := by
  have hsettled : tracker.settled = s.tracker.settled := by
    unfold waitWakeThread at hwake
    split at hwake
    · rename_i n hn
      cases hwake
      exact settled_setWaitSem hn
    · cases hwake
  unfold view View.goto
  rw [place_waitWakeThread hwake, hsettled]

-- The launched thread gets its post.
theorem view_launch {target : ThrID} {tracker : ExecutionTracker}
    (hlaunch : s.tracker.launch target = .ok tracker)
    (hcond : ∀ u w, s.pcs u = .checkTimeout w → u ∉ s.tracker.cond_map) :
    ({ s with tracker } : System σ).view = s.view.launch target := by
  have hplace : ({ s with tracker } : System σ).place = Function.update s.place target
      (if target ∈ s.tracker.cond_map then (s.place target).awake
      else (s.place target).resumed) := by
    unfold ExecutionTracker.launch at hlaunch
    split at hlaunch
    · rename_i hwaits
      have hnot (w : Wait) : s.pcs target ≠ .checkTimeout w := fun hat => hcond target w hat hwaits
      rw [if_pos hwaits, ← place_setSignalled false hnot]
      exact place_waitWakeThread (s := { s with tracker := s.tracker.setSignalled target false })
        hlaunch
    · rename_i hwaits
      rw [if_neg hwaits]
      exact place_wakeThread hlaunch
  unfold view View.launch
  rw [hplace, ExecutionTracker.settled_launch hlaunch]
  rfl

theorem view_afterSchedule (pc : Pc) (h : ∀ w, s.pcs t ≠ .checkTimeout w) :
    ({ s with tracker := s.tracker.afterSchedule t pc } : System σ).view =
      { s.view with tracker := s.view.tracker.afterSchedule t pc } := by
  have hplace : ({ s with tracker := s.tracker.afterSchedule t pc } : System σ).place =
      s.place := by
    cases pc with
    | checkTimeout w => exact place_setSignalled true h
    | _ => rfl
  unfold view
  rw [hplace, ExecutionTracker.settled_afterSchedule]

-- A thread has scheduled, and the one that it has chosen has not been launched.
def givenUp (s : System σ) (t : ThrID) (info : SchedPointInfo) (r : Rest) (target : ThrID)
    (enabled : List ThrID) : System σ :=
  { s.goto t (.launched r) with
    tracker := s.tracker.recordScheduleInfo info.thread target
    log := { s.log with
      schedule := s.log.schedule ++ [.sched target info.thread
        (DecisionInfo.changeSpacesToUnderscores info.type) info.ret_addr enabled] } }

theorem view_givenUp (info : SchedPointInfo) (r : Rest) (target : ThrID) (enabled : List ThrID)
    (hsem : s.tracker.sem_map t = some 0) (hwait : s.tracker.wait_sem_map t = some 0) :
    (givenUp s t info r target enabled).view = { s.view.goto t (.blocked r) with
      tracker := s.view.tracker.recordScheduleInfo info.thread target
      schedule := s.view.schedule ++ [DecisionInfo.sched target info.thread
        (DecisionInfo.changeSpacesToUnderscores info.type) info.ret_addr enabled] } := by
  have hposts : (s.tracker.recordScheduleInfo info.thread target).posts = s.tracker.posts :=
    (s.tracker.recordScheduleInfo_keeps info.thread target).1
  have hplace : (givenUp s t info r target enabled).place = (s.goto t (.launched r)).place := by
    funext u
    unfold place
    show (Function.update s.pcs t (.launched r) u).place
      ((s.tracker.recordScheduleInfo info.thread target).posts.signalled u)
      ((s.tracker.recordScheduleInfo info.thread target).posts.sem u)
      ((s.tracker.recordScheduleInfo info.thread target).posts.waitSem u) = _
    rw [hposts]
    rfl
  have hblocked : (Pc.launched r).place (s.tracker.was_signalled_map t) (some 0) (some 0) =
      .blocked r := by
    cases r <;> rfl
  have hgoto : (s.goto t (.launched r)).place = (s.view.goto t (.blocked r)).places := by
    rw [← hblocked]
    exact congrArg View.places (view_goto (.launched r) hsem hwait)
  unfold view
  rw [hplace, hgoto]
  show (⟨(s.tracker.recordScheduleInfo info.thread target).settled, _, _⟩ : View) = _
  rw [settled_recordScheduleInfo]
  rfl

-- What the end of a section makes of the run when a thread is chosen like that.
theorem perform_of_decides {choice : ThrID} {enabled : List ThrID} {rest : List DecisionInfo}
    {scheduler : σ} (h : Decides v s eff choice enabled rest scheduler) (hrunning : s.stopped = none)
    (hsem : s.tracker.sem_map t = some 0) (hwait : s.tracker.wait_sem_map t = some 0)
    (hcond : ∀ u w, u ≠ t → s.pcs u = .checkTimeout w → u ∉ s.tracker.cond_map)
    (hspawn : ∀ child pc', eff = .created child pc' → ∀ signalled, pc'.heading signalled = none) :
    (s.perform v t pc eff).stopped = none ∧
      (s.perform v t pc eff).view = s.view.perform t pc choice enabled eff ∧
      (s.perform v t pc eff).log.read_schedule = rest ∧
      (s.perform v t pc eff).scheduler = scheduler := by
  cases eff with
  | goto pc' =>
      cases h
      exact ⟨hrunning, view_goto pc' hsem hwait, rfl, rfl⟩
  | created child pc' =>
      cases h
      refine ⟨hrunning, ?_, rfl, rfl⟩
      simp only [perform, View.perform]
      rw [view_goto_none pc' (hspawn child pc' rfl), view_goto_none .created fun _ => rfl]
  | signalChoice info =>
      obtain ⟨fromLog, hfollows, hselects⟩ := h.of_signalChoice
      simp only [perform]
      unfold Logger.getNextSignalChoice Logger.getNextChoice
      cases fromLog with
      | false =>
          obtain ⟨hread, rfl⟩ := hfollows
          have hselect : v.selectThreadWaitingOnCond s.scheduler info =
            (some choice, scheduler) := hselects
          simp only [hread, hselect]
          exact ⟨hrunning, view_goto_none (s := { s with scheduler }) (.handoff info choice)
            fun _ => rfl, hread, rfl⟩
      | true =>
          obtain ⟨d, hread, rfl⟩ := hfollows
          have hsame : scheduler = s.scheduler := hselects
          simp only [hread, hsame]
          exact ⟨hrunning, view_goto_none
            (s := { s with log := { s.log with read_schedule := rest } })
            (.handoff info d.getChosen) fun _ => rfl, rfl, rfl⟩
  | signalled info u =>
      obtain ⟨⟨tracker, hwake⟩, rfl, rfl⟩ := h.of_signalled
      have hlog : (s.log.signalScheduling u info).read_schedule = s.log.read_schedule ∧
          (s.log.signalScheduling u info).schedule =
            (Logger.signalScheduling { schedule := s.log.schedule } u info).schedule := by
        unfold Logger.signalScheduling
        split <;> exact ⟨rfl, rfl⟩
      simp only [perform, hwake]
      refine ⟨hrunning, ?_, hlog.1, rfl⟩
      have hwoken := view_waitWakeThread
        (s := { s with log := s.log.signalScheduling u info }) hwake
      rw [view_goto_none (.waitReady info u) fun _ => rfl, hwoken]
      simp only [view, View.perform, View.goto, hlog.2]
      rfl
  | schedule info r =>
      obtain ⟨tracker, hlaunch, heq⟩ := schedule_of_decides h
      have hnone : (s.schedule v info).stopped = none := by
        rw [heq]
        exact hrunning
      simp only [perform]
      rw [if_neg (by simp [hnone]), heq]
      refine ⟨hrunning, ?_, rfl, rfl⟩
      -- the thread gives up its turn, and the other one gets it
      have hgiven := view_givenUp info r choice enabled hsem hwait
      have hlaunched := view_launch (s := givenUp s t info r choice enabled) hlaunch
        fun u w hat => ?_
      · have hdone := view_afterSchedule (t := t)
          (s := { givenUp s t info r choice enabled with tracker }) pc fun w hat => ?_
        · rw [hlaunched, hgiven] at hdone
          exact hdone
        · simp [givenUp, System.goto] at hat
      · by_cases hut : u = t
        · subst hut
          simp [givenUp, System.goto] at hat
        · have hpc : s.pcs u = .checkTimeout w := by
            simpa [givenUp, System.goto, hut] using hat
          have hmem : u ∉ s.tracker.cond_map := hcond u w hut hpc
          rw [← cond_map_recordScheduleInfo s.tracker info.thread choice] at hmem
          exact hmem

end System

end Decisions

end Thrille
