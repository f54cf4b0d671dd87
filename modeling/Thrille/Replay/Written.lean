import Thrille.Files.ParseFile
import Thrille.Replay.Trackers
import Thrille.Replay.Branch

namespace Thrille

open Relation Text ExecutionTracker

theorem plain_pointTypes : ∀ type ∈ pointTypes,
    Plain (DecisionInfo.changeSpacesToUnderscores type).toList := by
  unfold Plain
  decide +kernel

namespace Pc

-- What does not tell the threads apart that are at their semaphores or on the way there.
structure Blind {α : Type} (f : Pc → α) (a : α) : Prop where
  heading : ∀ pc signalled r, pc.heading signalled = some r → f pc = a
  resume : ∀ k, f (.resume k) = a
  woken : ∀ w, f (.woken w) = a

section Blind

variable {α : Type} {f : Pc → α} {a : α} (h : Blind f a) (pc : Pc)

include h

theorem Blind.blocked (r : Rest) : f (.blocked r) = a := h.heading _ false r rfl

theorem Blind.resumed : f pc.resumed = f pc := by
  cases pc with
  | blocked r =>
      cases r with
      | pause k => exact (h.resume k).trans (h.blocked _).symm
      | wait w => rfl
      | exit => rfl
  | _ => rfl

theorem Blind.awake : f pc.awake = f pc := by
  cases pc with
  | blocked r =>
      cases r with
      | pause k => rfl
      | wait w => exact (h.woken w).trans (h.blocked _).symm
      | exit => rfl
  | _ => rfl

theorem Blind.place (signalled : Bool) (sem waitSem : Option Nat) :
    f (pc.place signalled sem waitSem) = f pc := by
  unfold Pc.place
  cases hheading : pc.heading signalled with
  | none => rfl
  | some r =>
      rw [h.heading pc signalled r hheading]
      cases r with
      | pause k =>
          dsimp only
          split
          · exact h.resume k
          · exact h.blocked _
      | wait w =>
          dsimp only
          split
          · exact h.woken w
          · exact h.blocked _
      | exit => exact h.blocked _

end Blind

-- Where the signal comes from of a thread between the entry for it and the one for the thread
-- that runs next.
def signalled : Pc → Option Addr
  | waitReady info _ => if info.isBroadcast then none else some info.ret_addr
  | signalDone ret_addr isBroadcast => if isBroadcast then none else some ret_addr
  | _ => none

-- For whom a signaller takes itself.
def signaller : Pc → Option ThrID
  | handoff info _ => some info.thread
  | waitReady info _ => some info.thread
  | _ => none

theorem blind_signalled : Blind signalled none where
  heading pc signalled r h := by
    cases pc <;> first
      | rfl
      | cases h
  resume _ := rfl
  woken _ := rfl

theorem blind_signaller : Blind signaller none where
  heading pc signalled r h := by
    cases pc <;> first
      | rfl
      | cases h
  resume _ := rfl
  woken _ := rfl

variable {pc : Pc} {addr : Addr}

theorem signalled_cases (h : pc.signalled = some addr) :
    (∃ info u, pc = .waitReady info u ∧ info.isBroadcast = false ∧ info.ret_addr = addr) ∨
      pc = .signalDone addr false := by
  cases pc with
  | waitReady info u =>
      refine Or.inl ⟨info, u, rfl, ?_⟩
      simpa [signalled] using h
  | signalDone ret_addr isBroadcast =>
      obtain ⟨rfl, rfl⟩ : isBroadcast = false ∧ ret_addr = addr := by simpa [signalled] using h
      exact Or.inr rfl
  | _ => cases h

theorem next_waitReady {info : SignalPointInfo} {u : ThrID} (h : pc.Next (.waitReady info u)) :
    pc = .handoff info u := by
  cases pc with
  | enter ret_addr op => cases op <;> simp [Next, Op.Next] at h
  | handoff info' u' => cases h; rfl
  | signalReady w =>
      simp only [Next] at h
      split at h <;> cases h
  | resume k => cases k <;> simp [Next] at h
  | _ => simp [Next] at h

end Pc

-- What the end of a section of thread `t` at `pc` says of the entries that it makes.
def Effect.Records (t : ThrID) (pc : Pc) : Effect → Prop
  | goto pc' => (∀ addr, pc.signalled = some addr → pc'.signalled = some addr) ∧
      ∀ u, pc'.signaller = some u → u = t
  | created _ pc' => pc.signalled = none ∧ pc'.signaller = none
  | signalChoice info => pc.signalled = none ∧ info.thread = t
  | signalled info u => pc = .handoff info u ∧ info.cond_map[u]? = some info.cond
  | schedule info _ => info.thread = t ∧ info.type ∈ pointTypes ∧
      ∀ addr, pc.signalled = some addr → info.type = "Simulate Signal" ∧ info.ret_addr = addr

-- The ends that make an entry of the log.
def Effect.logs : Effect → Bool
  | signalled .. => true
  | schedule .. => true
  | _ => false

namespace ExecutionTracker

variable {self tr : ExecutionTracker} {t : ThrID} {pc pc' : Pc} {eff : Effect}

-- A signaller hands on its own name.
theorem signaller_handoff {info : SignalPointInfo} {x : ThrID}
    (hsection : pc.isSection = true) (hpc : ∀ u, pc.signaller = some u → u = t)
    (h : self.runSection t pc = .ok (tr, .goto (.handoff info x)) ∨
      self.runSection t pc = .ok (tr, .signalChoice info)) : info.thread = t := by
  have hleads : ∃ x, pc.Next (.handoff info x) := by
    rcases h with h | h
    · exact ⟨x, runSection_leads pc hsection h⟩
    · exact ⟨x, runSection_leads pc hsection h x⟩
  obtain ⟨x, hleads⟩ := hleads
  rcases Pc.next_handoff hleads with ⟨ret_addr, cond, isBroadcast, rfl⟩ | ⟨info', u', rfl⟩
  · simp only [runSection, wakeThreadWaitingOnCond] at h
    rcases h with h | h
    · split at h
      · cases h
      · split at h
        · split at h <;> cases h
          rfl
        · cases h
    · split at h
      · cases h
      · split at h
        · split at h <;> cases h
        · cases h
          rfl
  · simp only [runSection, waitThreadReady] at h
    rcases h with h | h
    · split at h
      · split at h <;> cases h
        exact hpc _ rfl
      · cases h
    · split at h
      · split at h <;> cases h
      · cases h

theorem goto_signaller (hsection : pc.isSection = true) (hpc : ∀ u, pc.signaller = some u → u = t)
    (h : self.runSection t pc = .ok (tr, .goto pc')) (u : ThrID)
    (hu : pc'.signaller = some u) : u = t := by
  have hleads : pc.Next pc' := runSection_leads pc hsection h
  cases pc' with
  | handoff info x =>
      cases hu
      exact signaller_handoff (x := x) hsection hpc (Or.inl h)
  | waitReady info x =>
      have hfrom := Pc.next_waitReady hleads
      cases hu
      exact hpc _ (by rw [hfrom]; rfl)
  | _ => cases hu

-- A signaller goes on to its schedule point.
theorem runSection_signalled {addr : Addr} (hpc : pc.signalled = some addr)
    (h : self.runSection t pc = .ok (tr, eff)) :
    eff = .goto (.signalDone addr false) ∨ ∃ info r, eff = .schedule info r ∧
      info.type = "Simulate Signal" ∧ info.ret_addr = addr := by
  rcases Pc.signalled_cases hpc with ⟨info, u, rfl, hsingle, rfl⟩ | rfl
  · simp only [runSection, waitThreadReady, hsingle, Bool.false_eq_true, if_false] at h
    cases h
    exact Or.inl rfl
  · cases h
    exact Or.inr ⟨_, _, rfl, rfl, rfl⟩

theorem runSection_records (hsection : pc.isSection = true)
    (hpc : ∀ u, pc.signaller = some u → u = t)
    (h : self.runSection t pc = .ok (tr, eff)) : eff.Records t pc := by
  have hfollows := runSection_follows pc h
  have hnone (heff : ∀ pc', eff ≠ .goto pc') (hnot : ∀ info r, eff ≠ .schedule info r) :
      pc.signalled = none := by
    cases hsignalled : pc.signalled with
    | none => rfl
    | some addr =>
        rcases runSection_signalled hsignalled h with hgoto | ⟨info, r, hschedule, _⟩
        · exact absurd hgoto (heff _)
        · exact absurd hschedule (hnot info r)
  cases eff with
  | goto pc' =>
      refine ⟨fun addr haddr => ?_, goto_signaller hsection hpc h⟩
      rcases runSection_signalled haddr h with hgoto | ⟨_, _, hschedule, _⟩
      · cases hgoto
        rfl
      · cases hschedule
  | created child pc' =>
      obtain ⟨ret_addr, ret_val, _, rfl⟩ := hfollows
      exact ⟨hnone nofun nofun, rfl⟩
  | signalChoice info =>
      exact ⟨hnone nofun nofun, signaller_handoff (x := 0) hsection hpc (Or.inr h)⟩
  | signalled info u => exact hfollows
  | schedule info r =>
      refine ⟨hfollows.1, (runSection_fresh pc h).2, fun addr haddr => ?_⟩
      rcases runSection_signalled haddr h with hgoto | ⟨_, _, hschedule, hrest⟩
      · cases hgoto
      · cases hschedule
        exact hrest

end ExecutionTracker

-- What a run makes sure of for the entries of a schedule point.
structure LogPoint.Recorded (p : LogPoint) : Prop where
  plain : Plain p.description.toList
  typed : p.Typed
  listed : p.Listed
  idaddr : ∀ entry ∈ p.signal, entry.idaddr = p.idaddr

-- The entries of the log by their schedule points, and a signal at the end whose signaller has not
-- scheduled yet.
structure View.Written (view : View) (points : List LogPoint)
    (rest : Option (ThrID × SignalEntry)) : Prop where
  schedule : view.schedule = points.flatMap LogPoint.decisions ++
    (rest.map fun (caller, entry) => entry.decision caller).toList
  points : ∀ p ∈ points, p.Recorded
  rest : ∀ caller entry, rest = some (caller, entry) →
    entry.signalled ∈ entry.oncond ∧ (view.places caller).signalled = some entry.idaddr
  names : ∀ t u, (view.places t).signaller = some u → u = t

namespace View

variable {self other : View} {points : List LogPoint} {rest : Option (ThrID × SignalEntry)}
  {t choice : ThrID} {pc : Pc} {enabled : List ThrID} {eff : Effect}

-- Nothing is logged, and the signaller stays where it is.
theorem Written.keeps (h : self.Written points rest) (hschedule : other.schedule = self.schedule)
    (hsignalled : ∀ u addr, (self.places u).signalled = some addr →
      (other.places u).signalled = some addr)
    (hnames : ∀ t u, (other.places t).signaller = some u → u = t) : other.Written points rest where
  schedule := hschedule.trans h.schedule
  points := h.points
  rest caller entry hrest := by
    obtain ⟨hlisted, haddr⟩ := h.rest caller entry hrest
    exact ⟨hlisted, hsignalled caller _ haddr⟩
  names := hnames

-- A thread goes on.
theorem Written.goto {pc' : Pc} (h : self.Written points rest)
    (hsignalled : ∀ addr, (self.places t).signalled = some addr → pc'.signalled = some addr)
    (hnames : ∀ u, pc'.signaller = some u → u = t) : (self.goto t pc').Written points rest := by
  refine h.keeps rfl (fun u addr haddr => ?_) fun u x hx => ?_
  · simp only [View.goto]
    by_cases hu : u = t
    · subst hu
      rw [Function.update_self]
      exact hsignalled addr haddr
    · rwa [Function.update_of_ne hu]
  · simp only [View.goto] at hx
    by_cases hu : u = t
    · subst hu
      rw [Function.update_self] at hx
      exact hnames x hx
    · rw [Function.update_of_ne hu] at hx
      exact h.names u x hx

-- The threads that are let go are no signallers.
theorem names_update {f : Pc → Pc} (hf : ∀ pc, (f pc).signaller = pc.signaller)
    (h : ∀ t u, (self.places t).signaller = some u → u = t) (target t u : ThrID)
    (hu : (Function.update self.places target (f (self.places target)) t).signaller = some u) :
    u = t := by
  by_cases ht : t = target
  · subst ht
    rw [Function.update_self, hf] at hu
    exact h t u hu
  · rw [Function.update_of_ne ht] at hu
    exact h t u hu

theorem Written.signal {info : SignalPointInfo} {u : ThrID} (h : self.Written points none)
    (hbroadcast : info.isBroadcast = false) (hinfo : info.thread = t)
    (hcond : info.cond_map[u]? = some info.cond) :
    (self.perform t pc choice enabled (.signalled info u)).Written points
      (some (t, { signalled := u, idaddr := info.ret_addr, cond := info.cond,
                  oncond := info.cond_map.threadsAt info.cond })) where
  schedule := by
    simp only [perform, Logger.signalScheduling, hbroadcast]
    rw [h.schedule, ← hinfo]
    simp [SignalEntry.decision]
  points := h.points
  rest caller entry hrest := by
    obtain ⟨rfl, rfl⟩ := Prod.mk.inj (Option.some.inj hrest)
    refine ⟨(PtrMap.mem_threadsAt _ _ _).mpr hcond, ?_⟩
    simp [perform, View.goto, Pc.signalled, hbroadcast]
  names x y hy := by
    simp only [perform, View.goto] at hy
    by_cases hx : x = t
    · subst hx
      rw [Function.update_self] at hy
      cases hy
      exact hinfo
    · rw [Function.update_of_ne hx] at hy
      exact names_update (Pc.blind_signaller.awake ·) h.names u x y hy

-- The schedule point of a signaller is that of its signal.
theorem Written.sched {info : SchedPointInfo} {r : Rest} (h : self.Written points rest)
    (hrecords : (Effect.schedule info r).Records t pc) (hpc : self.places t = pc)
    (hone : ∀ x addr, (self.places x).signalled = some addr → x = t) (hchoice : choice ∈ enabled) :
    (self.perform t pc choice enabled (.schedule info r)).Written
      (points ++ [{ signal := rest.map Prod.snd, chosen := choice, caller := t
                    description := DecisionInfo.changeSpacesToUnderscores info.type
                    idaddr := info.ret_addr, enabled }]) none := by
  obtain ⟨rfl, htype, hsignal⟩ := hrecords
  -- an entry for a signal that is still open is by the thread itself
  have hopen (caller : ThrID) (entry : SignalEntry) (hrest : rest = some (caller, entry)) :
      caller = info.thread ∧ entry.signalled ∈ entry.oncond ∧ info.type = "Simulate Signal" ∧
        entry.idaddr = info.ret_addr := by
    obtain ⟨hlisted, haddr⟩ := h.rest caller entry hrest
    obtain rfl : caller = info.thread := hone caller _ haddr
    rw [hpc] at haddr
    obtain ⟨hkind, heq⟩ := hsignal _ haddr
    exact ⟨rfl, hlisted, hkind, heq.symm⟩
  refine ⟨?_, ?_, nofun, fun x y hy => ?_⟩
  · simp only [perform, View.launch]
    rw [h.schedule, List.flatMap_append, List.flatMap_singleton, List.append_assoc]
    cases rest with
    | none => simp [LogPoint.decisions]
    | some signalled =>
        obtain ⟨caller, entry⟩ := signalled
        obtain ⟨rfl, _⟩ := hopen caller entry rfl
        simp [LogPoint.decisions]
  · intro p hp
    rcases List.mem_append.mp hp with hp | hp
    · exact h.points p hp
    · obtain rfl := List.mem_singleton.mp hp
      have hentry (entry : SignalEntry) (hentry : entry ∈ rest.map Prod.snd) :
          ∃ caller, rest = some (caller, entry) := by
        obtain ⟨⟨caller, _⟩, hrest, rfl⟩ := Option.map_eq_some_iff.mp hentry
        exact ⟨caller, hrest⟩
      refine ⟨plain_pointTypes _ htype, fun hsome => ?_, ⟨hchoice, fun entry hmem => ?_⟩,
        fun entry hmem => ?_⟩
      · obtain ⟨entry, hmem⟩ := Option.isSome_iff_exists.mp hsome
        obtain ⟨caller, hrest⟩ := hentry entry hmem
        obtain ⟨_, _, hkind, _⟩ := hopen caller entry hrest
        have htype : contains "Simulate_Signal"
            (DecisionInfo.changeSpacesToUnderscores "Simulate Signal").toList = true := by
          decide +kernel
        rwa [← hkind] at htype
      · obtain ⟨caller, hrest⟩ := hentry entry hmem
        exact (hopen caller entry hrest).2.1
      · obtain ⟨caller, hrest⟩ := hentry entry hmem
        exact (hopen caller entry hrest).2.2.2
  · simp only [perform, View.launch] at hy
    have hawake (pc : Pc) : ((if choice ∈ self.tracker.cond_map then Pc.awake
        else Pc.resumed) pc).signaller = pc.signaller := by
      split
      · exact Pc.blind_signaller.awake pc
      · exact Pc.blind_signaller.resumed pc
    have hnames (a b : ThrID)
        (hb : ((self.goto info.thread (.blocked r)).places a).signaller = some b) : b = a := by
      simp only [View.goto] at hb
      by_cases ha : a = info.thread
      · subst ha
        rw [Function.update_self] at hb
        cases hb
      · rw [Function.update_of_ne ha] at hb
        exact h.names a b hb
    refine names_update hawake hnames choice x y ?_
    rw [cond_map_recordScheduleInfo] at hy
    rw [← hy]
    congr 2
    split
    · rfl
    · rfl

-- The end of a section keeps the log in order.
theorem Written.perform (h : self.Written points rest) (hpc : self.places t = pc)
    (hrecords : eff.Records t pc)
    (hchild : ∀ child pc', eff = .created child pc' → (self.places child).signalled = none)
    (hone : eff.logs = true → ∀ x addr, (self.places x).signalled = some addr → x = t)
    (hchoice : ∀ info r, eff = .schedule info r → choice ∈ enabled) :
    ∃ points' rest', (self.perform t pc choice enabled eff).Written points' rest' := by
  cases eff with
  | goto pc' =>
      refine ⟨points, rest, h.goto (fun addr haddr => ?_) fun u hu => ?_⟩
      · rw [Pc.blind_signalled.place]
        exact hrecords.1 addr (hpc ▸ haddr)
      · rw [Pc.blind_signaller.place] at hu
        exact hrecords.2 u hu
  | created child pc' =>
      refine ⟨points, rest, (h.goto (fun addr haddr => ?_) fun u hu => ?_).goto
        (fun addr haddr => ?_) fun u hu => ?_⟩
      · rw [hchild child pc' rfl] at haddr
        cases haddr
      · cases hu
      · have hnone : ((self.goto child .created).places t).signalled = none := by
          simp only [View.goto]
          by_cases ht : t = child
          · rw [ht, Function.update_self]
            rfl
          · rw [Function.update_of_ne ht, hpc]
            exact hrecords.1
        rw [hnone] at haddr
        cases haddr
      · rw [hrecords.2] at hu
        cases hu
  | signalChoice info =>
      refine ⟨points, rest, h.goto (fun addr haddr => ?_) fun u hu => ?_⟩
      · rw [hpc, hrecords.1] at haddr
        cases haddr
      · cases hu
        exact hrecords.2
  | signalled info u =>
      obtain ⟨hhandoff, hcond⟩ := hrecords
      have hinfo : info.thread = t := h.names t _ (by rw [hpc, hhandoff]; rfl)
      -- the thread has no signal open
      have hnone (x : ThrID) : (self.places x).signalled = none := by
        cases hsignalled : (self.places x).signalled with
        | none => rfl
        | some addr =>
            rw [hone rfl x addr hsignalled, hpc, hhandoff] at hsignalled
            cases hsignalled
      cases hbroadcast : info.isBroadcast with
      | false =>
          have hrest : rest = none := by
            cases hrest : rest with
            | none => rfl
            | some signal =>
                have haddr := (h.rest signal.1 signal.2 hrest).2
                rw [hnone] at haddr
                cases haddr
          subst hrest
          exact ⟨points, _, h.signal hbroadcast hinfo hcond⟩
      | true =>
          refine ⟨points, rest, h.keeps ?_ (fun x addr haddr => ?_) fun x y hy => ?_⟩
          · simp [View.perform, Logger.signalScheduling, hbroadcast]
          · rw [hnone] at haddr
            cases haddr
          · simp only [View.perform, View.goto] at hy
            by_cases hx : x = t
            · subst hx
              rw [Function.update_self] at hy
              cases hy
              exact hinfo
            · rw [Function.update_of_ne hx] at hy
              exact names_update (Pc.blind_signaller.awake ·) h.names u x y hy
  | schedule info r =>
      exact ⟨_, none, h.sched hrecords hpc (hone rfl) (hchoice info r rfl)⟩

end View

end Thrille
