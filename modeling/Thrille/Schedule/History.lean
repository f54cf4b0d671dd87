import Thrille.Schedule.Moves

namespace Thrille.Schedule

-- The first caller is the main thread, and each later one is the thread chosen before it.
def ChainFrom (last : Name) : List SchedulePoint → Prop
  | [] => True
  | x :: rest => x.caller = last ∧ ChainFrom x.chosen rest

def ChainConsistent (self : Schedule) : Prop := ChainFrom mainThread self.schedule

def addrHistory (thread : Name) (sched : List SchedulePoint) : List String :=
  (sched.filter fun x => x.caller == thread).map fun x => x.addr

-- What the points of a thread show of it, for any kind of observation.
def history {α : Type} (see : SchedulePoint → List α) (thread : Name)
    (sched : List SchedulePoint) : List α :=
  (sched.filter fun x => x.caller == thread).flatMap see

theorem addrHistory_eq (thread : Name) (sched : List SchedulePoint) :
    addrHistory thread sched = history (fun x => [x.addr]) thread sched := by
  simp only [addrHistory, history, ← List.map_eq_flatMap]

-- The thread that is running after `sched` when `last` is running before it.
def lastChosen (last : Name) (sched : List SchedulePoint) : Name :=
  (sched.getLast?.map (·.chosen)).getD last

@[simp] theorem lastChosen_nil (last : Name) : lastChosen last [] = last := rfl

@[simp] theorem lastChosen_cons (last : Name) (x : SchedulePoint) (rest : List SchedulePoint) :
    lastChosen last (x :: rest) = lastChosen x.chosen rest := by
  cases rest with
  | nil => rfl
  | cons y rest =>
      simp only [lastChosen, List.getLast?_cons, Option.map_some, Option.getD_some]

theorem lastChosen_mem (last : Name) (sched : List SchedulePoint) (hne : sched ≠ []) :
    ∃ x ∈ sched, lastChosen last sched = x.chosen := by
  refine ⟨sched.getLast hne, List.getLast_mem hne, ?_⟩
  rw [lastChosen, List.getLast?_eq_some_getLast hne, Option.map_some, Option.getD_some]

-- A history read off the chosen threads alone, with the callers that patching would write.
def chosenHistory {α : Type} (see : SchedulePoint → List α) (thread last : Name) :
    List SchedulePoint → List α
  | [] => []
  | x :: rest => (if last = thread then see x else []) ++ chosenHistory see thread x.chosen rest

section

variable {α : Type} (see : SchedulePoint → List α) (thread : Name)

theorem history_of_chain (last : Name) (sched : List SchedulePoint)
    (hchain : ChainFrom last sched) :
    history see thread sched = chosenHistory see thread last sched := by
  induction sched generalizing last with
  | nil => rfl
  | cons x rest ih =>
      obtain ⟨hcaller, hrest⟩ := hchain
      have htail := ih x.chosen hrest
      simp only [history] at htail
      simp only [history, chosenHistory, List.filter_cons, hcaller, beq_iff_eq]
      split
      · rw [List.flatMap_cons, htail]
      · rw [List.nil_append, htail]

theorem chainFrom_patchFrom (last : Name) (sched : List SchedulePoint) :
    ChainFrom last (patchFrom last sched) := by
  induction sched generalizing last with
  | nil => trivial
  | cons x rest ih => exact ⟨rfl, ih x.chosen⟩

theorem history_patchFrom (hsee : ∀ x caller, see { x with caller } = see x) (last : Name)
    (sched : List SchedulePoint) :
    history see thread (patchFrom last sched) = chosenHistory see thread last sched := by
  rw [history_of_chain see thread last _ (chainFrom_patchFrom last sched)]
  induction sched generalizing last with
  | nil => rfl
  | cons x rest ih => simp only [patchFrom, chosenHistory, hsee, ih]

theorem chosenHistory_append (last : Name) (front back : List SchedulePoint) :
    chosenHistory see thread last (front ++ back) =
      chosenHistory see thread last front ++
        chosenHistory see thread (lastChosen last front) back := by
  induction front generalizing last with
  | nil => rfl
  | cons x front ih =>
      simp only [List.cons_append, chosenHistory, ih, lastChosen_cons, List.append_assoc]

theorem chainFrom_append (last : Name) (front back : List SchedulePoint) :
    ChainFrom last (front ++ back) ↔
      ChainFrom last front ∧ ChainFrom (lastChosen last front) back := by
  induction front generalizing last with
  | nil => simp [ChainFrom]
  | cons x front ih => simp only [List.cons_append, ChainFrom, ih, lastChosen_cons, and_assoc]

-- Within a block every point is called by the thread of the block.
theorem chosenHistory_block (target : Name) (block : List SchedulePoint)
    (hblock : ∀ x ∈ block, x.chosen = target) :
    chosenHistory see thread target block = if target = thread then block.flatMap see else [] := by
  induction block with
  | nil => simp [chosenHistory]
  | cons x block ih =>
      have hx := hblock x List.mem_cons_self
      have hrest := ih fun y hy => hblock y (List.mem_cons_of_mem x hy)
      simp only [chosenHistory, hx, hrest, List.flatMap_cons]
      split <;> simp

theorem lastChosen_block (target : Name) (block : List SchedulePoint)
    (hblock : ∀ x ∈ block, x.chosen = target) : lastChosen target block = target := by
  by_cases hne : block = []
  · rw [hne, lastChosen_nil]
  · obtain ⟨x, hx, heq⟩ := lastChosen_mem target block hne
    exact heq.trans (hblock x hx)

theorem lastChosen_away (last : Name) (sched : List SchedulePoint) (hlast : last ≠ thread)
    (haway : ∀ x ∈ sched, x.chosen ≠ thread) : lastChosen last sched ≠ thread := by
  by_cases hne : sched = []
  · rwa [hne, lastChosen_nil]
  · obtain ⟨x, hx, heq⟩ := lastChosen_mem last sched hne
    exact fun h => haway x hx (heq.symm.trans h)

-- A thread that is never chosen calls no point but the first.
theorem chosenHistory_away (last : Name) (sched : List SchedulePoint) (hlast : last ≠ thread)
    (haway : ∀ x ∈ sched, x.chosen ≠ thread) : chosenHistory see thread last sched = [] := by
  induction sched generalizing last with
  | nil => rfl
  | cons x sched ih =>
      rw [chosenHistory, if_neg hlast, List.nil_append]
      exact ih x.chosen (haway x List.mem_cons_self)
        fun y hy => haway y (List.mem_cons_of_mem x hy)

-- What follows the first point of a list; changing that point's address does not touch it.
def tailHistory : List SchedulePoint → List α
  | [] => []
  | x :: rest => chosenHistory see thread x.chosen rest

theorem chosenHistory_head (last : Name) (sched : List SchedulePoint) :
    chosenHistory see thread last sched =
      (if last = thread then (sched.take 1).flatMap see else []) ++
        tailHistory see thread sched := by
  cases sched with
  | nil => simp [chosenHistory, tailHistory]
  | cons x rest => simp [chosenHistory, tailHistory]

@[simp] theorem tailHistory_modifyHead (addr : String) (sched : List SchedulePoint) :
    tailHistory see thread (sched.modifyHead (setAddr addr)) = tailHistory see thread sched := by
  cases sched with
  | nil => rfl
  | cons x rest => rfl

-- The histories of the callers on the two sides of a forward move. The caller of the moved
-- block's first point is the thread that used to switch into it.
theorem ForwardMove.At.histories {m : ForwardMove} {self : Schedule} {frontier : Nat}
    (hat : m.At self frontier) (hchain : self.ChainConsistent)
    (hsee : ∀ x caller, see { x with caller } = see x) :
    m.point.caller ≠ m.first.caller ∧
    ∃ front back : List α, (m.endblock = [] → back = []) ∧
      history see thread self.schedule =
        (if m.point.caller = thread then
          front ++ see m.point ++ m.mobileblock.flatMap see ++ (m.endblock.take 1).flatMap see
        else front ++ if m.first.caller = thread then see m.first else []) ++ back ∧
      history see thread (patchUpSchedule m.after) =
        (if m.point.caller = thread then
          front ++ see (setAddr m.point.addr m.first) ++ m.mobileblock.flatMap see ++
            see (setAddr m.endAddr m.point)
        else front ++ if m.first.caller = thread then
          ((m.endblock.modifyHead (setAddr m.first.addr)).take 1).flatMap see else []) ++ back := by
  have hpatched := history_patchFrom see thread hsee mainThread m.after
  have hbefore := history_of_chain see thread mainThread _ hchain
  have hcut := hchain
  rw [ChainConsistent, hat.split, ForwardMove.before] at hcut
  simp only [List.append_assoc, List.cons_append, chainFrom_append, ChainFrom] at hcut
  obtain ⟨_, hpoint, _, hfirst, _⟩ := hcut
  have hmoved := hat.moved m.first List.mem_cons_self
  have hmobile : ∀ x ∈ m.mobileblock, x.chosen = m.point.caller :=
    fun x hx => hat.moved x (List.mem_cons_of_mem _ hx)
  have hblock := lastChosen_block m.point.caller m.mobileblock hmobile
  have hpoint' := hat.away m.point List.mem_cons_self
  have hpost : ∀ x ∈ m.postfrontier, x.chosen ≠ m.point.caller :=
    fun x hx => hat.away x (List.mem_cons_of_mem _ hx)
  have hswitch : m.first.caller ≠ m.point.caller := by
    rw [hfirst]
    exact lastChosen_away m.point.caller m.point.chosen m.postfrontier hpoint' hpost
  refine ⟨hswitch.symm, ?_⟩
  rw [hbefore, hat.split, patchUpSchedule, hpatched]
  simp only [ForwardMove.before, ForwardMove.after, List.append_assoc, List.cons_append,
    chosenHistory_append, chosenHistory, setAddr, ← hpoint, ← hfirst, hmoved, hblock,
    chosenHistory_block see thread m.point.caller m.mobileblock hmobile,
    chosenHistory_head see thread m.point.caller m.endblock,
    chosenHistory_head see thread m.first.caller, tailHistory_modifyHead]
  by_cases ht : m.point.caller = thread
  · have hq : m.first.caller ≠ thread := fun h => hswitch (h.trans ht.symm)
    have hR := chosenHistory_away see thread m.point.chosen m.postfrontier
      (ht ▸ hpoint') (ht ▸ hpost)
    refine ⟨chosenHistory see thread mainThread m.prefrontier,
      tailHistory see thread m.endblock, fun hend => by rw [hend, tailHistory], ?_, ?_⟩
    · simp only [ht, hq, hR, if_true, if_false, List.nil_append, List.append_assoc]
    · simp only [ht, hq, hR, if_true, if_false, List.nil_append, List.append_assoc]
  · refine ⟨chosenHistory see thread mainThread m.prefrontier ++
      chosenHistory see thread m.point.chosen m.postfrontier,
      tailHistory see thread m.endblock, fun hend => by rw [hend, tailHistory], ?_, ?_⟩
    · simp only [ht, if_false, List.nil_append, List.append_assoc]
    · simp only [ht, if_false, List.nil_append, List.append_assoc]

-- The same for a backward move. The first caller of the moved block is the thread that runs
-- before it; at the front of the schedule this may be the moved thread itself.
theorem BackwardMove.At.histories {m : BackwardMove} {self : Schedule} {frontier : Nat}
    (hat : m.At self frontier) (hchain : self.ChainConsistent)
    (hsee : ∀ x caller, see { x with caller } = see x) :
    m.point.caller ≠ m.point.chosen ∧
    ∃ front back : List α,
      history see thread self.schedule =
        (if m.point.chosen = thread then
          front ++ (if m.first.caller = thread then see m.first else []) ++
            m.mobileblock.flatMap see ++ see m.away
        else front ++ (if m.first.caller = thread then see m.first else []) ++
          history see thread m.prefrontier ++
          if m.point.caller = thread then see m.point else []) ++ back ∧
      history see thread (patchUpSchedule m.after) =
        (if m.point.chosen = thread then
          front ++ (if m.first.caller = thread then see (setAddr m.first.addr m.away) else []) ++
            m.mobileblock.flatMap see ++ see (setAddr m.away.addr m.point)
        else front ++ (if m.first.caller = thread then see (setAddr m.first.addr m.away) else []) ++
          history see thread m.prefrontier ++
          if m.point.caller = thread then see (setAddr m.point.addr m.first) else []) ++ back := by
  have hpatched := history_patchFrom see thread hsee mainThread m.after
  have hbefore := history_of_chain see thread mainThread _ hchain
  have hcut := hchain
  rw [ChainConsistent, hat.split, BackwardMove.before] at hcut
  simp only [List.append_assoc, List.cons_append, chainFrom_append, ChainFrom] at hcut
  obtain ⟨_, hfirst, _, haway, hpre, hpoint, _⟩ := hcut
  have hmoved := hat.moved m.first List.mem_cons_self
  have hmobile : ∀ x ∈ m.mobileblock, x.chosen = m.point.chosen :=
    fun x hx => hat.moved x (List.mem_cons_of_mem _ hx)
  have hblock := lastChosen_block m.point.chosen m.mobileblock hmobile
  rw [hmoved, hblock] at haway
  have haway' := hat.away m.away List.mem_cons_self
  have hpref : ∀ x ∈ m.prefrontier, x.chosen ≠ m.point.chosen :=
    fun x hx => hat.away x (List.mem_cons_of_mem _ hx)
  have hswitch : m.point.caller ≠ m.point.chosen := by
    rw [hpoint]
    exact lastChosen_away m.point.chosen m.away.chosen m.prefrontier haway' hpref
  refine ⟨hswitch, ?_⟩
  rw [hbefore, hat.split, patchUpSchedule, hpatched, history_of_chain see thread _ _ hpre]
  simp only [BackwardMove.before, BackwardMove.after, List.append_assoc, List.cons_append,
    chosenHistory_append, chosenHistory, setAddr, ← hpoint, ← hfirst, hmoved, hblock,
    chosenHistory_block see thread m.point.chosen m.mobileblock hmobile]
  refine ⟨chosenHistory see thread mainThread m.start,
    chosenHistory see thread m.point.chosen m.postfrontier, ?_⟩
  by_cases ht : m.point.chosen = thread
  · have hq : m.point.caller ≠ thread := fun h => hswitch (h.trans ht.symm)
    have hP := chosenHistory_away see thread m.away.chosen m.prefrontier
      (ht ▸ haway') (ht ▸ hpref)
    simp only [ht, hq, hP, if_true, if_false, List.nil_append, List.append_assoc, and_self]
  · simp only [ht, if_false, List.nil_append, List.append_assoc, and_self]

-- And for a removal: the thread keeps what it did before its last block.
theorem RemovalMove.At.histories {m : RemovalMove} {self : Schedule} {target : Name}
    (hat : m.At self target) (hchain : self.ChainConsistent)
    (hsee : ∀ x caller, see { x with caller } = see x) :
    (m.front = [] ∨ m.first.caller ≠ target) ∧
    ∃ front back : List α, (m.back = [] → back = []) ∧
      history see thread self.schedule =
        front ++ (if m.first.caller = thread then see m.first else []) ++
          (if target = thread then (m.block ++ m.back.take 1).flatMap see else back) ∧
      history see thread (patchUpSchedule m.after) =
        front ++ (if m.first.caller = thread then
          ((m.back.modifyHead (setAddr m.first.addr)).take 1).flatMap see else []) ++
          (if target = thread then [] else back) := by
  have hpatched := history_patchFrom see thread hsee mainThread m.after
  have hbefore := history_of_chain see thread mainThread _ hchain
  have hcut := hchain
  rw [ChainConsistent, hat.split, RemovalMove.before] at hcut
  simp only [List.append_assoc, List.cons_append, chainFrom_append, ChainFrom] at hcut
  obtain ⟨_, hfirst, _⟩ := hcut
  have hremoved := hat.removed m.first List.mem_cons_self
  have hblock : ∀ x ∈ m.block, x.chosen = target :=
    fun x hx => hat.removed x (List.mem_cons_of_mem _ hx)
  refine ⟨?_, ?_⟩
  · by_cases hfront : m.front = []
    · exact Or.inl hfront
    · right
      rw [hfirst, lastChosen, List.getLast?_eq_some_getLast hfront, Option.map_some,
        Option.getD_some]
      exact hat.maximal _ (List.getLast?_eq_some_getLast hfront)
  rw [hbefore, hat.split, patchUpSchedule, hpatched]
  simp only [RemovalMove.before, RemovalMove.after, List.append_assoc, List.cons_append,
    chosenHistory_append, chosenHistory, ← hfirst, hremoved,
    chosenHistory_block see thread target m.block hblock,
    lastChosen_block target m.block hblock, chosenHistory_head see thread target m.back,
    chosenHistory_head see thread m.first.caller, tailHistory_modifyHead]
  refine ⟨chosenHistory see thread mainThread m.front, tailHistory see thread m.back,
    fun hback => by rw [hback, tailHistory], ?_⟩
  by_cases ht : target = thread
  · have hE : tailHistory see thread m.back = [] := by
      cases hback : m.back with
      | nil => rfl
      | cons x rest =>
          have hx : ∀ y ∈ x :: rest, y.chosen ≠ thread := ht ▸ hback ▸ hat.away
          exact chosenHistory_away see thread x.chosen rest (hx x List.mem_cons_self)
            fun y hy => hx y (List.mem_cons_of_mem x hy)
    simp only [ht, hE, if_true, List.append_nil, List.flatMap_append, and_self]
  · simp only [ht, if_false, List.nil_append, and_self]

end

theorem ForwardMove.At.addrHistory {m : ForwardMove} {self : Schedule} {frontier : Nat}
    (hat : m.At self frontier) (hchain : self.ChainConsistent) (thread : Name) :
    (m.endblock ≠ [] → addrHistory thread (patchUpSchedule m.after) =
      addrHistory thread self.schedule) ∧
    (m.endblock = [] →
      (thread = m.point.caller → addrHistory thread (patchUpSchedule m.after) =
        addrHistory thread self.schedule ++ ["0"]) ∧
      (thread = m.first.caller → addrHistory thread self.schedule =
        addrHistory thread (patchUpSchedule m.after) ++ [m.first.addr]) ∧
      (thread ≠ m.point.caller → thread ≠ m.first.caller →
        addrHistory thread (patchUpSchedule m.after) = addrHistory thread self.schedule)) := by
  obtain ⟨hne, front, back, hnil, hold, hnew⟩ :=
    hat.histories (fun x => [x.addr]) thread hchain fun _ _ => rfl
  simp only [addrHistory_eq, hold, hnew]
  constructor
  · intro hend
    obtain ⟨x, rest, hcons⟩ := List.exists_cons_of_ne_nil hend
    simp [hcons, ForwardMove.endAddr, setAddr]
  · intro hend
    rw [hnil hend]
    refine ⟨?_, ?_, ?_⟩
    · rintro rfl
      simp [hend, ForwardMove.endAddr, setAddr]
    · rintro rfl
      simp [hend, hne]
    · intro hpoint hfirst
      simp [Ne.symm hpoint, Ne.symm hfirst]

theorem BackwardMove.At.addrHistory {m : BackwardMove} {self : Schedule} {frontier : Nat}
    (hat : m.At self frontier) (hchain : self.ChainConsistent) (thread : Name) :
    addrHistory thread (patchUpSchedule m.after) = addrHistory thread self.schedule := by
  obtain ⟨_, front, back, hold, hnew⟩ :=
    hat.histories (fun x => [x.addr]) thread hchain fun _ _ => rfl
  simp only [addrHistory_eq, hold, hnew, setAddr]

theorem RemovalMove.At.addrHistory {m : RemovalMove} {self : Schedule} {target : Name}
    (hat : m.At self target) (hchain : self.ChainConsistent) (hne : m.after ≠ [])
    (thread : Name) :
    (thread = target → addrHistory thread self.schedule =
      addrHistory thread (patchUpSchedule m.after) ++
        (m.block ++ m.back.take 1).map fun x => x.addr) ∧
    (thread ≠ target → m.back ≠ [] ∨ thread ≠ m.first.caller →
      addrHistory thread (patchUpSchedule m.after) = addrHistory thread self.schedule) ∧
    (m.back = [] → m.first.caller ≠ target ∧
      (thread = m.first.caller → addrHistory thread self.schedule =
        addrHistory thread (patchUpSchedule m.after) ++ [m.first.addr])) := by
  obtain ⟨hcaller, front, back, hnil, hold, hnew⟩ :=
    hat.histories (fun x => [x.addr]) thread hchain fun _ _ => rfl
  have hlast : m.back = [] → m.first.caller ≠ target := by
    intro hback
    refine hcaller.resolve_left fun hfront => hne ?_
    rw [RemovalMove.after, hfront, hback]
    rfl
  simp only [addrHistory_eq, hold, hnew]
  refine ⟨?_, ?_, ?_⟩
  · rintro rfl
    cases hback : m.back with
    | nil => simp [hlast hback, List.map_eq_flatMap]
    | cons x rest => simp [setAddr, List.map_eq_flatMap]
  · intro htarget hkeep
    cases hback : m.back with
    | nil =>
        have hfirst := hkeep.resolve_left (not_not_intro hback)
        simp [Ne.symm htarget, Ne.symm hfirst]
    | cons x rest => simp [Ne.symm htarget, setAddr]
  · intro hback
    refine ⟨hlast hback, ?_⟩
    rintro rfl
    simp [Ne.symm (hlast hback), hback, hnil hback]

-- Thread 2 waits on a condition. Thread 1 signals it and is preempted at that point.
def handOver : Schedule where
  addrlist := ["all"]
  schedule := [
    { chosen := some "0", caller := some "0", type := "After_Create", addr := "0x401a10",
      enabled := [some "0", some "1"] },
    { chosen := some "2", caller := some "0", type := "After_Create", addr := "0x401a40",
      enabled := [some "0", some "1", some "2"] },
    { chosen := some "0", caller := some "2", type := "Simulate_Cond_Wait",
      addr := "0x401d20", enabled := [some "0", some "1"] },
    { chosen := some "1", caller := some "0", type := "Before_Mutex_Lock",
      addr := "0x401c30", enabled := [some "0", some "1"] },
    { chosen := some "0", caller := some "1", type := "Simulate_Signal", addr := "0x401b20",
      enabled := [some "0", some "1", some "2"],
      signal := some { signalled := some "2", cond := "0x6020c0", oncond := [some "2"] } },
    { chosen := some "1", caller := some "0", type := "After_Mutex_Unlock",
      addr := "0x401c50", enabled := [some "0", some "1", some "2"] }]

theorem handOver_chain : handOver.ChainConsistent :=
  ⟨rfl, rfl, rfl, rfl, rfl, rfl, trivial⟩

-- Every operation keeps the addresses that a thread sees. Only at the end of the schedule the
-- thread that switched into the block loses its last one, and a block moved forward from there
-- leaves its thread the placeholder "0".
theorem moves_keep_addrHistory (self : Schedule) (hchain : self.ChainConsistent) :
    (∀ frontier sched, self.consolidateFrontierForward frontier = some sched →
      sched.schedule ≠ [] → ∃ m : ForwardMove, m.At self frontier ∧
        (m.endblock ≠ [] → ∀ thread,
          addrHistory thread sched.schedule = addrHistory thread self.schedule) ∧
        (m.endblock = [] →
          addrHistory m.point.caller sched.schedule =
            addrHistory m.point.caller self.schedule ++ ["0"] ∧
          addrHistory m.first.caller self.schedule =
            addrHistory m.first.caller sched.schedule ++ [m.first.addr] ∧
          ∀ thread, thread ≠ m.point.caller → thread ≠ m.first.caller →
            addrHistory thread sched.schedule = addrHistory thread self.schedule)) ∧
    (∀ frontier sched, self.consolidateFrontierBackward frontier = some sched →
      sched.schedule ≠ [] → ∀ thread,
        addrHistory thread sched.schedule = addrHistory thread self.schedule) ∧
    ∀ target sched, self.removeFinalBlockOfThread target = some sched →
      sched.schedule ≠ [] → ∃ m : RemovalMove, m.At self target ∧
        addrHistory target self.schedule = addrHistory target sched.schedule ++
          (m.block ++ m.back.take 1).map (fun x => x.addr) ∧
        (∀ thread, thread ≠ target → (m.back ≠ [] ∨ thread ≠ m.first.caller) →
          addrHistory thread sched.schedule = addrHistory thread self.schedule) ∧
        (m.back = [] → m.first.caller ≠ target ∧
          addrHistory m.first.caller self.schedule =
            addrHistory m.first.caller sched.schedule ++ [m.first.addr]) := by
  refine ⟨?_, ?_, ?_⟩
  · intro frontier sched h hne
    obtain ⟨⟨_, tei⟩, htei, ⟨⟩⟩ := Option.bind_eq_some_iff.mp h
    obtain ⟨m, hat, rfl, _⟩ := consolidateFrontierForwardTEI_spec self frontier _ tei hne htei
    have hall := hat.addrHistory hchain
    refine ⟨m, hat, fun hend thread => (hall thread).1 hend, fun hend => ⟨?_, ?_, ?_⟩⟩
    · exact ((hall _).2 hend).1 rfl
    · exact ((hall _).2 hend).2.1 rfl
    · exact fun thread hpoint hfirst => ((hall thread).2 hend).2.2 hpoint hfirst
  · intro frontier sched h hne
    obtain ⟨m, hat, rfl⟩ := consolidateFrontierBackward_spec self frontier sched hne h
    exact hat.addrHistory hchain
  · intro target sched h hne
    obtain ⟨m, hat, rfl⟩ := removeFinalBlockOfThread_spec self target sched hne h
    have hall := hat.addrHistory hchain (by simpa using hne)
    refine ⟨m, hat, (hall target).1 rfl, fun thread => (hall thread).2.1, fun hback => ?_⟩
    exact ⟨((hall target).2.2 hback).1, ((hall _).2.2 hback).2 rfl⟩

theorem moves_keep_addrHistory_handOver :
    let sched := (handOver.consolidateFrontierBackward 4).getD {}
    sched.schedule.length = 6 ∧
      ∀ thread, addrHistory thread sched.schedule = addrHistory thread handOver.schedule := by
  refine ⟨by decide, ?_⟩
  exact (moves_keep_addrHistory handOver handOver_chain).2.1 4 _ (by decide) (by decide)

end Thrille.Schedule
