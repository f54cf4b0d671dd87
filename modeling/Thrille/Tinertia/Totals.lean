import Thrille.Lib.OrderedMap
import Thrille.Tinertia.Theorems

namespace Thrille

theorem Schedule.getNonPreemptiveContextSwitches_eq (self : Schedule) :
    self.getNonPreemptiveContextSwitches = some self._getNonPreemptiveContextSwitches := by
  simp [getNonPreemptiveContextSwitches, self.switches_add_preemptions]

-- What is counted of a schedule.
inductive Measure
  | blocks
  | threads
  | ctxt
  | nonpre
  | pre

namespace Measure

def of (sched : Schedule) : Measure → Int
  | .blocks => sched.schedule.length
  | .threads => sched.getNumberOfThreads
  | .ctxt => sched._getContextSwitches
  | .nonpre => sched._getNonPreemptiveContextSwitches
  | .pre => sched._getPreemptions

def stat (stat : TransformStat) : Measure → Int
  | .blocks => stat.blocks
  | .threads => stat.threads
  | .ctxt => stat.ctxt
  | .nonpre => stat.nonpre
  | .pre => stat.pre

-- The total that `ensureSanity` computes over all transformations.
def removed (m : Measure) (stats : TransformStats) : Int :=
  (stats.toList.map fun x => m.stat x.2).sum

end Measure

namespace Simplifier

-- The switches of every transformation are those of the two kinds.
def Split (stats : TransformStats) : Prop :=
  ∀ x ∈ stats.toList, x.2.nonpre + x.2.pre = x.2.ctxt

-- The entry that `printEffect` leaves for a transformation.
def recorded (stat : TransformStat) (oldsched newsched : Schedule) : TransformStat where
  blocks := stat.blocks + (oldsched.schedule.length - newsched.schedule.length)
  threads := stat.threads + (oldsched.getNumberOfThreads - newsched.getNumberOfThreads)
  ctxt := stat.ctxt + (oldsched._getContextSwitches - newsched._getContextSwitches)
  nonpre := stat.nonpre +
    (oldsched._getNonPreemptiveContextSwitches - newsched._getNonPreemptiveContextSwitches)
  pre := stat.pre + (oldsched._getPreemptions - newsched._getPreemptions)

theorem stat_recorded (m : Measure) (stat : TransformStat) (oldsched newsched : Schedule) :
    m.stat (recorded stat oldsched newsched) =
      m.stat stat + (m.of oldsched - m.of newsched) := by
  cases m with
  | blocks => rfl
  | threads => rfl
  | ctxt => rfl
  | nonpre => rfl
  | pre => rfl

theorem printEffect_eq (stats : TransformStats) (string : String) (oldsched newsched : Schedule) :
    printEffect stats string oldsched newsched =
      some (stats.insert string (recorded (stats.getD string {}) oldsched newsched)) := by
  have hold := oldsched.switches_add_preemptions
  have hnew := newsched.switches_add_preemptions
  unfold printEffect
  simp only [Schedule.getContextSwitches_eq, Schedule.getPreemptions_eq,
    Schedule.getNonPreemptiveContextSwitches_eq, Option.bind_eq_bind, Option.bind_some, guard,
    if_pos hold, if_pos hnew, Option.pure_def]
  rfl

-- What is recorded is added to the totals, once for each measure.
theorem removed_printEffect (stats stats' : TransformStats) (string : String)
    (oldsched newsched : Schedule) (h : printEffect stats string oldsched newsched = some stats')
    (m : Measure) :
    m.removed stats' = m.removed stats + (m.of oldsched - m.of newsched) := by
  rw [printEffect_eq, Option.some.injEq] at h
  have hzero : m.stat {} = 0 := by
    cases m with
    | _ => rfl
  rw [← h, Measure.removed, Measure.removed,
    OrderedMap.sum_toList_insert stats string _ {} m.stat hzero, stat_recorded]
  omega

theorem split_printEffect (stats stats' : TransformStats) (string : String)
    (oldsched newsched : Schedule) (h : printEffect stats string oldsched newsched = some stats')
    (hsplit : Split stats) : Split stats' := by
  rw [printEffect_eq, Option.some.injEq] at h
  have hold := oldsched.switches_add_preemptions
  have hnew := newsched.switches_add_preemptions
  have hstat : (stats.getD string {}).nonpre + (stats.getD string {}).pre =
      (stats.getD string {}).ctxt := by
    by_cases hmem : string ∈ stats
    · exact hsplit _ (OrderedMap.getD_mem_toList stats string {} hmem)
    · rw [Std.TreeMap.getD_eq_fallback hmem]
      rfl
  rintro ⟨key, stat⟩ hx
  rw [← h] at hx
  rw [Std.TreeMap.mem_toList_iff_getElem?_eq_some, OrderedMap.get_insert_eq] at hx
  split at hx
  · cases hx
    simp only [recorded]
    omega
  · rw [← Std.TreeMap.mem_toList_iff_getElem?_eq_some] at hx
    exact hsplit (key, stat) hx

theorem removed_split (stats : TransformStats) (hsplit : Split stats) :
    Measure.pre.removed stats + Measure.nonpre.removed stats = Measure.ctxt.removed stats := by
  unfold Measure.removed
  unfold Split at hsplit
  generalize stats.toList = entries at hsplit ⊢
  induction entries with
  | nil => rfl
  | cons x rest ih =>
      have hhead := hsplit x List.mem_cons_self
      have hrest := ih fun y hy => hsplit y (List.mem_cons_of_mem x hy)
      simp only [List.map_cons, List.sum_cons, Measure.stat] at hrest ⊢
      omega

-- The assertions compare the totals with the two schedules, measure by measure.
theorem ensureSanity_iff_removed (start_schedule sched : Schedule) (stats : TransformStats)
    (hsplit : Split stats) :
    ensureSanity start_schedule stats sched = some () ↔
      ∀ m : Measure, m.of start_schedule - m.of sched = m.removed stats := by
  have hsum := removed_split stats hsplit
  have hall : (stats.toList.all fun x => x.2.nonpre + x.2.pre == x.2.ctxt) = true := by
    rw [List.all_eq_true]
    intro x hx
    exact beq_iff_eq.mpr (hsplit x hx)
  unfold ensureSanity
  simp only [Schedule.getContextSwitches_eq, Schedule.getPreemptions_eq,
    Schedule.getNonPreemptiveContextSwitches_eq, Option.bind_eq_bind, Option.bind_some,
    Option.bind_eq_some_iff, Option.guard_eq_some', hall]
  constructor
  · rintro ⟨-, -, -, -, -, hblocks, -, hthreads, -, hctxt, -, hnonpre, hpre⟩ m
    cases m with
    | blocks => exact hblocks
    | threads => exact hthreads
    | ctxt => exact hctxt
    | nonpre => exact hnonpre
    | pre => exact hpre
  · intro h
    exact ⟨(), hsum, (), trivial, (), h .blocks, (), h .threads, (), h .ctxt, (), h .nonpre, h .pre⟩

variable {τ : Type} {tester : Tester τ} {turns : Nat} {debug : Bool}

-- A program of two parts runs when both do.
theorem run_bind_eq_some {α β : Type} (prog : StateT τ Option α) (next : α → StateT τ Option β)
    (world final : τ) (result : β) :
    (prog >>= next).run world = some (result, final) ↔
      ∃ middle state, prog.run world = some (middle, state) ∧
        (next middle).run state = some (result, final) := by
  rw [StateT.run_bind, Option.bind_eq_bind, Option.bind_eq_some_iff]
  constructor
  · rintro ⟨⟨middle, state⟩, hprog, hnext⟩
    exact ⟨middle, state, hprog, hnext⟩
  · rintro ⟨middle, state, hprog, hnext⟩
    exact ⟨(middle, state), hprog, hnext⟩

theorem run_lift_eq_some {α : Type} (value : Option α) (world final : τ) (result : α) :
    (liftM value : StateT τ Option α).run world = some (result, final) ↔
      value = some result ∧ world = final := by
  cases value with
  | none => exact ⟨nofun, nofun⟩
  | some found =>
      show some (found, world) = some (result, final) ↔ _
      rw [Option.some.injEq, Prod.mk.injEq, Option.some.injEq]

-- Iterations of the outer loop in a row, with what the block removal of each makes of the schedule.
inductive Rounds (tester : Tester τ) (turns : Nat) (debug : Bool) :
    Schedule → TransformStats → τ → List (Schedule × Schedule) →
      Schedule → TransformStats → τ → Prop
  | nil (sched : Schedule) (stats : TransformStats) (world : τ) :
      Rounds tester turns debug sched stats world [] sched stats world
  | cons {sched rtmp_sched btmp_sched last : Schedule} {stats stats' stats'' : TransformStats}
      {world removed world' final : τ} {removals : List (Schedule × Schedule)}
      (hremove : (blockRemove tester sched).run world = some (rtmp_sched, removed))
      (hiterate : (iterate tester turns debug stats sched).run world =
        some ((btmp_sched, stats'), world'))
      (hrest : Rounds tester turns debug btmp_sched stats' world' removals last stats'' final) :
      Rounds tester turns debug sched stats world ((sched, rtmp_sched) :: removals) last stats'' final

-- What one iteration does to the totals: only the block removal may be left out.
theorem iterate_removed {sched btmp_sched : Schedule} {stats stats' : TransformStats}
    {world world' : τ}
    (hiterate : (iterate tester turns debug stats sched).run world =
      some ((btmp_sched, stats'), world')) (hsplit : Split stats) :
    Split stats' ∧ ∃ rtmp_sched removed,
      (blockRemove tester sched).run world = some (rtmp_sched, removed) ∧
      ∀ m : Measure, m.removed stats' = m.removed stats + (m.of sched - m.of btmp_sched) -
        if debug then 0 else m.of sched - m.of rtmp_sched := by
  rw [iterate, run_bind_eq_some] at hiterate
  obtain ⟨⟨rtmp_sched, stats1⟩, world1, hremoveDebug, hiterate⟩ := hiterate
  rw [run_bind_eq_some] at hiterate
  obtain ⟨ftmp_sched, world2, -, hiterate⟩ := hiterate
  rw [run_bind_eq_some] at hiterate
  obtain ⟨stats2, world3, hforward, hiterate⟩ := hiterate
  rw [run_bind_eq_some] at hiterate
  obtain ⟨btmp, world4, -, hiterate⟩ := hiterate
  rw [run_bind_eq_some] at hiterate
  obtain ⟨stats3, world5, hbackward, hiterate⟩ := hiterate
  cases hiterate
  have hforward := ((run_lift_eq_some _ _ _ _).mp hforward).1
  have hbackward := ((run_lift_eq_some _ _ _ _).mp hbackward).1
  rw [blockRemoveDebug, run_bind_eq_some] at hremoveDebug
  obtain ⟨br_sched, world6, hremove, hremoveDebug⟩ := hremoveDebug
  cases debug with
  | false =>
      cases hremoveDebug
      have hsplit2 := split_printEffect _ _ _ _ _ hforward hsplit
      refine ⟨split_printEffect _ _ _ _ _ hbackward hsplit2, _, _, hremove, fun m => ?_⟩
      have h2 := removed_printEffect _ _ _ _ _ hforward m
      have h3 := removed_printEffect _ _ _ _ _ hbackward m
      rw [if_neg Bool.false_ne_true]
      omega
  | true =>
      rw [if_pos rfl, run_bind_eq_some] at hremoveDebug
      obtain ⟨stats0, world7, heffect, hremoveDebug⟩ := hremoveDebug
      cases hremoveDebug
      have heffect := ((run_lift_eq_some _ _ _ _).mp heffect).1
      have hsplit1 := split_printEffect _ _ _ _ _ heffect hsplit
      have hsplit2 := split_printEffect _ _ _ _ _ hforward hsplit1
      refine ⟨split_printEffect _ _ _ _ _ hbackward hsplit2, _, _, hremove, fun m => ?_⟩
      have h1 := removed_printEffect _ _ _ _ _ heffect m
      have h2 := removed_printEffect _ _ _ _ _ hforward m
      have h3 := removed_printEffect _ _ _ _ _ hbackward m
      rw [if_pos rfl]
      omega

-- The sum telescopes over the iterations.
theorem Rounds.removed {sched last : Schedule} {stats stats' : TransformStats} {world final : τ}
    {removals : List (Schedule × Schedule)}
    (h : Rounds tester turns debug sched stats world removals last stats' final)
    (hsplit : Split stats) :
    Split stats' ∧ ∀ m : Measure, m.removed stats' = m.removed stats + (m.of sched - m.of last) -
      if debug then 0 else (removals.map fun x => m.of x.1 - m.of x.2).sum := by
  induction h with
  | nil sched stats world =>
      refine ⟨hsplit, fun m => ?_⟩
      rw [List.map_nil, List.sum_nil, ite_self]
      omega
  | cons hremove hiterate hrest ih =>
      obtain ⟨hsplit', rtmp_sched, removed, hremove', hround⟩ := iterate_removed hiterate hsplit
      rw [hremove] at hremove'
      cases hremove'
      obtain ⟨hlast, hremoved⟩ := ih hsplit'
      refine ⟨hlast, fun m => ?_⟩
      have hfirst := hround m
      have hothers := hremoved m
      rw [List.map_cons, List.sum_cons]
      dsimp only
      split_ifs at hfirst hothers ⊢ <;> omega

theorem rounds_simplifyLoop (left i : Nat) (stats stats' : TransformStats)
    (last_sched sched : Schedule) (world final : τ) (done : Simplified)
    (hloop : (simplifyLoop tester turns debug left i stats last_sched sched).run world =
      some ((done, stats'), final)) (hsplit : Split stats) :
    ∃ removals, Rounds tester turns debug sched stats world removals done.schedule stats' final := by
  induction left generalizing i stats last_sched sched world done with
  | zero => cases hloop
  | succ left ih =>
      rw [simplifyLoop, Schedule.getContextSwitches_eq, Schedule.getContextSwitches_eq,
        run_bind_eq_some] at hloop
      obtain ⟨current_ctxt, world1, hcurrent, hloop⟩ := hloop
      obtain ⟨-, rfl⟩ := (run_lift_eq_some _ _ _ _).mp hcurrent
      rw [run_bind_eq_some] at hloop
      obtain ⟨last_ctxt, world2, hlast, hloop⟩ := hloop
      obtain ⟨-, rfl⟩ := (run_lift_eq_some _ _ _ _).mp hlast
      split at hloop
      · rw [run_bind_eq_some] at hloop
        obtain ⟨⟨btmp_sched, stats1⟩, world3, hiterate, hloop⟩ := hloop
        rw [run_bind_eq_some] at hloop
        obtain ⟨⟨rest, stats2⟩, world4, hrest, hloop⟩ := hloop
        cases hloop
        obtain ⟨hsplit1, rtmp_sched, removed, hremove, -⟩ := iterate_removed hiterate hsplit
        obtain ⟨removals, hrounds⟩ := ih _ _ _ _ _ _ hrest hsplit1
        exact ⟨_, Rounds.cons hremove hiterate hrounds⟩
      · cases hloop
        exact ⟨[], Rounds.nil _ _ _⟩

-- With `debug` the totals are those of the two schedules. Without it they lack what the block
-- removals have taken away, which is nothing only if that comes to nothing in all.
theorem ensureSanity_iff (tester : Tester τ) (turns : Nat) (debug : Bool)
    (start_schedule : Schedule) (stats : TransformStats) (world final : τ) (done : Simplified)
    (hloop : (simplifyLoop tester turns debug turns 0 ∅ {} start_schedule).run world =
      some ((done, stats), final)) :
    (∃ removals,
      Rounds tester turns debug start_schedule ∅ world removals done.schedule stats final) ∧
    ∀ removals,
      Rounds tester turns debug start_schedule ∅ world removals done.schedule stats final →
      (ensureSanity start_schedule stats done.schedule = some () ↔
        debug = true ∨ ∀ m : Measure, (removals.map fun x => m.of x.1 - m.of x.2).sum = 0) := by
  have hempty : Split (∅ : TransformStats) := by
    intro x hx
    cases (show x ∈ [] from hx)
  refine ⟨rounds_simplifyLoop turns 0 ∅ stats {} start_schedule world final done hloop hempty, ?_⟩
  intro removals hrounds
  obtain ⟨hsplit, hremoved⟩ := hrounds.removed hempty
  have hzero (m : Measure) : m.removed ∅ = 0 := rfl
  rw [ensureSanity_iff_removed start_schedule done.schedule stats hsplit]
  cases debug with
  | true =>
      refine iff_of_true (fun m => ?_) (Or.inl rfl)
      have hm := hremoved m
      rw [if_pos rfl, hzero] at hm
      omega
  | false =>
      constructor
      · intro h
        refine Or.inr fun m => ?_
        have hm := hremoved m
        have hsum := h m
        rw [if_neg Bool.false_ne_true, hzero] at hm
        omega
      · intro h m
        have hm := hremoved m
        have hsum := (h.resolve_left Bool.false_ne_true) m
        rw [if_neg Bool.false_ne_true, hzero, hsum] at hm
        omega

theorem ensureSanity_deadlock :
    ∃ done stats,
      (simplifyLoop deadlockTester 4 true 4 0 ∅ {} deadlockSchedule).run () =
        some ((done, stats), ()) ∧
      ensureSanity deadlockSchedule stats done.schedule = some () := by
  have hsome : ((simplifyLoop deadlockTester 4 true 4 0 ∅ {} deadlockSchedule).run ()).isSome =
      true := by
    decide +kernel
  obtain ⟨⟨⟨done, stats⟩, final⟩, hloop⟩ := Option.isSome_iff_exists.mp hsome
  obtain ⟨⟨removals, hrounds⟩, hiff⟩ :=
    ensureSanity_iff deadlockTester 4 true deadlockSchedule stats () final done hloop
  exact ⟨done, stats, hloop, (hiff removals hrounds).mpr (Or.inl rfl)⟩

-- The block removal of the first iteration takes two points away, and nothing records it.
theorem ensureSanity_deadlock_fails :
    (∃ done stats,
      (simplifyLoop deadlockTester 4 false 4 0 ∅ {} deadlockSchedule).run () =
        some ((done, stats), ()) ∧
      done.schedule.error = deadlockSchedule.error ∧
      ensureSanity deadlockSchedule stats done.schedule = none) ∧
    (simplify deadlockTester 4 false deadlockSchedule).run () = none := by
  refine ⟨?_, by decide +kernel⟩
  have hfails : ((simplifyLoop deadlockTester 4 false 4 0 ∅ {} deadlockSchedule).run ()).map
      (fun result => (result.1.1.schedule.error,
        ensureSanity deadlockSchedule result.1.2 result.1.1.schedule)) =
      some (deadlockSchedule.error, none) := by
    decide +kernel
  obtain ⟨⟨⟨done, stats⟩, final⟩, hloop, hresult⟩ := Option.map_eq_some_iff.mp hfails
  rw [Prod.mk.injEq] at hresult
  exact ⟨done, stats, hloop, hresult.1, hresult.2⟩

end Simplifier

end Thrille
