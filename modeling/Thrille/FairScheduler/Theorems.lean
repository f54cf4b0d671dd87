import Thrille.FairScheduler.Update
import Thrille.Lib.Acyclic

namespace Thrille.FairScheduler

open OrderedMap Digraph

theorem isFairEnabled_iff (fs : FairScheduler) (target : ThrID) (enmap : ThrMap Bool) :
    fs.isFairEnabled target enmap = true ↔
      enmap.getD target false = true ∧
        ∀ h, enmap.getD h false = true → ¬fs.Below h target := by
  simp only [isFairEnabled, Bool.and_eq_true, List.all_eq_true, Bool.not_eq_true',
    ← Bool.not_eq_true, ← Std.TreeSet.mem_iff_contains, Below]
  refine and_congr_right fun _ => ⟨?_, ?_⟩
  · intro hall h hh hbelow
    have hmem : h ∈ fs.fair_priority := by
      by_contra hn
      simp [Std.TreeMap.getD_eq_fallback hn] at hbelow
    exact hall _ (getD_mem_toList _ h ∅ hmem) ⟨hh, hbelow⟩
  · rintro hnone ⟨h, below⟩ hentry ⟨hh, hbelow⟩
    rw [← mem_toList_getD _ h below ∅ hentry] at hbelow
    exact hnone h hh hbelow

theorem getFairEnabledMap_getD (fs : FairScheduler) (s : SchedPointInfo) (t : ThrID) :
    (fs.getFairEnabledMap s).1.getD t false = fs.isFairEnabled t s.enabled := by
  rw [getFairEnabledMap, getD_foldl_insert]
  split
  · rfl
  · rename_i hkey
    have hmem : t ∉ s.enabled := fun h => hkey (Std.TreeMap.mem_keys.mpr h)
    have hoff : s.enabled.getD t false = false := Std.TreeMap.getD_eq_fallback hmem
    simp [isFairEnabled, hoff]

@[simp] theorem getFairEnabledMap_below (fs : FairScheduler) (s : SchedPointInfo) :
    (fs.getFairEnabledMap s).2.Below = fs.Below := rfl

-- One update: the caller is released by everybody who waited for it, and a yield makes it wait
-- for threads that have not been scheduled since its last yield. The caller itself has been.
theorem updateDataStructures_below (fs : FairScheduler) (s : SchedPointInfo)
    (hkey : s.thread ∈ s.enabled) (h t : ThrID)
    (hb : (fs.updateDataStructures s).Below h t) :
    h ≠ s.thread ∧ (fs.Below h t ∨ t = s.thread) := by
  obtain ⟨visited, hall, hv⟩ := visitAll_visited
    { fs with fair_priority := fs.fair_priority.erase s.thread } s
  have hbefore (x : ThrID) : (visitAll { fs with
      fair_priority := fs.fair_priority.erase s.thread } s).2.Below h x ↔
      s.thread ≠ h ∧ fs.Below h x := by
    rw [← below_erase]
    simp only [Below, hv.priority]
  simp only [updateDataStructures] at hb
  split at hb
  · rw [justYield_below, hbefore] at hb
    rcases hb with ⟨hne, hb⟩ | ⟨_, hsch, rfl⟩
    · exact ⟨hne.symm, Or.inl hb⟩
    · refine ⟨?_, Or.inr rfl⟩
      rintro rfl
      exact hsch ((hv.scheduled _ _).mpr (Or.inr ⟨hall _ hkey, rfl⟩))
  · rw [hbefore] at hb
    exact ⟨hb.1.symm, Or.inl hb.2⟩

theorem updateDataStructures_acyclic (fs : FairScheduler) (s : SchedPointInfo)
    (hkey : s.thread ∈ s.enabled) (hacyclic : Acyclic fs.Below) :
    Acyclic (fs.updateDataStructures s).Below :=
  Acyclic.add_sink hacyclic s.thread
    (fun _ hb => (updateDataStructures_below fs s hkey _ _ hb).1 rfl)
    (fun _ _ hb => (updateDataStructures_below fs s hkey _ _ hb).2)

theorem exists_fairEnabled (fs : FairScheduler) (hacyclic : Acyclic fs.Below)
    (enmap : ThrMap Bool) (t : ThrID) (ht : enmap.getD t false = true) :
    ∃ t, fs.isFairEnabled t enmap = true := by
  classical
  let enabled := enmap.keys.toFinset.filter fun k => enmap.getD k false = true
  have hmem (k : ThrID) : k ∈ enabled ↔ enmap.getD k false = true := by
    simp only [enabled, Finset.mem_filter, List.mem_toFinset, Std.TreeMap.mem_keys,
      and_iff_right_iff_imp]
    exact fun hk => mem_of_getD_ne enmap k false (by simp [hk])
  obtain ⟨b, hb, hsource⟩ := hacyclic.exists_source enabled ⟨t, (hmem t).mpr ht⟩
  refine ⟨b, (isFairEnabled_iff fs b enmap).mpr ⟨(hmem b).mp hb, ?_⟩⟩
  exact fun h hh => hsource h ((hmem h).mpr hh)

-- The scheduler that a call leaves behind, and the fair-enabled map that it computes.
def afterCall (fs : FairScheduler) (s : SchedPointInfo) : FairScheduler :=
  ((fs.updateDataStructures s).getFairEnabledMap s).2

def fairMapOf (fs : FairScheduler) (s : SchedPointInfo) : ThrMap Bool :=
  ((fs.updateDataStructures s).getFairEnabledMap s).1

theorem nonpreemptiveFairSchedule_state (fs : FairScheduler) (s : SchedPointInfo) :
    (fs.nonpreemptiveFairSchedule s).2.2 = fs.afterCall s := by
  unfold nonpreemptiveFairSchedule afterCall
  dsimp only
  split <;> rfl

theorem fairMapOf_getD (fs : FairScheduler) (s : SchedPointInfo) (t : ThrID) :
    (fs.fairMapOf s).getD t false = true ↔
      s.enabled.getD t false = true ∧
        ∀ h, s.enabled.getD h false = true → ¬(fs.afterCall s).Below h t := by
  rw [fairMapOf, getFairEnabledMap_getD, isFairEnabled_iff]
  rfl

theorem nonpreemptiveFairSchedule_choice (fs : FairScheduler) (s : SchedPointInfo) :
    (fs.nonpreemptiveFairSchedule s).1 =
      if (fs.fairMapOf s).getD s.thread false then some s.thread
      else ((fs.fairMapOf s).toList.find? fun entry => entry.2).map Prod.fst := by
  unfold nonpreemptiveFairSchedule fairMapOf
  dsimp only
  split <;> rfl

theorem choice_fairEnabled (fs : FairScheduler) (s : SchedPointInfo) (t : ThrID)
    (h : (fs.nonpreemptiveFairSchedule s).1 = some t) : (fs.fairMapOf s).getD t false = true := by
  rw [nonpreemptiveFairSchedule_choice] at h
  split at h
  · rename_i hfair
    cases h
    exact hfair
  · obtain ⟨⟨k, b⟩, hfind, rfl⟩ := Option.map_eq_some_iff.mp h
    have hb : b = true := by simpa using List.find?_some hfind
    exact hb ▸ mem_toList_getD _ k b false (List.mem_of_find?_eq_some hfind)

theorem choice_none_iff (fs : FairScheduler) (s : SchedPointInfo) :
    (fs.nonpreemptiveFairSchedule s).1 = none ↔ ∀ t, (fs.fairMapOf s).getD t false = false := by
  constructor
  · intro h t
    rw [nonpreemptiveFairSchedule_choice] at h
    split at h
    · cases h
    · rw [Option.map_eq_none_iff, List.find?_eq_none] at h
      by_contra hne
      have hmem := mem_of_getD_ne (fs.fairMapOf s) t false hne
      exact h _ (getD_mem_toList _ t false hmem) (by simpa using hne)
  · intro h
    cases hc : (fs.nonpreemptiveFairSchedule s).1 with
    | none => rfl
    | some t =>
      have hfair := choice_fairEnabled fs s t hc
      rw [h t] at hfair
      cases hfair

-- The two ways in which the trackers call the scheduler at a scheduling point.
inductive Call
  | nonpreemptiveFairSchedule (s : SchedPointInfo)
  | updateDataStructures_getFairEnabledMap (s : SchedPointInfo)

def Call.info : Call → SchedPointInfo
  | .nonpreemptiveFairSchedule s => s
  | .updateDataStructures_getFairEnabledMap s => s

def Call.run (fs : FairScheduler) : Call → FairScheduler
  | .nonpreemptiveFairSchedule s => (fs.nonpreemptiveFairSchedule s).2.2
  | .updateDataStructures_getFairEnabledMap s => ((fs.updateDataStructures s).getFairEnabledMap s).2

theorem Call.run_eq (fs : FairScheduler) (call : Call) : call.run fs = fs.afterCall call.info := by
  cases call with
  | nonpreemptiveFairSchedule s => exact nonpreemptiveFairSchedule_state fs s
  | updateDataStructures_getFairEnabledMap s => rfl

theorem empty_acyclic : Acyclic ({} : FairScheduler).Below := by
  intro a hc
  obtain ⟨b, hb, _⟩ := Relation.TransGen.head'_iff.mp hc
  simp [Below] at hb

theorem calls_acyclic (calls : List Call) (hkeys : ∀ c ∈ calls, c.info.thread ∈ c.info.enabled)
    (fs : FairScheduler) (hacyclic : Acyclic fs.Below) :
    Acyclic (calls.foldl Call.run fs).Below := by
  induction calls generalizing fs with
  | nil => exact hacyclic
  | cons call rest ih =>
      apply ih fun c hc => hkeys c (List.mem_cons_of_mem _ hc)
      rw [Call.run_eq]
      exact updateDataStructures_acyclic fs call.info (hkeys call List.mem_cons_self) hacyclic

-- Along any sequence of calls the priority relation has no cycle, so some enabled thread is
-- always fair-enabled, and the scheduler reports that there is none only when none is enabled.
theorem fair_priority_acyclic (calls : List Call)
    (hkeys : ∀ c ∈ calls, c.info.thread ∈ c.info.enabled) :
    let fs := calls.foldl Call.run {}
    Acyclic fs.Below ∧
    (∀ s : SchedPointInfo, (∃ t, s.enabled.getD t false = true) →
      ∃ t, (fs.getFairEnabledMap s).1.getD t false = true) ∧
    ∀ s : SchedPointInfo, s.thread ∈ s.enabled →
      let result := fs.nonpreemptiveFairSchedule s
      ((∃ t, s.enabled.getD t false = true) → ∃ t, (fs.fairMapOf s).getD t false = true) ∧
      (result.1 = none ↔ ∀ t, s.enabled.getD t false = false) ∧
      (∀ t, result.1 = some t → s.enabled.getD t false = true ∧
        ∀ h, s.enabled.getD h false = true → ¬result.2.2.Below h t) ∧
      ((fs.fairMapOf s).getD s.thread false = true → result.1 = some s.thread) := by
  intro fs
  have hacyclic : Acyclic fs.Below := calls_acyclic calls hkeys {} empty_acyclic
  refine ⟨hacyclic, ?_, ?_⟩
  · rintro s ⟨t, ht⟩
    obtain ⟨b, hb⟩ := exists_fairEnabled fs hacyclic s.enabled t ht
    exact ⟨b, (getFairEnabledMap_getD fs s b).trans hb⟩
  · intro s hkey result
    have hnext := updateDataStructures_acyclic fs s hkey hacyclic
    have hsome : (∃ t, s.enabled.getD t false = true) →
        ∃ t, (fs.fairMapOf s).getD t false = true := by
      rintro ⟨t, ht⟩
      obtain ⟨b, hb⟩ := exists_fairEnabled _ hnext s.enabled t ht
      exact ⟨b, (getFairEnabledMap_getD _ s b).trans hb⟩
    refine ⟨hsome, ?_, ?_, ?_⟩
    · rw [choice_none_iff]
      constructor
      · intro hnone t
        by_contra ht
        obtain ⟨b, hb⟩ := hsome ⟨t, by simpa using ht⟩
        simp [hnone b] at hb
      · intro hoff t
        by_contra ht
        have hfair := (fairMapOf_getD fs s t).mp (by simpa using ht)
        simp [hoff t] at hfair
    · intro t ht
      rw [nonpreemptiveFairSchedule_state]
      exact (fairMapOf_getD fs s t).mp (choice_fairEnabled fs s t ht)
    · intro hfair
      rw [nonpreemptiveFairSchedule_choice, if_pos hfair]

-- Thread 0 spins with a yield while thread 1 stays enabled.
def spinPoint : SchedPointInfo where
  ret_addr := 0
  type := "thrille_yield"
  thread := 0
  enabled := (∅ : ThrMap Bool).insert 0 true |>.insert 1 true
  isYield := true

theorem fair_priority_acyclic_spin :
    let fs := [Call.nonpreemptiveFairSchedule spinPoint,
      Call.updateDataStructures_getFairEnabledMap spinPoint].foldl Call.run {}
    Acyclic fs.Below ∧ (fs.nonpreemptiveFairSchedule spinPoint).1 = some 1 := by
  refine ⟨(fair_priority_acyclic [Call.nonpreemptiveFairSchedule spinPoint,
    Call.updateDataStructures_getFairEnabledMap spinPoint] ?_).1, by decide +kernel⟩
  have hkey : spinPoint.thread ∈ spinPoint.enabled := by decide +kernel
  simp [Call.info, hkey]

-- The scheduler after the first `n` calls of a sequence.
def stateAt (fs : FairScheduler) (calls : Nat → SchedPointInfo) : Nat → FairScheduler
  | 0 => fs
  | n + 1 => ((stateAt fs calls n).nonpreemptiveFairSchedule (calls n)).2.2

-- `t` has yielded, `u` was enabled at that yield and ever since, and has not been scheduled since.
structure Starved (fs : FairScheduler) (t u : ThrID) : Prop where
  enabled : u ∈ fs.fair_enabled.getD t ∅
  unscheduled : u ∉ fs.fair_scheduled.getD t ∅

theorem afterCall_yield_starved (fs : FairScheduler) (s : SchedPointInfo) (u : ThrID)
    (hyield : s.isYield = true) (hu : s.enabled.getD u false = true) :
    (fs.afterCall s).Starved s.thread u := by
  obtain ⟨visited, _, hv⟩ := visitAll_visited
    { fs with fair_priority := fs.fair_priority.erase s.thread } s
  constructor
  · simp only [afterCall, getFairEnabledMap, updateDataStructures, hyield, ite_true,
      justYield_enabled]
    exact (hv.reads u).trans hu
  · simp only [afterCall, getFairEnabledMap, updateDataStructures, hyield, ite_true,
      justYield_scheduled]
    exact fun h => h.1 rfl

theorem afterCall_starved (fs : FairScheduler) (s : SchedPointInfo) (t u : ThrID)
    (hstarved : fs.Starved t u) (hu : s.enabled.getD u false = true) (hne : s.thread ≠ u) :
    (fs.afterCall s).Starved t u := by
  by_cases hyield : s.thread = t ∧ s.isYield = true
  · rw [← hyield.1]
    exact afterCall_yield_starved fs s u hyield.2 hu
  obtain ⟨visited, _, hv⟩ := visitAll_visited
    { fs with fair_priority := fs.fair_priority.erase s.thread } s
  have hen := (hv.enabled t u).mpr ⟨hstarved.enabled, fun _ => hu⟩
  have hsch : u ∉ (visitAll { fs with
      fair_priority := fs.fair_priority.erase s.thread } s).2.fair_scheduled.getD t ∅ := by
    rw [hv.scheduled]
    rintro (h | ⟨_, rfl⟩)
    · exact hstarved.unscheduled h
    · exact hne rfl
  by_cases hy : s.isYield = true
  · have ht : s.thread ≠ t := fun h => hyield ⟨h, hy⟩
    constructor
    · simpa only [afterCall, getFairEnabledMap, updateDataStructures, hy, ite_true,
        justYield_enabled, ht, ite_false] using hen
    · simp only [afterCall, getFairEnabledMap, updateDataStructures, hy, ite_true,
        justYield_scheduled]
      exact fun h => hsch h.2
  · rw [Bool.not_eq_true] at hy
    constructor
    · simpa only [afterCall, getFairEnabledMap, updateDataStructures, hy, Bool.false_eq_true,
        ite_false] using hen
    · simpa only [afterCall, getFairEnabledMap, updateDataStructures, hy, Bool.false_eq_true,
        ite_false] using hsch

-- The second yield of a starving window puts the caller below the starved thread.
theorem afterCall_below (fs : FairScheduler) (s : SchedPointInfo) (u : ThrID)
    (hstarved : fs.Starved s.thread u) (hyield : s.isYield = true)
    (hu : s.enabled.getD u false = true) (hne : s.thread ≠ u) :
    (fs.afterCall s).Below u s.thread := by
  obtain ⟨visited, _, hv⟩ := visitAll_visited
    { fs with fair_priority := fs.fair_priority.erase s.thread } s
  have hafter : (fs.afterCall s).Below u s.thread ↔ (justYield s.thread (visitAll { fs with
      fair_priority := fs.fair_priority.erase s.thread } s).1 (visitAll { fs with
      fair_priority := fs.fair_priority.erase s.thread } s).2).Below u s.thread := by
    simp only [afterCall, getFairEnabledMap_below, updateDataStructures, hyield, ite_true]
  rw [hafter, justYield_below]
  refine Or.inr ⟨Or.inl ((hv.enabled _ _).mpr ⟨hstarved.enabled, fun _ => hu⟩), ?_, rfl⟩
  rw [hv.scheduled]
  rintro (h | ⟨_, rfl⟩)
  · exact hstarved.unscheduled h
  · exact hne rfl

theorem afterCall_keeps_below (fs : FairScheduler) (s : SchedPointInfo) (t u : ThrID)
    (hbelow : fs.Below u t) (hne : s.thread ≠ u) : (fs.afterCall s).Below u t := by
  obtain ⟨visited, _, hv⟩ := visitAll_visited
    { fs with fair_priority := fs.fair_priority.erase s.thread } s
  have hkept : (visitAll { fs with
      fair_priority := fs.fair_priority.erase s.thread } s).2.Below u t := by
    simp only [Below, hv.priority]
    exact (below_erase fs s.thread u t).mpr ⟨hne, hbelow⟩
  simp only [afterCall, getFairEnabledMap_below, updateDataStructures]
  split
  · exact (justYield_below _ _ _ _ _).mpr (Or.inl hkept)
  · exact hkept

theorem stateAt_starved (fs : FairScheduler) (calls : Nat → SchedPointInfo) (t u : ThrID)
    (i n : Nat) (hi : (calls i).thread = t ∧ (calls i).isYield = true) (hin : i ≤ n)
    (hwindow : ∀ m, i ≤ m → m ≤ n →
      (calls m).enabled.getD u false = true ∧ (calls m).thread ≠ u) :
    (stateAt fs calls (n + 1)).Starved t u := by
  induction n, hin using Nat.le_induction with
  | base =>
      rw [stateAt, nonpreemptiveFairSchedule_state, ← hi.1]
      exact afterCall_yield_starved _ _ u hi.2 (hwindow i le_rfl le_rfl).1
  | succ n hin ih =>
      have hprev := ih fun m him hmn => hwindow m him (by omega)
      obtain ⟨hu, hne⟩ := hwindow (n + 1) (by omega) le_rfl
      rw [stateAt, nonpreemptiveFairSchedule_state]
      exact afterCall_starved _ _ t u hprev hu hne

theorem stateAt_below (fs : FairScheduler) (calls : Nat → SchedPointInfo) (t u : ThrID)
    (j k : Nat) (hjk : j ≤ k) (hj : (stateAt fs calls (j + 1)).Below u t)
    (hwindow : ∀ m, j < m → m ≤ k → (calls m).thread ≠ u) :
    (stateAt fs calls (k + 1)).Below u t := by
  induction k, hjk using Nat.le_induction with
  | base => exact hj
  | succ k hjk ih =>
      rw [stateAt, nonpreemptiveFairSchedule_state]
      exact afterCall_keeps_below _ _ t u (ih fun m hjm hmk => hwindow m hjm (by omega))
        (hwindow (k + 1) (by omega) le_rfl)

-- After its second yield in a window in which `u` was enabled throughout and never called, the
-- yielding thread stays below `u` until `u` calls the scheduler.
theorem yield_gives_way (fs : FairScheduler) (calls : Nat → SchedPointInfo) (t u : ThrID)
    (i j k : Nat) (hij : i < j) (hjk : j ≤ k)
    (hi : (calls i).thread = t ∧ (calls i).isYield = true)
    (hj : (calls j).thread = t ∧ (calls j).isYield = true)
    (hwindow : ∀ n, i ≤ n → n ≤ j →
      (calls n).enabled.getD u false = true ∧ (calls n).thread ≠ u)
    (hlater : ∀ n, j < n → n ≤ k → (calls n).thread ≠ u)
    (hu : (calls k).enabled.getD u false = true) :
    ((stateAt fs calls k).fairMapOf (calls k)).getD t false = false ∧
      ((stateAt fs calls k).nonpreemptiveFairSchedule (calls k)).1 ≠ some t := by
  have hj1 : (stateAt fs calls (j + 1)).Below u t := by
    obtain ⟨m, rfl⟩ : ∃ m, j = m + 1 := ⟨j - 1, by omega⟩
    have hstarved := stateAt_starved fs calls t u i m hi (by omega)
      fun n hin hnm => hwindow n hin (by omega)
    obtain ⟨hen, hne⟩ := hwindow (m + 1) (by omega) le_rfl
    rw [stateAt, nonpreemptiveFairSchedule_state]
    have hbelow := afterCall_below (stateAt fs calls (m + 1)) (calls (m + 1)) u
      (hj.1.symm ▸ hstarved) hj.2 hen hne
    rwa [hj.1] at hbelow
  have hk1 := stateAt_below fs calls t u j k hjk hj1 hlater
  rw [stateAt, nonpreemptiveFairSchedule_state] at hk1
  have hoff : ((stateAt fs calls k).fairMapOf (calls k)).getD t false = false := by
    by_contra hfair
    exact ((fairMapOf_getD _ _ t).mp (by simpa using hfair)).2 u hu hk1
  refine ⟨hoff, fun hchoice => ?_⟩
  have hfair := choice_fairEnabled _ _ t hchoice
  simp [hoff] at hfair

theorem yield_gives_way_spin :
    ((stateAt {} (fun _ => spinPoint) 1).fairMapOf spinPoint).getD 0 false = false ∧
      ((stateAt {} (fun _ => spinPoint) 1).nonpreemptiveFairSchedule spinPoint).1 ≠ some 0 := by
  have henabled : spinPoint.enabled.getD 1 false = true := by decide +kernel
  exact yield_gives_way {} (fun _ => spinPoint) 0 1 0 1 1 (by decide) le_rfl
    ⟨rfl, rfl⟩ ⟨rfl, rfl⟩ (fun _ _ _ => ⟨henabled, by decide⟩) (fun _ _ _ => by decide) henabled

end Thrille.FairScheduler
