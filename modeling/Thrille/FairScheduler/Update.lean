import Thrille.FairScheduler
import Thrille.Lib.OrderedMap

namespace Thrille.FairScheduler

open OrderedMap

-- `t` gives way to `h`: it is not fair-enabled while `h` is enabled.
def Below (fs : FairScheduler) (h t : ThrID) : Prop :=
  t ∈ fs.fair_priority.getD h ∅

-- The effect of the loop over the threads that it visits.
structure Visited (last : ThrID) (visited : ThrID → Prop) (before after : ThrMap Bool × FairScheduler) :
    Prop where
  reads : ∀ k, after.1.getD k false = before.1.getD k false
  keys : ∀ k ∈ before.1, k ∈ after.1
  priority : after.2.fair_priority = before.2.fair_priority
  prev : after.2.prev_ES = before.2.prev_ES
  enabled : ∀ k x, x ∈ after.2.fair_enabled.getD k ∅ ↔
    x ∈ before.2.fair_enabled.getD k ∅ ∧ (visited k → before.1.getD x false = true)
  disabled : ∀ k x, x ∈ after.2.fair_disabled.getD k ∅ ↔
    x ∈ before.2.fair_disabled.getD k ∅ ∨
      (visited k ∧ k = last ∧ x ∈ before.2.prev_ES ∧ before.1.getD x false = false)
  scheduled : ∀ k x, x ∈ after.2.fair_scheduled.getD k ∅ ↔
    x ∈ before.2.fair_scheduled.getD k ∅ ∨ (visited k ∧ x = last)

theorem Visited.none (last : ThrID) (state : ThrMap Bool × FairScheduler) :
    Visited last (fun _ => False) state state := by
  constructor <;> simp

theorem Visited.trans {last : ThrID} {first second : ThrID → Prop}
    {a b c : ThrMap Bool × FairScheduler}
    (hab : Visited last first a b) (hbc : Visited last second b c) :
    Visited last (fun k => first k ∨ second k) a c where
  reads k := (hbc.reads k).trans (hab.reads k)
  keys k hk := hbc.keys k (hab.keys k hk)
  priority := hbc.priority.trans hab.priority
  prev := hbc.prev.trans hab.prev
  enabled k x := by
    rw [hbc.enabled, hab.enabled, hab.reads]
    tauto
  disabled k x := by
    rw [hbc.disabled, hab.disabled, hab.reads, hab.prev]
    tauto
  scheduled k x := by
    rw [hbc.scheduled, hab.scheduled]
    tauto

theorem readAll_getD (m : ThrMap Bool) (threads : ThrSet) (k : ThrID) :
    (readAll m threads).getD k false = m.getD k false :=
  getD_foldl_insertIfNew m _ false k

theorem mem_readAll (m : ThrMap Bool) (threads : ThrSet) (k : ThrID) (h : k ∈ m) :
    k ∈ readAll m threads :=
  mem_foldl_insertIfNew m _ false k h

theorem visit_visited (last : ThrID) (state : ThrMap Bool × FairScheduler) (thread : ThrID) :
    Visited last (fun k => k = thread ∧ thread ∈ state.1) state (visit last state thread) := by
  obtain ⟨m, fs⟩ := state
  by_cases hm : m.contains thread
  · have hmem : thread ∈ m := hm
    simp only [visit, hm, ite_true]
    by_cases hl : thread = last
    · subst hl
      constructor <;>
        simp only [ite_true, hmem, and_true, readAll_getD, getD_insert_eq, forall_const]
      · exact fun k hk => mem_readAll _ _ _ (mem_readAll _ _ _ hk)
      · intro k x
        by_cases hk : thread = k
        · simp [hk]
        · simp [hk, Ne.symm hk]
      · intro k x
        by_cases hk : thread = k
        · simp only [hk, ite_true, true_and]
          rw [mem_foldl_insert_if]
          simp
        · simp [hk, Ne.symm hk]
      · intro k x
        by_cases hk : thread = k
        · simp only [hk, ite_true, mem_insert_iff, true_and]
          rw [or_comm, eq_comm]
        · simp [hk, Ne.symm hk]
    · constructor <;>
        simp only [hl, ite_false, hmem, and_true, readAll_getD, getD_insert_eq, forall_const]
      · exact fun k hk => mem_readAll _ _ _ hk
      · intro k x
        by_cases hk : thread = k
        · simp [hk]
        · simp [hk, Ne.symm hk]
      · intro k x
        constructor
        · exact Or.inl
        · rintro (h | ⟨rfl, rfl, _⟩)
          · exact h
          · exact absurd rfl hl
      · intro k x
        by_cases hk : thread = k
        · simp only [hk, ite_true, mem_insert_iff, true_and]
          rw [or_comm, eq_comm]
        · simp [hk, Ne.symm hk]
  · have hmem : thread ∉ m := hm
    simp only [visit, hm, Bool.false_eq_true, ite_false, hmem, and_false]
    exact Visited.none last (m, fs)

theorem foldl_visit_visited (last : ThrID) (threads : List ThrID)
    (state : ThrMap Bool × FairScheduler) :
    ∃ visited : ThrID → Prop, (∀ k ∈ threads, k ∈ state.1 → visited k) ∧
      Visited last visited state (threads.foldl (visit last) state) := by
  induction threads generalizing state with
  | nil => exact ⟨_, by simp, Visited.none last state⟩
  | cons thread rest ih =>
      have hone := visit_visited last state thread
      obtain ⟨visited, hall, hrest⟩ := ih (visit last state thread)
      refine ⟨_, ?_, hone.trans hrest⟩
      intro k hk hm
      rcases List.mem_cons.mp hk with rfl | hk
      · exact Or.inl ⟨rfl, hm⟩
      · exact Or.inr (hall k hk (hone.keys k hm))

theorem le_foldl_max (l : List Nat) (start : Nat) :
    start ≤ l.foldl max start ∧ ∀ x ∈ l, x ≤ l.foldl max start := by
  induction l generalizing start with
  | nil => simp
  | cons head tail ih =>
      obtain ⟨hs, ht⟩ := ih (max start head)
      refine ⟨Nat.le_trans (Nat.le_max_left _ _) hs, ?_⟩
      intro x hx
      rcases List.mem_cons.mp hx with rfl | hx
      · exact Nat.le_trans (Nat.le_max_right _ _) hs
      · exact ht x hx

theorem visitAll_visited (fs : FairScheduler) (s : SchedPointInfo) :
    ∃ visited : ThrID → Prop, (∀ k ∈ s.enabled, visited k) ∧
      Visited s.thread visited (s.enabled, fs) (fs.visitAll s) := by
  obtain ⟨visited, hall, hv⟩ := foldl_visit_visited s.thread
    (List.range (fs.lastId s.enabled + 1)) (s.enabled, fs)
  refine ⟨visited, fun k hk => hall k ?_ hk, hv⟩
  have hkeys : k ∈ s.enabled.keys := Std.TreeMap.mem_keys.mpr hk
  have hle : k ≤ fs.lastId s.enabled := (le_foldl_max _ 0).2 k (by simp [hkeys])
  exact List.mem_range.mpr (Nat.lt_succ_of_le hle)

theorem mem_foldl_insert_last (m : ThrMap ThrSet) (H : List ThrID) (last h x : ThrID) :
    x ∈ (H.foldl (fun m k => m.insert k ((m.getD k ∅).insert last)) m).getD h ∅ ↔
      x ∈ m.getD h ∅ ∨ (h ∈ H ∧ x = last) := by
  induction H generalizing m with
  | nil => simp
  | cons head tail ih =>
      rw [List.foldl_cons, ih, getD_insert_eq]
      by_cases hh : head = h
      · subst hh
        simp only [ite_true, mem_insert_iff, List.mem_cons, true_or, true_and]
        constructor
        · rintro ((rfl | h) | ⟨_, rfl⟩)
          · exact Or.inr rfl
          · exact Or.inl h
          · exact Or.inr rfl
        · rintro (h | rfl)
          · exact Or.inl (Or.inr h)
          · exact Or.inl (Or.inl rfl)
      · simp [hh, Ne.symm hh]

theorem justYield_below (last : ThrID) (m : ThrMap Bool) (fs : FairScheduler) (h t : ThrID) :
    (justYield last m fs).Below h t ↔ fs.Below h t ∨
      ((h ∈ fs.fair_enabled.getD last ∅ ∨ h ∈ fs.fair_disabled.getD last ∅) ∧
        h ∉ fs.fair_scheduled.getD last ∅ ∧ t = last) := by
  simp only [Below, justYield, mem_foldl_insert_last, Std.TreeSet.mem_toList]
  rw [mem_foldl_insert_if]
  simp [and_assoc, ← Bool.not_eq_true]

theorem justYield_enabled (last : ThrID) (m : ThrMap Bool) (fs : FairScheduler) (k x : ThrID) :
    x ∈ (justYield last m fs).fair_enabled.getD k ∅ ↔
      if last = k then m.getD x false = true else x ∈ fs.fair_enabled.getD k ∅ := by
  simp only [justYield, getD_insert_eq]
  split
  · rw [mem_foldl_insert_if]
    simp only [Std.TreeSet.not_mem_emptyc, false_or, Std.TreeMap.mem_keys, and_iff_right_iff_imp]
    intro h
    exact mem_of_getD_ne m x false (by simp [h])
  · rfl

theorem justYield_scheduled (last : ThrID) (m : ThrMap Bool) (fs : FairScheduler) (k x : ThrID) :
    x ∈ (justYield last m fs).fair_scheduled.getD k ∅ ↔
      last ≠ k ∧ x ∈ fs.fair_scheduled.getD k ∅ := by
  simp only [justYield, getD_insert_eq]
  split <;> simp [*]

theorem below_erase (fs : FairScheduler) (last h t : ThrID) :
    Below { fs with fair_priority := fs.fair_priority.erase last } h t ↔
      last ≠ h ∧ fs.Below h t := by
  simp only [Below, getD_erase_eq]
  split <;> simp [*]

end Thrille.FairScheduler
