import Thrille.Serializer.Posix

namespace Thrille

open ExecutionTracker

theorem BarrierTracker.nodup_waiting (self : BarrierTracker) (bar : Addr) :
    (self.getThreadsWaitingOnBarrier bar).Nodup := PtrMap.nodup_threadsAt _ _

theorem length_eq_of_mem {α : Type} {front back : List α} (hfront : front.Nodup)
    (hback : back.Nodup) (h : ∀ x, x ∈ front ↔ x ∈ back) : front.length = back.length :=
  ((List.perm_ext_iff_of_nodup hfront hback).mpr h).length_eq

-- The threads that the tracker has waiting on a barrier are those that have arrived since its last
-- generation was complete; a thread that has arrived without waiting belongs to a complete one.
structure Meets (tr : ExecutionTracker) (b : Barriers) (pcs : ThrID → Pc) : Prop where
  count : ∀ k n, tr.bt.getBarrierCount k = some n → b.count k = n
  arrived : ∀ k, b.arrived k = (tr.bt.getThreadsWaitingOnBarrier k).length
  waiting : ∀ u k, u ∈ tr.bt.getThreadsWaitingOnBarrier k → b.joined u = b.generation k
  passed : ∀ u k, (pcs u).stage.At k →
    b.joined u ≤ b.generation k ∧
      (u ∉ tr.bt.getThreadsWaitingOnBarrier k → b.joined u < b.generation k)

namespace Meets

variable {tr tr' tr'' : ExecutionTracker} {b b' : Barriers} {pcs pcs' : ThrID → Pc} {t : ThrID}
  {eff : Effect}

theorem keeps (h : Meets tr b pcs) (hcount : tr'.bt.getBarrierCount = tr.bt.getBarrierCount)
    (hwaiting : tr'.bt.getThreadsWaitingOnBarrier = tr.bt.getThreadsWaitingOnBarrier)
    (hstage : ∀ u k, (pcs' u).stage.At k → (pcs u).stage.At k) : Meets tr' b pcs' := by
  refine ⟨?_, ?_, ?_, fun u k hu => ?_⟩
  · rw [hcount]
    exact h.count
  · rw [hwaiting]
    exact h.arrived
  · rw [hwaiting]
    exact h.waiting
  · rw [hwaiting]
    exact h.passed u k (hstage u k hu)

-- A call, which completes the generation or waits.
theorem arrive (h : Meets tr b pcs) (hc : Consistent tr fun u => (pcs u).stage) (bar : Addr)
    (hactive : (pcs t).stage = .active) (hwait : tr.beforeBarrierWait t bar = .ok tr')
    (hothers : ∀ u k, u ≠ t → (pcs' u).stage.At k → (pcs u).stage.At k)
    (hself : ∀ k, (pcs' t).stage.At k → k = bar) : Meets tr' (b.arrive t bar) pcs' := by
  have hnot (k : Addr) : t ∉ tr.bt.getThreadsWaitingOnBarrier k := by
    intro hwaits
    have hpending := hc.pending_of_waiting k hwaits
    rw [show (pcs t).stage = _ from hactive] at hpending
    cases hpending
  obtain ⟨n, hn, ⟨hlast, rfl⟩ | ⟨hmore, rfl⟩⟩ := beforeBarrierWait_cases bar hwait
  · have hlength : (tr.bt.getThreadsWaitingOnBarrier bar).length + 1 = n := hlast
    have harrive : b.arrive t bar = { b with
        joined := Function.update b.joined t (b.generation bar)
        arrived := Function.update b.arrived bar 0
        generation := Function.update b.generation bar (b.generation bar + 1) } := by
      unfold Barriers.arrive
      dsimp only
      rw [if_pos (by rw [h.count bar n hn, h.arrived bar]; omega)]
    have hmem (u : ThrID) (k : Addr) :
        u ∈ (tr.openBarrier t bar).bt.getThreadsWaitingOnBarrier k ↔
          bar ≠ k ∧ u ∈ tr.bt.getThreadsWaitingOnBarrier k := mem_waiting_openBarrier tr t u bar k
    rw [harrive]
    refine ⟨h.count, fun k => ?_, fun u k hu => ?_, fun u k hu => ?_⟩
    · by_cases hk : k = bar
      · have hnil : (tr.openBarrier t bar).bt.getThreadsWaitingOnBarrier bar = [] := by
          apply List.eq_nil_iff_forall_not_mem.mpr
          intro u hu
          exact ((hmem u bar).mp hu).1 rfl
        rw [hk, hnil]
        exact Function.update_self _ _ _
      · show Function.update b.arrived bar 0 k = _
        rw [Function.update_of_ne hk, h.arrived k]
        apply length_eq_of_mem (BarrierTracker.nodup_waiting _ _)
          (BarrierTracker.nodup_waiting _ _)
        intro u
        exact ((hmem u k).trans (and_iff_right (Ne.symm hk))).symm
    · obtain ⟨hk, hold⟩ := (hmem u k).mp hu
      have hut : u ≠ t := by
        rintro rfl
        exact hnot k hold
      show Function.update b.joined t _ u = Function.update b.generation bar _ k
      rw [Function.update_of_ne hut, Function.update_of_ne (Ne.symm hk)]
      exact h.waiting u k hold
    · show Function.update b.joined t _ u ≤ Function.update b.generation bar _ k ∧
        (_ → Function.update b.joined t _ u < Function.update b.generation bar _ k)
      by_cases hut : u = t
      · subst hut
        rw [hself k hu, Function.update_self, Function.update_self]
        exact ⟨Nat.le_succ _, fun _ => Nat.lt_succ_self _⟩
      · rw [Function.update_of_ne hut]
        obtain ⟨hle, hlt⟩ := h.passed u k (hothers u k hut hu)
        by_cases hk : k = bar
        · rw [hk] at hle ⊢
          rw [Function.update_self]
          exact ⟨by omega, fun _ => by omega⟩
        · rw [Function.update_of_ne hk]
          refine ⟨hle, fun hout => hlt fun hin => ?_⟩
          exact hout ((hmem u k).mpr ⟨Ne.symm hk, hin⟩)
  · have hlength : (tr.bt.getThreadsWaitingOnBarrier bar).length + 1 < n := hmore
    have harrive : b.arrive t bar = { b with
        joined := Function.update b.joined t (b.generation bar)
        arrived := Function.update b.arrived bar (b.arrived bar + 1) } := by
      unfold Barriers.arrive
      dsimp only
      rw [if_neg (by rw [h.count bar n hn, h.arrived bar]; omega)]
    have hmem (u : ThrID) (k : Addr) :
        u ∈ (tr.waitOnBarrier t bar).bt.getThreadsWaitingOnBarrier k ↔
          if t = u then bar = k else u ∈ tr.bt.getThreadsWaitingOnBarrier k :=
      mem_waiting_waitOnBarrier tr t u bar k
    rw [harrive]
    refine ⟨h.count, fun k => ?_, fun u k hu => ?_, fun u k hu => ?_⟩
    · by_cases hk : k = bar
      · show Function.update b.arrived bar _ k = _
        rw [hk, Function.update_self, h.arrived bar, ← List.length_cons (a := t)]
        apply length_eq_of_mem
          (List.nodup_cons.mpr ⟨hnot bar, BarrierTracker.nodup_waiting _ _⟩)
          (BarrierTracker.nodup_waiting _ _)
        intro u
        rw [hmem, List.mem_cons]
        by_cases htu : t = u
        · simp [htu]
        · simp [htu, Ne.symm htu]
      · show Function.update b.arrived bar _ k = _
        rw [Function.update_of_ne hk, h.arrived k]
        apply length_eq_of_mem (BarrierTracker.nodup_waiting _ _)
          (BarrierTracker.nodup_waiting _ _)
        intro u
        refine Iff.trans ?_ (hmem u k).symm
        by_cases htu : t = u
        · rw [if_pos htu, ← htu]
          exact iff_of_false (hnot k) (Ne.symm hk)
        · rw [if_neg htu]
    · have hold := (hmem u k).mp hu
      show Function.update b.joined t _ u = b.generation k
      by_cases hut : u = t
      · subst hut
        rw [if_pos rfl] at hold
        rw [Function.update_self, hold]
      · rw [if_neg (Ne.symm hut)] at hold
        rw [Function.update_of_ne hut]
        exact h.waiting u k hold
    · show Function.update b.joined t _ u ≤ b.generation k ∧
        (_ → Function.update b.joined t _ u < b.generation k)
      by_cases hut : u = t
      · subst hut
        rw [hself k hu, Function.update_self]
        exact ⟨Nat.le_refl _, fun hout => absurd ((hmem u bar).mpr (by rw [if_pos rfl])) hout⟩
      · rw [Function.update_of_ne hut]
        obtain ⟨hle, hlt⟩ := h.passed u k (hothers u k hut hu)
        refine ⟨hle, fun hout => hlt fun hin => ?_⟩
        exact hout ((hmem u k).mpr (by rw [if_neg (Ne.symm hut)]; exact hin))

-- An initialisation while nobody waits.
theorem init (h : Meets tr b pcs) (bar : Addr) (count : Nat) (hnobody : b.arrived bar = 0)
    (hbt : tr'.bt = tr.bt.initBarrier bar count)
    (hstage : ∀ u k, (pcs' u).stage.At k → (pcs u).stage.At k) :
    Meets tr' (b.init bar count) pcs' := by
  have hwaiting : tr'.bt.getThreadsWaitingOnBarrier = tr.bt.getThreadsWaitingOnBarrier := by
    funext k
    rw [hbt]
    unfold BarrierTracker.initBarrier
    split <;> rfl
  refine ⟨fun k n hn => ?_, fun k => ?_, ?_, fun u k hu => ?_⟩
  · rw [hbt, BarrierTracker.getBarrierCount_initBarrier] at hn
    show Function.update b.count bar count k = n
    by_cases hk : k = bar
    · rw [hk, Function.update_self]
      rw [if_pos hk.symm] at hn
      exact Option.some.inj hn
    · rw [Function.update_of_ne hk]
      rw [if_neg (Ne.symm hk)] at hn
      exact h.count k n hn
  · rw [hwaiting]
    show Function.update b.arrived bar 0 k = _
    by_cases hk : k = bar
    · rw [hk, Function.update_self, ← h.arrived bar, hnobody]
    · rw [Function.update_of_ne hk]
      exact h.arrived k
  · rw [hwaiting]
    exact h.waiting
  · rw [hwaiting]
    exact h.passed u k (hstage u k hu)

-- A section of thread `t`.
theorem runSection (h : Meets tr b pcs) (hc : Consistent tr fun u => (pcs u).stage)
    (hunused : ∀ ret_addr bar count, pcs t = .enter ret_addr (.barrierInit bar count) →
      b.arrived bar = 0)
    (hrun : tr.runSection t (pcs t) = .ok (tr', eff)) (hbt : tr''.bt = tr'.bt)
    (hnext : (pcs t).Next (pcs' t))
    (hstays : ∀ u, u ≠ t → pcs' u = pcs u ∨ pcs' u = .created) :
    Meets tr'' (b.observe t (pcs t)) pcs' := by
  have hothers (u : ThrID) (k : Addr) (hut : u ≠ t) (hu : (pcs' u).stage.At k) :
      (pcs u).stage.At k := by
    rcases hstays u hut with heq | heq
    · rwa [heq] at hu
    · rw [heq] at hu
      rcases hu with hu | hu <;> cases hu
  have hself (k : Addr) (hu : (pcs' t).stage.At k) :
      ∃ ret_addr, pcs t = .enter ret_addr (.barrierWait k) := hnext.at hu
  have hstage (hnot : ∀ ret_addr bar, pcs t ≠ .enter ret_addr (.barrierWait bar)) (u : ThrID)
      (k : Addr) (hu : (pcs' u).stage.At k) : (pcs u).stage.At k := by
    by_cases hut : u = t
    · subst hut
      obtain ⟨ret_addr, hcall⟩ := hself k hu
      exact absurd hcall (hnot ret_addr k)
    · exact hothers u k hut hu
  by_cases hwaits : ∃ ret_addr bar, pcs t = .enter ret_addr (.barrierWait bar)
  · obtain ⟨ret_addr, bar, hpc⟩ := hwaits
    have hactive : (pcs t).stage = .active := by
      rw [hpc]
      rfl
    rw [hpc] at hrun
    simp only [ExecutionTracker.runSection, ExecutionTracker.enter, ok_bind] at hrun
    obtain ⟨tracker, hbefore, hrun⟩ := hrun
    cases hrun
    have hbar (k : Addr) (hu : (pcs' t).stage.At k) : k = bar := by
      obtain ⟨addr, hcall⟩ := hself k hu
      rw [hpc] at hcall
      cases hcall
      rfl
    have hmeets := h.arrive hc bar hactive hbefore hothers hbar
    rw [hpc]
    exact hmeets.keeps (by rw [hbt]) (by rw [hbt]) fun _ _ => id
  · by_cases hinits : ∃ ret_addr bar count, pcs t = .enter ret_addr (.barrierInit bar count)
    · obtain ⟨ret_addr, bar, count, hpc⟩ := hinits
      rw [hpc] at hrun
      cases hrun
      have hmeets := h.init bar count (hunused ret_addr bar count hpc) hbt
        (hstage fun addr k hcall => hwaits ⟨addr, k, hcall⟩)
      rw [hpc]
      exact hmeets
    · have hsame : tr'.bt = tr.bt :=
        bt_runSection _ (fun addr bar hpc => hwaits ⟨addr, bar, hpc⟩)
          (fun addr bar count hpc => hinits ⟨addr, bar, count, hpc⟩) hrun
      have hobserve : b.observe t (pcs t) = b := by
        unfold Barriers.observe
        split
        · rename_i addr bar hpc
          exact absurd ⟨addr, bar, hpc⟩ hwaits
        · rename_i addr bar count hpc
          exact absurd ⟨addr, bar, count, hpc⟩ hinits
        · rfl
      rw [hobserve]
      exact h.keeps (by rw [hbt, hsame]) (by rw [hbt, hsame])
        (hstage fun addr bar hpc => hwaits ⟨addr, bar, hpc⟩)

end Meets

end Thrille
