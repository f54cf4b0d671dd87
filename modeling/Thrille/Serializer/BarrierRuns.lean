import Thrille.Serializer.Generations
import Thrille.Serializer.Destroyed

namespace Thrille

open OrderedMap Traces

-- A call of `pthread_barrier_wait` is under way.
def Stage.At (b : Addr) (st : Stage) : Prop :=
  st = .pending (.barrier b) ∨ st = .resumed (.barrier b)

-- A thread comes to a call only from where it makes it.
theorem Pc.Next.at {b : Addr} {pc pc' : Pc} (h : pc.Next pc') (hat : pc'.stage.At b) :
    ∃ ret_addr, pc = .enter ret_addr (.barrierWait b) := by
  cases pc with
  | enter ret_addr op =>
      cases op with
      | barrierWait bar =>
          have heq : pc' = .launched (.pause (.barrier bar)) := h
          subst heq
          have hbar : bar = b := by simpa [Stage.At, stage, Rest.stage] using hat
          exact ⟨ret_addr, by rw [hbar]⟩
      | mutexLock lock =>
          rcases h with rfl | rfl
          · simp [Stage.At, stage] at hat
          · simp [Stage.At, stage, Rest.stage] at hat
      | mutexUnlock lock =>
          obtain ⟨_, _, rfl⟩ := h
          simp [Stage.At, stage] at hat
      | create ret_val =>
          obtain ⟨_, _, rfl⟩ := h
          simp [Stage.At, stage] at hat
      | _ =>
          obtain ⟨_, rfl⟩ := h
          simp [Stage.At, stage, Rest.stage] at hat
  | originalLock lock =>
      obtain ⟨_, rfl⟩ := h
      simp [Stage.At, stage] at hat
  | afterUnlock ret_addr lock ret_val =>
      rcases h with rfl | rfl
      · simp [Stage.At, stage] at hat
      · simp [Stage.At, stage, Rest.stage] at hat
  | signalReady w =>
      simp only [Next] at h
      split at h
      · subst h
        simp [Stage.At, stage] at hat
      · subst h
        simp [Stage.At, stage, Rest.stage] at hat
  | checkTimeout w =>
      rcases h with rfl | rfl
      · simp [Stage.At, stage, Rest.stage] at hat
      · simp [Stage.At, stage, Rest.stage] at hat
  | simulateSignal ret_addr cond isBroadcast =>
      rcases h with rfl | ⟨_, _, rfl, _⟩
      · simp [Stage.At, stage] at hat
      · simp [Stage.At, stage] at hat
  | waitReady info u =>
      rcases h with rfl | ⟨_, _, rfl, _⟩
      · simp [Stage.At, stage] at hat
      · simp [Stage.At, stage] at hat
  | resume k =>
      cases k with
      | simple ret_val =>
          obtain rfl := h
          simp [Stage.At, stage] at hat
      | relock w timedOut =>
          obtain rfl := h
          simp [Stage.At, stage] at hat
      | _ =>
          obtain ⟨_, rfl⟩ := h
          simp [Stage.At, stage] at hat
  | _ =>
      first
        | exact h.elim
        | obtain rfl := h
          simp [Stage.At, stage, Rest.stage] at hat

theorem PtrMap.nodup_threadsAt (map : PtrMap) (addr : Addr) : (map.threadsAt addr).Nodup := by
  have hkeys : (map.toList.map Prod.fst).Nodup := by
    rw [Std.TreeMap.map_fst_toList_eq_keys]
    exact Std.TreeMap.nodup_keys
  exact (List.Sublist.map Prod.fst List.filter_sublist).nodup hkeys

namespace BarrierTracker

variable (self : BarrierTracker)

theorem getBarrierCount_initBarrier (bar b : Addr) (count : Nat) :
    (self.initBarrier bar count).getBarrierCount b =
      if bar = b then some count else self.getBarrierCount b := by
  unfold initBarrier getBarrierCount
  by_cases hany : (self.bar_info.any fun info => info.1 == bar) = true
  · rw [if_pos hany]
    simp only [List.find?_map]
    have hkey : ((fun info : Addr × Nat => info.1 == b) ∘ fun info =>
        if (info.1 == bar) = true then (info.1, count) else info) = fun info => info.1 == b := by
      funext info
      simp only [Function.comp_apply]
      split <;> rfl
    rw [hkey]
    cases hfind : self.bar_info.find? fun info => info.1 == b with
    | none =>
        have hbar : bar ≠ b := by
          rintro rfl
          obtain ⟨info, hmem, hinfo⟩ := List.any_eq_true.mp hany
          exact List.find?_eq_none.mp hfind info hmem hinfo
        simp [hbar]
    | some info =>
        have hinfo : info.1 = b := by simpa using List.find?_some hfind
        by_cases hbar : bar = b
        · simp [hinfo, hbar]
        · simp [hinfo, hbar, Ne.symm hbar]
  · rw [if_neg hany]
    simp only [List.find?_append]
    by_cases hbar : bar = b
    · subst hbar
      have hnone : (self.bar_info.find? fun info => info.1 == bar) = none := by
        rw [List.find?_eq_none]
        intro info hmem hinfo
        exact hany (List.any_eq_true.mpr ⟨info, hmem, hinfo⟩)
      simp [hnone]
    · simp [hbar]

end BarrierTracker

namespace ExecutionTracker

variable {self tr : ExecutionTracker} {t : ThrID} {eff : Effect} {b : Addr}

-- The other sections do not touch the barriers.
theorem bt_runSection (pc : Pc) (hwait : ∀ ret_addr bar, pc ≠ .enter ret_addr (.barrierWait bar))
    (hinit : ∀ ret_addr bar count, pc ≠ .enter ret_addr (.barrierInit bar count))
    (h : self.runSection t pc = .ok (tr, eff)) : tr.bt = self.bt := by
  by_cases hpc : pc.rewaits = false
  · exact congrArg Prod.fst (waits_runSection pc hpc h)
  · cases pc with
    | enter ret_addr op =>
        cases op with
        | barrierWait bar => exact absurd rfl (hwait ret_addr bar)
        | barrierInit bar count => exact absurd rfl (hinit ret_addr bar count)
        | _ => exact absurd rfl hpc
    | simulateWait w =>
        simp only [runSection, simulateCondWait, safe_assert_bind] at h
        obtain ⟨_, _, h⟩ := h
        have hunlock : (self.mutexUnlock w.lock).2.bt = self.bt :=
          congrArg Prod.fst (waits_mutexUnlock self w.lock)
        rw [← hunlock]
        split at h <;> cases h <;> simp only [setCond] <;> split <;> rfl
    | woken w => cases h; rfl
    | beforeCreate ret_addr child ret_val => cases h; rfl
    | _ => exact absurd rfl hpc

end ExecutionTracker

namespace ExecutionTracker

variable (self : ExecutionTracker) (t u : ThrID) (bar b : Addr)

theorem mem_waiting_openBarrier :
    u ∈ (self.openBarrier t bar).bt.getThreadsWaitingOnBarrier b ↔
      bar ≠ b ∧ u ∈ self.bt.getThreadsWaitingOnBarrier b := by
  simp only [openBarrier, BarrierTracker.getThreadsWaitingOnBarrier,
    BarrierTracker.clearThreadsWaitingOnBarrier, PtrMap.mem_threadsAt, get_foldl_erase]
  by_cases hbar : bar = b
  · subst hbar
    by_cases hat : self.bt.thread_map[u]? = some bar <;> simp [hat]
  · by_cases hat : self.bt.thread_map[u]? = some bar
    · simp [hat, hbar]
    · simp [hat, hbar]

theorem mem_waiting_waitOnBarrier :
    u ∈ (self.waitOnBarrier t bar).bt.getThreadsWaitingOnBarrier b ↔
      if t = u then bar = b else u ∈ self.bt.getThreadsWaitingOnBarrier b := by
  simp only [waitOnBarrier, BarrierTracker.getThreadsWaitingOnBarrier,
    BarrierTracker.threadWaitingOnBarrier, PtrMap.mem_threadsAt, get_insert_eq]
  by_cases htu : t = u
  · simp [htu]
  · simp [htu]

theorem isEnabled_openBarrier :
    (self.openBarrier t bar).isEnabled u = true ↔
      u = t ∨ u ∈ self.bt.getThreadsWaitingOnBarrier bar ∨ self.isEnabled u = true := by
  simp only [openBarrier, isEnabled, getD_insert_eq, setAll_getD]
  by_cases htu : t = u
  · simp [htu]
  · by_cases hat : u ∈ self.bt.getThreadsWaitingOnBarrier bar
    · simp [htu, hat]
    · simp [htu, hat, Ne.symm htu]

variable {self t} {tr : ExecutionTracker}

theorem beforeBarrierWait_cases (h : self.beforeBarrierWait t bar = .ok tr) :
    ∃ n, self.bt.getBarrierCount bar = some n ∧
      (self.bt.getNumberThreadsWaitingOnBarrier bar + 1 = n ∧ tr = self.openBarrier t bar ∨
        self.bt.getNumberThreadsWaitingOnBarrier bar + 1 < n ∧ tr = self.waitOnBarrier t bar) := by
  simp only [beforeBarrierWait, safe_assert_bind] at h
  obtain ⟨_, h⟩ := h
  split at h
  · cases h
  · rename_i n hn
    refine ⟨n, hn, ?_⟩
    split at h
    · simp only [safe_assert_bind] at h
      obtain ⟨hsize, _, h⟩ := h
      cases h
      exact Or.inl ⟨beq_iff_eq.mp hsize, rfl⟩
    · rename_i hmore
      cases h
      exact Or.inr ⟨by omega, rfl⟩

end ExecutionTracker

-- A thread waits on a barrier only in a call that it cannot leave yet.
theorem Consistent.pending_of_waiting {tr : ExecutionTracker} {st : ThrID → Stage} {t : ThrID}
    (hc : Consistent tr st) (barrier : Addr)
    (hwaits : t ∈ tr.bt.getThreadsWaitingOnBarrier barrier) :
    st t = .pending (.barrier barrier) := by
  have hentry : (tr.entries t).barrier = some barrier := (PtrMap.mem_threadsAt _ _ _).mp hwaits
  have hdisabled : (tr.entries t).enabled = false := hc.waiting_disabled barrier hwaits
  have hfit := hc.fits t
  cases hst : st t with
  | pending k =>
      rw [hst] at hfit
      cases k <;> simp only [Stage.Fits, Pending.Fits] at hfit <;> grind
  | resumed k =>
      rw [hst] at hfit
      rw [hfit.2] at hdisabled
      cases hdisabled
  | _ =>
      rw [hst] at hfit
      rw [show tr.entries t = _ from hfit] at hentry
      cases hentry

namespace System

variable {σ : Type} {v : Virtual σ} {s s' : System σ} {t : ThrID} {ret_addr : Addr} {op : Op}
  {b : Addr} {g : Generations}

-- What a step of thread `t` from `s` to `s'` is on barrier `b`.
def barrierEvents (b : Addr) (s : System σ) (t : ThrID) (s' : System σ) : List BarrierEvent :=
  match s.pcs t, s'.pcs t with
  | .enter _ (.barrierInit bar count), _ => if bar = b then [.init count] else []
  | .enter _ (.barrierWait bar), _ => if bar = b then [.call t] else []
  | .resume (.barrier bar), .program ret_val => if bar = b then [.ret t ret_val] else []
  | _, _ => []

-- The tracker has the threads of the generation that is not complete; a call that is under way
-- without waiting belongs to a complete one.
structure Barred (b : Addr) (s : System σ) (g : Generations) : Prop where
  count : ∀ n, s.tracker.bt.getBarrierCount b = some n → g.count = n
  waiting : ∀ u, u ∈ s.tracker.bt.getThreadsWaitingOnBarrier b ↔ u ∈ g.waiting
  nodup : g.waiting.Nodup
  current : ∀ u, (s.pcs u).stage.At b → ∃ k, g.current u = some k ∧ k ≤ g.complete.length ∧
    (u ∉ g.waiting → k < g.complete.length)
  results : ∀ k r, r ∈ g.results k → r = OPERATION_SUCCESSFUL

theorem Barred.initial (scheduler : σ) (read_schedule : List DecisionInfo) :
    Barred b (initial scheduler read_schedule) {} := by
  refine ⟨nofun, fun u => ?_, List.nodup_nil, fun u hu => ?_, nofun⟩
  · simp [System.initial, ExecutionTracker.new, ExecutionTracker.initializeThreadData,
      ExecutionTracker.enableThread, BarrierTracker.getThreadsWaitingOnBarrier,
      PtrMap.mem_threadsAt]
  · rw [initial_pcs] at hu
    split at hu <;> simp [Stage.At, Pc.stage] at hu

-- A step that is none of the barrier's.
theorem Barred.keeps (h : Barred b s g) (hcount : s'.tracker.bt.getBarrierCount b =
      s.tracker.bt.getBarrierCount b)
    (hwaiting : ∀ u, u ∈ s'.tracker.bt.getThreadsWaitingOnBarrier b ↔
      u ∈ s.tracker.bt.getThreadsWaitingOnBarrier b)
    (hstage : ∀ u, (s'.pcs u).stage.At b → (s.pcs u).stage.At b) : Barred b s' g := by
  refine ⟨fun n hn => h.count n (hcount ▸ hn), fun u => (hwaiting u).trans (h.waiting u), h.nodup,
    fun u hu => h.current u (hstage u hu), h.results⟩

theorem Barred.length (h : Barred b s g) :
    s.tracker.bt.getNumberThreadsWaitingOnBarrier b = g.waiting.length := by
  apply List.Perm.length_eq
  exact (List.perm_ext_iff_of_nodup (PtrMap.nodup_threadsAt _ b) h.nodup).mpr h.waiting

variable {tr tr' : ExecutionTracker} {pcs' : ThrID → Pc} {eff : Effect} {c : Control}

-- Where the threads that are in a call after a section were before it.
theorem Performed.at {pc : Pc} {pcs : ThrID → Pc} (hnext : pc.Next (pcs' t))
    (hperformed : Performed t pc tr pcs eff tr' pcs') (u : ThrID)
    (hu : (pcs' u).stage.At b) :
    (u = t ∧ ∃ ret_addr, pc = .enter ret_addr (.barrierWait b)) ∨
      (u ≠ t ∧ (pcs u).stage.At b) := by
  by_cases hut : u = t
  · subst hut
    exact Or.inl ⟨rfl, hnext.at hu⟩
  · right
    refine ⟨hut, ?_⟩
    cases hperformed with
    | created child pc' =>
        rw [Function.update_of_ne hut] at hu
        by_cases hchild : u = child
        · simp [hchild, Stage.At, Pc.stage] at hu
        · rwa [Function.update_of_ne hchild] at hu
    | _ => rwa [Function.update_of_ne hut] at hu

-- A section of something else than a call on the barrier.
theorem Barred.elsewhere (hserial : Serial s c) (h : Barred b s g)
    (hrun : s.tracker.runSection t (s.pcs t) = .ok (tr, eff))
    (hperformed : Performed t (s.pcs t) tr s.pcs eff s'.tracker s'.pcs)
    (hnext : (s.pcs t).Next (s'.pcs t))
    (hwait : ∀ ret_addr, s.pcs t ≠ .enter ret_addr (.barrierWait b))
    (hinit : ∀ ret_addr count, s.pcs t ≠ .enter ret_addr (.barrierInit b count)) :
    Barred b s' g := by
  have hbt : s'.tracker.bt = tr.bt := congrArg Prod.fst hperformed.waits
  have hstage (u : ThrID) (hu : (s'.pcs u).stage.At b) : (s.pcs u).stage.At b := by
    rcases hperformed.at hnext u hu with ⟨_, addr, hcall⟩ | ⟨_, hold⟩
    · exact absurd hcall (hwait addr)
    · exact hold
  by_cases hother : ∃ ret_addr bar, s.pcs t = .enter ret_addr (.barrierWait bar)
  · obtain ⟨addr, bar, hpc⟩ := hother
    have hbar : bar ≠ b := by
      rintro rfl
      exact hwait addr hpc
    have hself : t ∉ s.tracker.bt.getThreadsWaitingOnBarrier b := by
      intro hwaits
      have hpending := hserial.consistent.pending_of_waiting b hwaits
      rw [hpc] at hpending
      cases hpending
    rw [hpc] at hrun
    simp only [ExecutionTracker.runSection, ExecutionTracker.enter, ok_bind] at hrun
    obtain ⟨tracker, hbefore, hrun⟩ := hrun
    cases hrun
    obtain ⟨n, _, ⟨_, rfl⟩ | ⟨_, rfl⟩⟩ := ExecutionTracker.beforeBarrierWait_cases bar hbefore
    · refine h.keeps (by rw [hbt]; rfl) (fun u => ?_) hstage
      rw [hbt, ExecutionTracker.mem_waiting_openBarrier, and_iff_right hbar]
    · refine h.keeps (by rw [hbt]; rfl) (fun u => ?_) hstage
      rw [hbt, ExecutionTracker.mem_waiting_waitOnBarrier]
      split
      · rename_i hut
        subst hut
        exact iff_of_false hbar hself
      · exact Iff.rfl
  · by_cases hother' : ∃ ret_addr bar count, s.pcs t = .enter ret_addr (.barrierInit bar count)
    · obtain ⟨addr, bar, count, hpc⟩ := hother'
      have hbar : bar ≠ b := by
        rintro rfl
        exact hinit addr count hpc
      rw [hpc] at hrun
      cases hrun
      refine h.keeps ?_ (fun u => ?_) hstage
      · rw [hbt, BarrierTracker.getBarrierCount_initBarrier, if_neg hbar]
      · rw [hbt]
        unfold BarrierTracker.initBarrier
        split <;> rfl
    · have hsame : tr.bt = s.tracker.bt :=
        ExecutionTracker.bt_runSection _ (fun addr bar hpc => hother ⟨addr, bar, hpc⟩)
          (fun addr bar count hpc => hother' ⟨addr, bar, count, hpc⟩) hrun
      exact h.keeps (by rw [hbt, hsame]) (fun u => by rw [hbt, hsame]) hstage

-- A call: it waits, or it is the last one and lets everybody go.
theorem Barred.call (hserial : Serial s c) (h : Barred b s g) (addr : Addr)
    (hpc : s.pcs t = .enter addr (.barrierWait b))
    (hrun : s.tracker.runSection t (s.pcs t) = .ok (tr, eff))
    (hperformed : Performed t (s.pcs t) tr s.pcs eff s'.tracker s'.pcs)
    (hnext : (s.pcs t).Next (s'.pcs t)) :
    ∃ g', Generations.Rule g (.call t) g' ∧ Barred b s' g' := by
  have hbt : s'.tracker.bt = tr.bt := congrArg Prod.fst hperformed.waits
  have hself : t ∉ s.tracker.bt.getThreadsWaitingOnBarrier b := by
    intro hwaits
    have hpending := hserial.consistent.pending_of_waiting b hwaits
    rw [hpc] at hpending
    cases hpending
  have hself' : t ∉ g.waiting := fun hmem => hself ((h.waiting t).mpr hmem)
  have hothers (u : ThrID) (hu : (s'.pcs u).stage.At b) (hut : u ≠ t) : (s.pcs u).stage.At b := by
    rcases hperformed.at hnext u hu with ⟨heq, _⟩ | ⟨_, hold⟩
    · exact absurd heq hut
    · exact hold
  rw [hpc] at hrun
  simp only [ExecutionTracker.runSection, ExecutionTracker.enter, ok_bind] at hrun
  obtain ⟨tracker, hbefore, hrun⟩ := hrun
  cases hrun
  obtain ⟨n, hn, ⟨hlast, rfl⟩ | ⟨hmore, rfl⟩⟩ := ExecutionTracker.beforeBarrierWait_cases b hbefore
  · have hcount := h.count n hn
    rw [h.length] at hlast
    have hwaiting (u : ThrID) : u ∉ s'.tracker.bt.getThreadsWaitingOnBarrier b := by
      rw [hbt, ExecutionTracker.mem_waiting_openBarrier]
      exact fun hmem => hmem.1 rfl
    refine ⟨_, .last t (by omega), ?_, fun u => ?_, List.nodup_nil, fun u hu => ?_, h.results⟩
    · intro m hm
      rw [hbt] at hm
      exact h.count m hm
    · exact iff_of_false (hwaiting u) List.not_mem_nil
    · simp only [List.length_append, List.length_singleton, List.not_mem_nil, not_false_eq_true,
        forall_const]
      by_cases hut : u = t
      · subst hut
        exact ⟨_, Function.update_self _ _ _, by omega, by omega⟩
      · obtain ⟨k, hk, hle, _⟩ := h.current u (hothers u hu hut)
        exact ⟨k, (Function.update_of_ne hut _ _).trans hk, by omega, by omega⟩
  · have hcount := h.count n hn
    rw [h.length] at hmore
    have hmem (u : ThrID) : u ∈ s'.tracker.bt.getThreadsWaitingOnBarrier b ↔
        u ∈ g.waiting ++ [t] := by
      rw [hbt, ExecutionTracker.mem_waiting_waitOnBarrier, List.mem_append, List.mem_singleton]
      by_cases htu : t = u
      · simp [htu]
      · simp [htu, Ne.symm htu, h.waiting u]
    refine ⟨_, .wait t (by omega), ?_, hmem, ?_, fun u hu => ?_, h.results⟩
    · intro m hm
      rw [hbt] at hm
      exact h.count m hm
    · rw [List.nodup_append]
      refine ⟨h.nodup, by simp, fun x hx y hy => ?_⟩
      rw [List.mem_singleton.mp hy]
      rintro rfl
      exact hself' hx
    · by_cases hut : u = t
      · subst hut
        exact ⟨_, Function.update_self _ _ _, Nat.le_refl _, fun hnot => by simp at hnot⟩
      · obtain ⟨k, hk, hle, hlt⟩ := h.current u (hothers u hu hut)
        refine ⟨k, (Function.update_of_ne hut _ _).trans hk, hle, fun hnot => hlt fun hmem => ?_⟩
        exact hnot (List.mem_append_left _ hmem)

-- An initialisation while nobody waits.
theorem Barred.init (h : Barred b s g) (addr : Addr) (count : Nat)
    (hpc : s.pcs t = .enter addr (.barrierInit b count))
    (hrun : s.tracker.runSection t (s.pcs t) = .ok (tr, eff))
    (hperformed : Performed t (s.pcs t) tr s.pcs eff s'.tracker s'.pcs)
    (hnext : (s.pcs t).Next (s'.pcs t))
    (hpos : 1 ≤ count) (hnobody : g.waiting = []) :
    ∃ g', Generations.Rule g (.init count) g' ∧ Barred b s' g' := by
  have hbt : s'.tracker.bt = tr.bt := congrArg Prod.fst hperformed.waits
  have hstage (u : ThrID) (hu : (s'.pcs u).stage.At b) : (s.pcs u).stage.At b := by
    rcases hperformed.at hnext u hu with ⟨_, _, hcall⟩ | ⟨_, hold⟩
    · rw [hpc] at hcall
      cases hcall
    · exact hold
  rw [hpc] at hrun
  cases hrun
  refine ⟨_, .init count hpos hnobody, fun n hn => ?_, fun u => ?_, h.nodup,
    fun u hu => h.current u (hstage u hu), h.results⟩
  · rw [hbt, BarrierTracker.getBarrierCount_initBarrier, if_pos rfl] at hn
    exact Option.some.inj hn
  · rw [← h.waiting u, hbt]
    unfold BarrierTracker.initBarrier
    split <;> rfl

-- A return: the thread does not wait any more.
theorem Barred.ret (hserial : Serial s c) (h : Barred b s g)
    (hpc : s.pcs t = .resume (.barrier b))
    (hrun : s.tracker.runSection t (s.pcs t) = .ok (tr, eff))
    (hperformed : Performed t (s.pcs t) tr s.pcs eff s'.tracker s'.pcs)
    (hnext : (s.pcs t).Next (s'.pcs t)) :
    s'.pcs t = .program OPERATION_SUCCESSFUL ∧
      ∃ g', Generations.Rule g (.ret t OPERATION_SUCCESSFUL) g' ∧ Barred b s' g' := by
  have hbt : s'.tracker.bt = tr.bt := congrArg Prod.fst hperformed.waits
  have hself : t ∉ g.waiting := by
    intro hmem
    have hpending := hserial.consistent.pending_of_waiting b ((h.waiting t).mpr hmem)
    rw [hpc] at hpending
    cases hpending
  obtain ⟨k, hk, _, hlt⟩ := h.current t (by rw [hpc]; exact Or.inr rfl)
  have hstage (u : ThrID) (hu : (s'.pcs u).stage.At b) : u ≠ t ∧ (s.pcs u).stage.At b := by
    rcases hperformed.at hnext u hu with ⟨_, _, hcall⟩ | hold
    · rw [hpc] at hcall
      cases hcall
    · exact hold
  rw [hpc] at hrun
  cases hrun
  refine ⟨by rw [hperformed.goto_eq.2]; exact Function.update_self _ _ _, _,
    .ret t OPERATION_SUCCESSFUL k hk (hlt hself), fun n hn => ?_, fun u => ?_, h.nodup,
    fun u hu => ?_, fun j r hr => ?_⟩
  · rw [hbt] at hn
    exact h.count n hn
  · rw [hbt]
    exact h.waiting u
  · obtain ⟨hut, hold⟩ := hstage u hu
    obtain ⟨j, hj, hrest⟩ := h.current u hold
    exact ⟨j, (Function.update_of_ne hut _ _).trans hj, hrest⟩
  · by_cases hjk : j = k
    · subst hjk
      simp only [Function.update_self, List.mem_append, List.mem_singleton] at hr
      rcases hr with hr | hr
      · exact h.results j r hr
      · exact hr
    · simp only [Function.update_of_ne hjk] at hr
      exact h.results j r hr

-- Every step is what the rules allow, as long as nobody initialises the barrier under waiting
-- threads.
theorem Barred.step (hserial : Serial s c) (h : Barred b s g)
    (hstep : s.step v t ret_addr op = some s') (hrunning : s'.stopped = none)
    (hproper : ∀ count, barrierEvents b s t s' = [.init count] → 1 ≤ count ∧ g.waiting = []) :
    ∃ g', Runs Generations.Rule g (barrierEvents b s t s') g' ∧ Barred b s' g' := by
  obtain ⟨_, htransition⟩ := step_iff.mp hstep
  -- the steps that are not sections leave the tracker's maps and the stages as they are
  have hquiet (hpc : (s.pcs t).isSection = false)
      (hbt : s'.tracker.bt = s.tracker.bt)
      (hstage : ∀ u, (s'.pcs u).stage.At b → (s.pcs u).stage.At b) :
      ∃ g', Runs Generations.Rule g (barrierEvents b s t s') g' ∧ Barred b s' g' := by
    have hnone : barrierEvents b s t s' = [] := by
      unfold barrierEvents
      split <;> first
        | rfl
        | simp_all [Pc.isSection]
    rw [hnone]
    exact ⟨g, .nil g, h.keeps (by rw [hbt]) (fun u => by rw [hbt]) hstage⟩
  have hgoto (pcs : ThrID → Pc) (pc' : Pc) (hstage : pc'.stage.At b → (pcs t).stage.At b)
      (u : ThrID) (hu : (Function.update pcs t pc' u).stage.At b) : (pcs u).stage.At b := by
    by_cases hut : u = t
    · subst hut
      exact hstage (by simpa using hu)
    · rwa [Function.update_of_ne hut] at hu
  cases htransition with
  | asks ret_val hpc =>
      refine hquiet (by rw [hpc]; rfl) rfl (hgoto s.pcs _ ?_)
      simp [hpc, Pc.stage]
  | spawns addr child hpc =>
      have hchild := hserial.controlled.spawn t addr child _ hpc
      have htc : t ≠ child := by
        rintro rfl
        rw [hpc] at hchild
        cases hchild
      refine hquiet (by rw [hpc]; rfl) rfl fun u hu => ?_
      have hu' := hgoto _ _ (by simp [System.goto, Stage.At, Pc.stage]) u hu
      by_cases huc : u = child
      · simp [System.goto, huc, Stage.At, Pc.stage] at hu'
      · simpa [System.goto, huc] using hu'
  | starts hpc hlock =>
      refine hquiet (by rw [hpc]; rfl) rfl (hgoto s.pcs _ ?_)
      simp [hpc, Pc.stage, Rest.stage]
  | unlocks r hpc =>
      refine hquiet (by rw [hpc]; rfl) rfl (hgoto s.pcs _ ?_)
      simp [hpc, Pc.stage]
  | leaves r hpc hlock =>
      refine hquiet (by rw [hpc]; rfl) rfl (hgoto s.pcs _ ?_)
      simp [hpc, Pc.stage]
  | resumes k n hpc hsem =>
      refine hquiet (by rw [hpc]; rfl) rfl (hgoto s.pcs _ ?_)
      simp [hpc, Pc.stage, Rest.stage, Stage.At]
  | wakes w n hpc hsem =>
      refine hquiet (by rw [hpc]; rfl) rfl (hgoto s.pcs _ ?_)
      simp [hpc, Pc.stage, Rest.stage]
  | runs hsection hlock hready =>
      obtain ⟨tr, eff, hrun, hperformed⟩ := runThread_performed (s.pcs t) hrunning
      have hnext := hperformed.next (ExecutionTracker.runSection_leads _ hsection hrun)
      by_cases hcall : ∃ addr, s.pcs t = .enter addr (.barrierWait b)
      · obtain ⟨addr, hpc⟩ := hcall
        obtain ⟨g', hrule, hbarred⟩ := h.call hserial addr hpc hrun hperformed hnext
        have hevents : barrierEvents b s t (s.runThread v t (s.pcs t)) = [.call t] := by
          simp [barrierEvents, hpc]
        rw [hevents]
        exact ⟨g', Runs.single g g' _ hrule, hbarred⟩
      · by_cases hinit : ∃ addr count, s.pcs t = .enter addr (.barrierInit b count)
        · obtain ⟨addr, count, hpc⟩ := hinit
          have hevents : barrierEvents b s t (s.runThread v t (s.pcs t)) = [.init count] := by
            simp [barrierEvents, hpc]
          obtain ⟨hpos, hnobody⟩ := hproper count hevents
          obtain ⟨g', hrule, hbarred⟩ :=
            h.init addr count hpc hrun hperformed hnext hpos hnobody
          rw [hevents]
          exact ⟨g', Runs.single g g' _ hrule, hbarred⟩
        · by_cases hret : s.pcs t = .resume (.barrier b)
          · obtain ⟨hprogram, g', hrule, hbarred⟩ := h.ret hserial hret hrun hperformed hnext
            have hevents : barrierEvents b s t (s.runThread v t (s.pcs t)) =
                [.ret t OPERATION_SUCCESSFUL] := by
              unfold barrierEvents
              rw [hprogram, hret]
              exact if_pos rfl
            rw [hevents]
            exact ⟨g', Runs.single g g' _ hrule, hbarred⟩
          · have hbarred := h.elsewhere hserial hrun hperformed hnext
              (fun addr hpc => hcall ⟨addr, hpc⟩) fun addr count hpc => hinit ⟨addr, count, hpc⟩
            have hevents : barrierEvents b s t (s.runThread v t (s.pcs t)) = [] := by
              unfold barrierEvents
              split
              · rename_i addr bar count hpc
                exact if_neg fun hbar => hinit ⟨addr, count, by rw [hpc, hbar]⟩
              · rename_i addr bar hpc
                exact if_neg fun hbar => hcall ⟨addr, by rw [hpc, hbar]⟩
              · rename_i bar ret_val hpc _
                exact if_neg fun hbar => hret (by rw [hpc, hbar])
              · rfl
            rw [hevents]
            exact ⟨g, .nil g, hbarred⟩

theorem barred_of_traced {past : List BarrierEvent}
    (h : Traced Initial (Shows v (barrierEvents b)) s past) (hproper : Generations.Proper past) :
    ∃ g, Runs Generations.Rule {} past g ∧ Barred b s g := by
  refine h.simulates Generations.Proper (fun front back => Generations.Proper.front) (Barred b) {}
    ?_ ?_ hproper
  · rintro s ⟨scheduler, read_schedule, rfl⟩
    exact Barred.initial scheduler read_schedule
  · rintro s s' past _ g htraced ⟨t, ret_addr, op, hstep, hrunning, rfl⟩ hallowed hruns hbarred
    obtain ⟨c, hserial⟩ := serial_of_traced htraced
    refine hbarred.step hserial hstep hrunning fun count hevents => ?_
    rw [hevents] at hallowed
    obtain ⟨hpos, hnobody⟩ := hallowed past count [] rfl
    rw [show ((0, 0) : Nat × Nat) =
      ((({} : Generations).count), ({} : Generations).waiting.length) from rfl,
      Generations.counts_of_runs hruns] at hnobody
    exact ⟨hpos, List.eq_nil_of_length_eq_zero hnobody⟩

theorem pcs_of_call (hcall : barrierEvents b s t s' = [.call t]) :
    ∃ addr, s.pcs t = .enter addr (.barrierWait b) := by
  unfold barrierEvents at hcall
  split at hcall
  · split at hcall <;> cases hcall
  · rename_i addr bar hpc
    split at hcall
    · rename_i hbar
      exact ⟨addr, by rw [hpc, hbar]⟩
    · cases hcall
  · split at hcall <;> cases hcall
  · cases hcall

theorem Performed.enable_map {pc : Pc} {pcs : ThrID → Pc} {info : SchedPointInfo} {r : Rest}
    (h : Performed t pc tr pcs (.schedule info r) tr' pcs') : tr'.enable_map = tr.enable_map := by
  cases h with
  | schedule info r target tracker henabled hlaunch =>
      have hkeeps := (ExecutionTracker.launch_keeps hlaunch).2.2.1
      rw [(tr.recordScheduleInfo_keeps info.thread target).2.2.2.1] at hkeeps
      rw [← hkeeps]
      cases pc <;> rfl

-- The last call enables all threads of its generation, and leaves nobody waiting.
theorem Barred.opens (h : Barred b s g) (hstep : s.step v t ret_addr op = some s')
    (hrunning : s'.stopped = none) (hcall : barrierEvents b s t s' = [.call t])
    (hlast : g.waiting.length + 1 = g.count) :
    (∀ u ∈ g.waiting ++ [t], s'.tracker.isEnabled u = true) ∧
      s'.tracker.bt.getThreadsWaitingOnBarrier b = [] := by
  obtain ⟨addr, hpc⟩ := pcs_of_call hcall
  obtain ⟨hrunning₀, _⟩ := step_iff.mp hstep
  have hsection : (s.pcs t).isSection = true := by rw [hpc]; rfl
  rw [step_section hrunning₀ hsection] at hstep
  have hs' : s' = s.runThread v t (s.pcs t) := by
    split at hstep
    · exact (Option.some.inj hstep).symm
    · cases hstep
  subst hs'
  obtain ⟨tr, eff, hrun, hperformed⟩ := runThread_performed (s.pcs t) hrunning
  have hbt := congrArg Prod.fst hperformed.waits
  rw [hpc] at hrun
  simp only [ExecutionTracker.runSection, ExecutionTracker.enter, ok_bind] at hrun
  obtain ⟨tracker, hbefore, hrun⟩ := hrun
  cases hrun
  have henable := hperformed.enable_map
  obtain ⟨n, hn, ⟨_, rfl⟩ | ⟨hmore, _⟩⟩ := ExecutionTracker.beforeBarrierWait_cases b hbefore
  · constructor
    · intro u hu
      rw [ExecutionTracker.isEnabled, henable, ← ExecutionTracker.isEnabled,
        ExecutionTracker.isEnabled_openBarrier, h.waiting u]
      rw [List.mem_append, List.mem_singleton] at hu
      rcases hu with hu | hu
      · exact Or.inr (Or.inl hu)
      · exact Or.inl hu
    · rw [List.eq_nil_iff_forall_not_mem]
      intro u hu
      have hbt' : (s.runThread v t (s.pcs t)).tracker.bt = (s.tracker.openBarrier t b).bt := hbt
      rw [hbt', ExecutionTracker.mem_waiting_openBarrier] at hu
      exact hu.1 rfl
  · rw [h.length, ← h.count n hn] at hmore
    omega

-- In every state of every run: the calls come in generations of `count`, none of them returns
-- before its generation is complete, and the last one enables them all; and the special value is
-- returned as it should be exactly as long as no generation has returned completely.
theorem barrier_generations (v : Virtual σ) (b : Addr) (s : System σ) (past : List BarrierEvent)
    (h : Traced Initial (Shows v (barrierEvents b)) s past) (hproper : Generations.Proper past) :
    ∃ g, Runs Generations.Rule {} past g ∧
      (∀ u, u ∈ s.tracker.bt.getThreadsWaitingOnBarrier b ↔ u ∈ g.waiting) ∧
      (∀ u ∈ g.waiting, s.tracker.isEnabled u = false) ∧
      (∀ t ret_addr op s', s.step v t ret_addr op = some s' → s'.stopped = none →
        barrierEvents b s t s' = [.call t] → g.waiting.length + 1 = g.count →
        (∀ u ∈ g.waiting ++ [t], s'.tracker.isEnabled u = true) ∧
          s'.tracker.bt.getThreadsWaitingOnBarrier b = []) ∧
      ((∀ k, g.Returned k → Generations.SerialOnce (g.results k)) ↔ ∀ k, ¬g.Returned k) := by
  obtain ⟨g, hruns, hbarred⟩ := barred_of_traced h hproper
  obtain ⟨c, hserial⟩ := serial_of_traced h
  refine ⟨g, hruns, hbarred.waiting, fun u hu => ?_,
    fun t ret_addr op s' hstep hrunning hcall hlast => hbarred.opens hstep hrunning hcall hlast,
    fun hserials k hk => ?_, fun hnone k hk => absurd hk (hnone k)⟩
  · exact hserial.consistent.waiting_disabled b ((hbarred.waiting u).mpr hu)
  · -- every call returned 0
    obtain ⟨hcount, _⟩ := hserials k hk
    have hzero : PTHREAD_BARRIER_SERIAL_THREAD ∉ g.results k := by
      intro hmem
      cases hbarred.results k _ hmem
    rw [List.count_eq_zero_of_not_mem hzero] at hcount
    cases hcount

-- The main thread waits on a barrier for one thread.
theorem aloneOnBarrier :
    ∃ s, Traced Initial (Shows ExecutionTracker.virtual (barrierEvents 5)) s
      [.init 1, .call 0, .ret 0 0] := by
  let steps : List (ThrID × Addr × Op) :=
    [(0, 1, .barrierInit 5 1), (0, 1, .exit), (0, 2, .barrierWait 5), (0, 1, .exit),
      (0, 1, .exit), (0, 1, .exit), (0, 1, .exit), (0, 1, .exit)]
  have hany : ((initial () []).run ExecutionTracker.virtual steps).any (·.stopped.isNone) = true := by
    decide +kernel
  obtain ⟨s, hs, hrunning⟩ := Option.any_eq_true _ _ |>.mp hany
  rw [Option.isNone_iff_eq_none] at hrunning
  have hinitial : Traced Initial (Shows ExecutionTracker.virtual (barrierEvents 5))
      (initial () []) [] := .initial _ ⟨(), [], rfl⟩
  have htraced := traced_of_run steps hinitial hs hrunning
  have hshown : [] ++ shown ExecutionTracker.virtual (barrierEvents 5) (initial () []) steps =
      [.init 1, .call 0, .ret 0 0] := by
    decide +kernel
  rw [hshown] at htraced
  exact ⟨s, htraced⟩

theorem proper_aloneOnBarrier : Generations.Proper [.init 1, .call 0, .ret 0 0] := by
  intro front count back heq
  match front with
  | [] =>
      cases heq
      exact ⟨Nat.le_refl 1, rfl⟩
  | [_] => cases heq
  | [_, _] => cases heq
  | _ :: _ :: _ :: front => simp at heq

theorem barrier_generations_aloneOnBarrier :
    ∃ s g, Traced Initial (Shows ExecutionTracker.virtual (barrierEvents 5)) s
        [.init 1, .call 0, .ret 0 0] ∧
      Runs Generations.Rule {} [.init 1, .call 0, .ret 0 0] g ∧
      ((∀ k, g.Returned k → Generations.SerialOnce (g.results k)) ↔ ∀ k, ¬g.Returned k) := by
  obtain ⟨s, htraced⟩ := aloneOnBarrier
  obtain ⟨g, hruns, _, _, _, hiff⟩ :=
    barrier_generations ExecutionTracker.virtual 5 s _ htraced proper_aloneOnBarrier
  exact ⟨s, g, htraced, hruns, hiff⟩

-- Its only call returns 0.
theorem not_serialOnce_aloneOnBarrier :
    ∃ s g, Traced Initial (Shows ExecutionTracker.virtual (barrierEvents 5)) s
        [.init 1, .call 0, .ret 0 0] ∧
      Generations.Proper [.init 1, .call 0, .ret 0 0] ∧
      Runs Generations.Rule {} [.init 1, .call 0, .ret 0 0] g ∧ g.Returned 0 ∧
      ¬Generations.SerialOnce (g.results 0) := by
  obtain ⟨s, htraced⟩ := aloneOnBarrier
  refine ⟨s, _, htraced, proper_aloneOnBarrier,
    .cons _ _ _ _ _ (.init 1 (Nat.le_refl 1) rfl) (.cons _ _ _ _ _ (.last 0 rfl)
      (.cons _ _ _ _ _ (.ret 0 0 0 rfl (Nat.lt_succ_self 0)) (.nil _))), ⟨[0], rfl, rfl⟩, ?_⟩
  rintro ⟨hcount, _⟩
  cases hcount

end System

end Thrille
