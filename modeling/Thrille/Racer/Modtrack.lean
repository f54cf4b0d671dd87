import Thrille.Racer.Hybridtrack
import Mathlib.Data.List.Induction

namespace Thrille

structure LockRaceEvent where
  lock : Addr
  thread : ThrID
  addr : Addr
  isread : Bool
  vc : VectorClock
  ls : LockSet

structure ModifiedRaceTracker extends HybridRaceTracker where
  lock_profile_map : Std.TreeMap Addr Nat := ∅
  lockprofiling : Nat
  lockeventset : Std.TreeMap Addr (List LockRaceEvent) := ∅

-- The constructor with two sizes; nothing but its getter reads the first one.
def HybridRaceTracker.new (_wr rd : Nat) : HybridRaceTracker := { rd_profile_size := rd }

theorem take_concat {α : Type} (n : Nat) (xs : List α) (x : α) :
    (xs ++ [x]).take n = if (xs.take n).length < n then xs.take n ++ [x] else xs.take n := by
  rw [List.take_append, List.length_take]
  split
  · rw [show n - xs.length = n - xs.length - 1 + 1 by omega, List.take_succ_cons, List.take_nil]
  · rw [show n - xs.length = 0 by omega, List.take_zero, List.append_nil]

namespace ModifiedRaceTracker

-- With what `initializationHelper` sets.
def new (wr rd : Nat) : ModifiedRaceTracker :=
  { HybridRaceTracker.new wr rd with lockprofiling := 20 }

def addLockEvent (self : ModifiedRaceTracker) (e : LockRaceEvent) : ModifiedRaceTracker :=
  let count := self.lock_profile_map.getD e.addr 0
  if self.lockprofiling < count then self
  else { self with
    lock_profile_map := self.lock_profile_map.insert e.addr (count + 1)
    lockeventset := self.lockeventset.insert e.addr (self.lockeventset.getD e.addr [] ++ [e]) }

end ModifiedRaceTracker

namespace HybridRaceTracker

-- The first `rd` reads and the first `wr` writes among some events, in their order.
def firstOfEach (wr rd : Nat) : List DataRaceEvent → List DataRaceEvent
  | [] => []
  | e :: events =>
      if e.isread then
        if rd = 0 then firstOfEach wr rd events else e :: firstOfEach wr (rd - 1) events
      else if wr = 0 then firstOfEach wr rd events
      else e :: firstOfEach (wr - 1) rd events

theorem firstOfEach_sublist (wr rd : Nat) (events : List DataRaceEvent) :
    (firstOfEach wr rd events).Sublist events := by
  induction events generalizing wr rd with
  | nil => exact List.Sublist.refl []
  | cons e events ih =>
      rw [firstOfEach]
      split
      · split
        · exact (ih wr rd).cons e
        · exact (ih wr (rd - 1)).cons_cons e
      · split
        · exact (ih wr rd).cons e
        · exact (ih (wr - 1) rd).cons_cons e

theorem filter_firstOfEach (wr rd : Nat) (events : List DataRaceEvent) :
    (firstOfEach wr rd events).filter (·.isread) = (events.filter (·.isread)).take rd ∧
      (firstOfEach wr rd events).filter (!·.isread) = (events.filter (!·.isread)).take wr := by
  induction events generalizing wr rd with
  | nil => simp [firstOfEach]
  | cons e events ih =>
      rw [firstOfEach]
      by_cases hread : e.isread = true
      · rw [if_pos hread]
        cases rd with
        | zero => simpa [hread] using ih wr 0
        | succ rd => simpa [hread] using ih wr rd
      · rw [if_neg hread]
        cases wr with
        | zero => simpa [hread] using ih 0 rd
        | succ wr => simpa [hread] using ih wr rd

-- `kept` is within both sizes, and where something comes after it its size is used up.
structure Fits (wr rd : Nat) (kept later : List DataRaceEvent) : Prop where
  reads : kept.countP (·.isread) ≤ rd
  writes : kept.countP (!·.isread) ≤ wr
  later : ∀ e ∈ later,
    if e.isread then rd ≤ kept.countP (·.isread) else wr ≤ kept.countP (!·.isread)

theorem nil_eq_firstOfEach_iff (wr rd : Nat) (events : List DataRaceEvent) :
    [] = firstOfEach wr rd events ↔ ∀ e ∈ events, if e.isread then rd = 0 else wr = 0 := by
  induction events with
  | nil => simp [firstOfEach]
  | cons e events ih =>
      rw [firstOfEach, List.forall_mem_cons]
      by_cases hread : e.isread = true
      · by_cases hrd : rd = 0
        · simpa [hread, hrd] using ih
        · simp [hread, hrd]
      · by_cases hwr : wr = 0
        · simpa [hread, hwr] using ih
        · simp [hread, hwr]

theorem fits_nil (wr rd : Nat) (later : List DataRaceEvent) :
    Fits wr rd [] later ↔ [] = firstOfEach wr rd later := by
  rw [nil_eq_firstOfEach_iff]
  constructor
  · intro h
    simpa using h.later
  · intro h
    exact ⟨Nat.zero_le rd, Nat.zero_le wr, by simpa using h⟩

theorem fits_cons_read (wr rd : Nat) (e : DataRaceEvent) (kept later : List DataRaceEvent)
    (hread : e.isread = true) :
    Fits wr rd (e :: kept) later ↔ rd ≠ 0 ∧ Fits wr (rd - 1) kept later := by
  have hreads : (e :: kept).countP (·.isread) = kept.countP (·.isread) + 1 :=
    List.countP_cons_of_pos hread
  have hwrites : (e :: kept).countP (!·.isread) = kept.countP (!·.isread) :=
    List.countP_cons_of_neg (by simp [hread])
  constructor
  · rintro ⟨hrd, hwr, hlater⟩
    rw [hreads] at hrd
    rw [hwrites] at hwr
    refine ⟨by omega, by omega, hwr, fun e' he' => ?_⟩
    have h := hlater e' he'
    rw [hreads, hwrites] at h
    split_ifs at h ⊢ <;> omega
  · rintro ⟨hpos, hrd, hwr, hlater⟩
    refine ⟨by omega, by omega, fun e' he' => ?_⟩
    have h := hlater e' he'
    rw [hreads, hwrites]
    split_ifs at h ⊢ <;> omega

theorem fits_cons_write (wr rd : Nat) (e : DataRaceEvent) (kept later : List DataRaceEvent)
    (hread : ¬ e.isread = true) :
    Fits wr rd (e :: kept) later ↔ wr ≠ 0 ∧ Fits (wr - 1) rd kept later := by
  have hreads : (e :: kept).countP (·.isread) = kept.countP (·.isread) :=
    List.countP_cons_of_neg hread
  have hwrites : (e :: kept).countP (!·.isread) = kept.countP (!·.isread) + 1 :=
    List.countP_cons_of_pos (by simp [hread])
  constructor
  · rintro ⟨hrd, hwr, hlater⟩
    rw [hreads] at hrd
    rw [hwrites] at hwr
    refine ⟨by omega, hrd, by omega, fun e' he' => ?_⟩
    have h := hlater e' he'
    rw [hreads, hwrites] at h
    split_ifs at h ⊢ <;> omega
  · rintro ⟨hpos, hrd, hwr, hlater⟩
    refine ⟨by omega, by omega, fun e' he' => ?_⟩
    have h := hlater e' he'
    rw [hreads, hwrites]
    split_ifs at h ⊢ <;> omega

theorem take_eq_firstOfEach_iff (n wr rd : Nat) (events : List DataRaceEvent) :
    events.take n = firstOfEach wr rd events ↔ Fits wr rd (events.take n) (events.drop n) := by
  induction events generalizing n wr rd with
  | nil =>
      rw [List.take_nil, List.drop_nil, fits_nil]
  | cons e events ih =>
      cases n with
      | zero => exact (fits_nil wr rd (e :: events)).symm
      | succ n =>
          obtain ⟨hreads, hwrites⟩ := filter_firstOfEach wr rd events
          rw [List.take_succ_cons, List.drop_succ_cons, firstOfEach]
          by_cases hread : e.isread = true
          · rw [if_pos hread, fits_cons_read _ _ _ _ _ hread]
            by_cases hrd : rd = 0
            · rw [if_pos hrd]
              refine iff_of_false (fun heq => ?_) fun h => h.1 hrd
              rw [← heq, hrd, List.filter_cons_of_pos hread] at hreads
              simp at hreads
            · rw [if_neg hrd, List.cons_inj_right, ih, and_iff_right hrd]
          · rw [if_neg hread, fits_cons_write _ _ _ _ _ hread]
            by_cases hwr : wr = 0
            · rw [if_pos hwr]
              refine iff_of_false (fun heq => ?_) fun h => h.1 hwr
              rw [← heq, hwr] at hwrites
              simp [hread] at hwrites
            · rw [if_neg hwr, List.cons_inj_right, ih, and_iff_right hwr]

theorem addEvent_rd_profile_size (self : HybridRaceTracker) (events : List DataRaceEvent) :
    (events.foldl addEvent self).rd_profile_size = self.rd_profile_size := by
  induction events using List.reverseRecOn with
  | nil => rfl
  | append_singleton events e ih => rw [List.foldl_concat, addEvent, ih]

-- One vector for each address, one size for both kinds: the first `rd` events stay.
theorem eventset_addEvent (wr rd : Nat) (events : List DataRaceEvent) (addr : Addr) :
    (events.foldl addEvent (new wr rd)).eventset.getD addr [] =
      (events.filter (·.addr == addr)).take rd := by
  induction events using List.reverseRecOn with
  | nil => simp [new]
  | append_singleton events e ih =>
      have hrd := addEvent_rd_profile_size (new wr rd) events
      rw [List.foldl_concat, addEvent, OrderedMap.getD_insert_eq, List.filter_append]
      by_cases haddr : e.addr = addr
      · rw [if_pos haddr, haddr, ih, hrd, List.filter_singleton, beq_iff_eq.mpr haddr,
          cond_true, take_concat]
        rfl
      · rw [if_neg haddr, ih, List.filter_singleton, beq_eq_false_iff_ne.mpr haddr, cond_false,
          List.append_nil]

end HybridRaceTracker

namespace ModifiedRaceTracker

-- The count of a mutex goes one past `lockprofiling` before its events are turned away.
theorem lockeventset_addLockEvent (wr rd : Nat) (events : List LockRaceEvent) (mutex : Addr) :
    (events.foldl addLockEvent (new wr rd)).lockeventset.getD mutex [] =
      (events.filter (·.addr == mutex)).take 21 ∧
    (events.foldl addLockEvent (new wr rd)).lock_profile_map.getD mutex 0 =
      ((events.filter (·.addr == mutex)).take 21).length ∧
    (events.foldl addLockEvent (new wr rd)).lockprofiling = 20 := by
  induction events using List.reverseRecOn generalizing mutex with
  | nil => simp [new]
  | append_singleton events e ih =>
      obtain ⟨hset, hcount, hprofiling⟩ := ih e.addr
      rw [List.foldl_concat, addLockEvent, hprofiling, hcount, List.filter_append,
        List.filter_singleton]
      obtain ⟨hset', hcount', -⟩ := ih mutex
      by_cases haddr : e.addr = mutex
      · rw [beq_iff_eq.mpr haddr, cond_true, take_concat]
        rw [haddr] at hset hcount ⊢
        split_ifs with h1 h2 h2
        · omega
        · exact ⟨hset, hcount, hprofiling⟩
        · refine ⟨?_, ?_, rfl⟩
          · simp [hset]
          · simp
        · omega
      · rw [beq_eq_false_iff_ne.mpr haddr, cond_false, List.append_nil]
        split_ifs with h
        · exact ⟨hset', hcount', hprofiling⟩
        · refine ⟨?_, ?_, rfl⟩
          · simpa [haddr] using hset'
          · simpa [haddr] using hcount'

-- The reads and the writes of an address have the allowances that the constructor was given, and
-- a mutex has `lockprofiling` of them.
def Retained (wr rd : Nat) (events : List DataRaceEvent) (lockEvents : List LockRaceEvent) : Prop :=
  (∀ addr, (events.foldl HybridRaceTracker.addEvent (.new wr rd)).eventset.getD addr [] =
    HybridRaceTracker.firstOfEach wr rd (events.filter (·.addr == addr))) ∧
  ∀ mutex, (lockEvents.foldl addLockEvent (new wr rd)).lockeventset.getD mutex [] =
    (lockEvents.filter (·.addr == mutex)).take (new wr rd).lockprofiling

theorem retained_iff (wr rd : Nat) (events : List DataRaceEvent) (lockEvents : List LockRaceEvent) :
    Retained wr rd events lockEvents ↔
      (∀ addr, HybridRaceTracker.Fits wr rd ((events.filter (·.addr == addr)).take rd)
        ((events.filter (·.addr == addr)).drop rd)) ∧
      ∀ mutex, (lockEvents.filter (·.addr == mutex)).length ≤ (new wr rd).lockprofiling := by
  have hlock (mutex : Addr) :
      (lockEvents.foldl addLockEvent (new wr rd)).lockeventset.getD mutex [] =
          (lockEvents.filter (·.addr == mutex)).take (new wr rd).lockprofiling ↔
        (lockEvents.filter (·.addr == mutex)).length ≤ (new wr rd).lockprofiling := by
    rw [(lockeventset_addLockEvent wr rd lockEvents mutex).1]
    have hnew : (new wr rd).lockprofiling = 20 := rfl
    rw [hnew]
    constructor
    · intro h
      have hlength := congrArg List.length h
      simp only [List.length_take] at hlength
      omega
    · intro h
      rw [List.take_of_length_le h, List.take_of_length_le (by omega)]
  refine and_congr (forall_congr' fun addr => ?_) (forall_congr' hlock)
  rw [HybridRaceTracker.eventset_addEvent, HybridRaceTracker.take_eq_firstOfEach_iff]

-- A read leaves no room for the write after it, and a mutex keeps a twenty-first event.
theorem not_retained_readThenWrite :
    ¬ Retained 1 1 [⟨0x10, 0, 0x90, true, ∅, ∅⟩, ⟨0x20, 1, 0x90, false, ∅, ∅⟩] [] ∧
      ¬ Retained 1 1 [] (List.replicate 21 ⟨0x50, 0, 0x90, true, ∅, ∅⟩) := by
  constructor
  · intro h
    have haddr := h.1 0x90
    rw [HybridRaceTracker.eventset_addEvent] at haddr
    simp [HybridRaceTracker.firstOfEach] at haddr
  · intro h
    have hmutex := h.2 0x90
    rw [(lockeventset_addLockEvent 1 1 _ 0x90).1] at hmutex
    have hlength := congrArg List.length hmutex
    simp [new] at hlength

end ModifiedRaceTracker

end Thrille
