import Thrille.Lib.Recorded
import Thrille.Racer.Clocks
import Thrille.Racer.Modtrack
import Mathlib.Data.Finset.Disjoint
import Mathlib.Data.Sym.Sym2

namespace Thrille

-- `dataRaceRecord` and `lockRaceRecord` differ in the names of their fields only.
structure RaceRecord where
  left : Addr
  right : Addr
deriving DecidableEq

namespace RaceRecord

-- The constructor puts the smaller address first.
def new (id1 id2 : Addr) : RaceRecord := if id1 < id2 then ⟨id1, id2⟩ else ⟨id2, id1⟩

-- `operator==`.
def same (rr1 rr2 : RaceRecord) : Bool :=
  if rr1.left = rr2.left ∧ rr1.right = rr2.right then true
  else decide (rr1.left = rr2.right ∧ rr1.right = rr2.left)

-- What a record says: two instructions, in no order.
def pair (rr : RaceRecord) : Sym2 Addr := s(rr.left, rr.right)

theorem pair_new (id1 id2 : Addr) : (new id1 id2).pair = s(id1, id2) := by
  unfold new
  split
  · rfl
  · exact Sym2.eq_swap

theorem same_iff (rr1 rr2 : RaceRecord) : rr1.same rr2 = true ↔ rr1.pair = rr2.pair := by
  rw [same, pair, pair, Sym2.eq_iff]
  split
  · rename_i h
    simp [h]
  · rename_i h
    simp [h]

end RaceRecord

-- The copy of a lock event that `isRacing` gets, which reads no identifier.
def LockRaceEvent.raceEvent (e : LockRaceEvent) : DataRaceEvent :=
  { iid := e.lock, thread := e.thread, addr := e.addr, isread := e.isread, vc := e.vc, ls := e.ls }

-- The tracker with the races it has reported.
structure RaceReporter extends ModifiedRaceTracker where
  foundraces : List RaceRecord := []
  foundlockraces : List RaceRecord := []

namespace RaceReporter

-- The loops of `checkRace` and `checkLockRace` over the events of one address.
def checkAll {ε : Type} (racing : ε → Bool) (record : ε → RaceRecord) (addrevents : List ε)
    (found : List RaceRecord) : List RaceRecord :=
  addrevents.foldl
    (fun found itr =>
      if racing itr then
        if found.any (·.same (record itr)) then found else found ++ [record itr]
      else found) found

def checkRace (self : RaceReporter) (e : DataRaceEvent) : RaceReporter :=
  { self with
    foundraces := checkAll (fun itr => HybridRaceTracker.isRacing e itr)
      (fun itr => RaceRecord.new e.iid itr.iid) (self.eventset.getD e.addr []) self.foundraces }

def checkLockRace (self : RaceReporter) (e : LockRaceEvent) : RaceReporter :=
  { self with
    foundlockraces := checkAll (fun itr => HybridRaceTracker.isRacing itr.raceEvent e.raceEvent)
      (fun itr => RaceRecord.new itr.lock e.lock) (self.lockeventset.getD e.addr [])
      self.foundlockraces }

-- Without the file that `dumpRaces` writes at the end.
def outputRaces (self : RaceReporter) : RaceReporter :=
  let self := self.eventset.toList.foldl (fun self mitr => mitr.2.foldl checkRace self) self
  self.lockeventset.toList.foldl (fun self mliter => mliter.2.foldl checkLockRace self) self

def addEvent (self : RaceReporter) (e : DataRaceEvent) : RaceReporter :=
  { self with toHybridRaceTracker := self.toHybridRaceTracker.addEvent e }

def addLockEvent (self : RaceReporter) (e : LockRaceEvent) : RaceReporter :=
  { self with toModifiedRaceTracker := self.toModifiedRaceTracker.addLockEvent e }

-- The calls that change what is retained or reported.
inductive Op
  | addEvent (e : DataRaceEvent)
  | addLockEvent (e : LockRaceEvent)
  | outputRaces

def step (self : RaceReporter) : Op → RaceReporter
  | .addEvent e => self.addEvent e
  | .addLockEvent e => self.addLockEvent e
  | .outputRaces => self.outputRaces

def run (self : RaceReporter) (ops : List Op) : RaceReporter := ops.foldl step self

-- `e` is in one of the vectors of `eventset`.
def Retained (self : RaceReporter) (e : DataRaceEvent) : Prop :=
  ∃ addr, e ∈ self.eventset.getD addr []

def LockRetained (self : RaceReporter) (e : LockRaceEvent) : Prop :=
  ∃ mutex, e ∈ self.lockeventset.getD mutex []

end RaceReporter

-- A race of two events, in the words of the hybrid algorithm: neither is ordered before the other
-- and no mutex is held at both.
structure DataRaceEvent.Race (e1 e2 : DataRaceEvent) : Prop where
  thread : e1.thread ≠ e2.thread
  addr : e1.addr = e2.addr
  write : e1.isread = false ∨ e2.isread = false
  notBefore : VectorClockTracker.isHappensBefore e1.vc e2.vc = false
  notAfter : VectorClockTracker.isHappensBefore e2.vc e1.vc = false
  ls : Disjoint e1.ls e2.ls

theorem DataRaceEvent.Race.symm {e1 e2 : DataRaceEvent} (h : e1.Race e2) : e2.Race e1 :=
  ⟨h.thread.symm, h.addr.symm, h.write.symm, h.notAfter, h.notBefore, h.ls.symm⟩

theorem HybridRaceTracker.isRacing_iff (e1 e2 : DataRaceEvent) :
    isRacing e1 e2 = true ↔ e1.Race e2 := by
  have hls : LockSetTracker.isIntersectionEmpty e1.ls e2.ls = true ↔ Disjoint e1.ls e2.ls := by
    rw [LockSetTracker.isIntersectionEmpty, decide_eq_true_iff, Finset.disjoint_left]
  unfold isRacing
  constructor
  · intro h
    split_ifs at h with hthread haddr hread hbefore hafter
    refine ⟨hthread, not_not.mp haddr, ?_, by simpa using hbefore, by simpa using hafter, hls.mp h⟩
    simpa [imp_iff_not_or] using hread
  · intro h
    rw [if_neg h.thread, if_neg (not_not.mpr h.addr), if_neg, if_neg, if_neg]
    · exact hls.mpr h.ls
    · simp [h.notAfter]
    · simp [h.notBefore]
    · rcases h.write with hwrite | hwrite
      · simp [hwrite]
      · simp [hwrite]

namespace RaceReporter

open Recorded

section Loops

variable {ε : Type} (events : Std.TreeMap Addr (List ε)) (addr id : ε → Addr)

-- The events are in the vector of their own address.
def FiledBy : Prop := ∀ a, ∀ e ∈ events.getD a [], addr e = a

-- The pairs of identifiers of two events of one vector that race.
def pairsOf (racing : ε → ε → Bool) : Set (Sym2 Addr) :=
  {p | ∃ a, ∃ e1 ∈ events.getD a [], ∃ e2 ∈ events.getD a [],
    racing e1 e2 = true ∧ p = s(id e1, id e2)}

-- Both loops of `outputRaces`, on the list of the records found.
def checkEvents (racing : ε → ε → Bool) (record : ε → ε → RaceRecord) (found : List RaceRecord) :
    List RaceRecord :=
  events.toList.foldl
    (fun found mitr => mitr.2.foldl
      (fun found e => checkAll (racing e) (record e) (events.getD (addr e) []) found) found) found

theorem holds_checkAll (racing : ε → Bool) (record : ε → RaceRecord) (addrevents : List ε)
    {found : List RaceRecord} {keys : Set (Sym2 Addr)} (h : Holds RaceRecord.pair found keys) :
    Holds RaceRecord.pair (checkAll racing record addrevents found)
      (keys ∪ {p | ∃ e ∈ addrevents, racing e = true ∧ p = (record e).pair}) := by
  refine h.foldl _ (fun e => {p | racing e = true ∧ p = (record e).pair}) addrevents ?_
  intro e _ found keys h
  by_cases hracing : racing e = true
  · have hpush := h.push RaceRecord.same RaceRecord.same_iff (record e)
    have hkeys : keys ∪ {p | racing e = true ∧ p = (record e).pair} =
        insert (record e).pair keys := by
      ext p
      simp [hracing, or_comm]
    rw [hkeys, if_pos hracing]
    exact hpush
  · simpa [hracing] using h

variable {events addr}

-- The pairs as the loops come upon them.
theorem pairsOf_eq (hfiled : FiledBy events addr) (racing : ε → ε → Bool)
    (record : ε → ε → RaceRecord) (hrecord : ∀ e1 e2, (record e1 e2).pair = s(id e1, id e2)) :
    pairsOf events id racing =
      {p | ∃ mitr ∈ events.toList, ∃ e ∈ mitr.2, ∃ itr ∈ events.getD (addr e) [],
        racing e itr = true ∧ p = (record e itr).pair} := by
  ext p
  simp only [pairsOf, Set.mem_ofPred_eq, Prod.exists]
  constructor
  · rintro ⟨a, e1, he1, e2, he2, hracing, rfl⟩
    have hkey : a ∈ events := OrderedMap.mem_of_getD_ne events a [] (List.ne_nil_of_mem he1)
    refine ⟨a, _, OrderedMap.getD_mem_toList events a [] hkey, e1, he1, e2, ?_, hracing,
      (hrecord e1 e2).symm⟩
    rw [hfiled a e1 he1]
    exact he2
  · rintro ⟨a, vector, hmem, e1, he1, e2, he2, hracing, rfl⟩
    rw [← OrderedMap.mem_toList_getD events a vector [] hmem] at he1
    rw [hfiled a e1 he1] at he2
    exact ⟨a, e1, he1, e2, he2, hracing, hrecord e1 e2⟩

theorem holds_checkEvents (hfiled : FiledBy events addr) (racing : ε → ε → Bool)
    (record : ε → ε → RaceRecord) (hrecord : ∀ e1 e2, (record e1 e2).pair = s(id e1, id e2))
    {found : List RaceRecord} {keys : Set (Sym2 Addr)} (h : Holds RaceRecord.pair found keys) :
    Holds RaceRecord.pair (checkEvents events addr racing record found)
      (keys ∪ pairsOf events id racing) := by
  -- what one event adds, then one vector, then the map
  have hevent (e : ε) := fun found keys (h : Holds RaceRecord.pair found keys) =>
    holds_checkAll (racing e) (record e) (events.getD (addr e) []) h
  have hvector (mitr : Addr × List ε) := fun found keys (h : Holds RaceRecord.pair found keys) =>
    h.foldl _ _ mitr.2 fun e _ => hevent e
  have hmap := h.foldl _ _ events.toList fun mitr _ => hvector mitr
  rw [pairsOf_eq id hfiled racing record hrecord]
  exact hmap

end Loops

variable (self : RaceReporter)

theorem foldl_checkRace (vector : List DataRaceEvent) :
    vector.foldl checkRace self =
      { self with
        foundraces := vector.foldl
          (fun found e => checkAll (fun itr => HybridRaceTracker.isRacing e itr)
            (fun itr => RaceRecord.new e.iid itr.iid) (self.eventset.getD e.addr []) found)
          self.foundraces } := by
  induction vector generalizing self with
  | nil => rfl
  | cons e vector ih => rw [List.foldl_cons, ih, List.foldl_cons, checkRace]

theorem foldl_checkLockRace (vector : List LockRaceEvent) :
    vector.foldl checkLockRace self =
      { self with
        foundlockraces := vector.foldl
          (fun found e => checkAll
            (fun itr => HybridRaceTracker.isRacing itr.raceEvent e.raceEvent)
            (fun itr => RaceRecord.new itr.lock e.lock) (self.lockeventset.getD e.addr []) found)
          self.foundlockraces } := by
  induction vector generalizing self with
  | nil => rfl
  | cons e vector ih => rw [List.foldl_cons, ih, List.foldl_cons, checkLockRace]

theorem outputRaces_eq :
    self.outputRaces =
      { self with
        foundraces := checkEvents self.eventset (·.addr) HybridRaceTracker.isRacing
          (fun e itr => RaceRecord.new e.iid itr.iid) self.foundraces
        foundlockraces := checkEvents self.lockeventset (·.addr)
          (fun e itr => HybridRaceTracker.isRacing itr.raceEvent e.raceEvent)
          (fun e itr => RaceRecord.new itr.lock e.lock) self.foundlockraces } := by
  have hdata (entries : List (Addr × List DataRaceEvent)) (self : RaceReporter) :
      entries.foldl (fun self mitr => mitr.2.foldl checkRace self) self =
        { self with
          foundraces := entries.foldl
            (fun found mitr => mitr.2.foldl
              (fun found e => checkAll (HybridRaceTracker.isRacing e)
                (fun itr => RaceRecord.new e.iid itr.iid) (self.eventset.getD e.addr []) found)
              found) self.foundraces } := by
    induction entries generalizing self with
    | nil => rfl
    | cons mitr entries ih => rw [List.foldl_cons, ih, List.foldl_cons, foldl_checkRace]
  have hlock (entries : List (Addr × List LockRaceEvent)) (self : RaceReporter) :
      entries.foldl (fun self mliter => mliter.2.foldl checkLockRace self) self =
        { self with
          foundlockraces := entries.foldl
            (fun found mliter => mliter.2.foldl
              (fun found e => checkAll
                (fun itr => HybridRaceTracker.isRacing itr.raceEvent e.raceEvent)
                (fun itr => RaceRecord.new itr.lock e.lock) (self.lockeventset.getD e.addr [])
                found) found) self.foundlockraces } := by
    induction entries generalizing self with
    | nil => rfl
    | cons mliter entries ih => rw [List.foldl_cons, ih, List.foldl_cons, foldl_checkLockRace]
  rw [outputRaces, hdata, hlock]
  rfl

theorem pairsOf_mono {ε : Type} {events events' : Std.TreeMap Addr (List ε)} (id : ε → Addr)
    (racing : ε → ε → Bool) (hgrows : ∀ a e, e ∈ events.getD a [] → e ∈ events'.getD a []) :
    pairsOf events id racing ⊆ pairsOf events' id racing := by
  rintro p ⟨a, e1, he1, e2, he2, hracing, hp⟩
  exact ⟨a, e1, hgrows a e1 he1, e2, hgrows a e2 he2, hracing, hp⟩

abbrev racingPairs : Set (Sym2 Addr) :=
  pairsOf self.eventset (·.iid) HybridRaceTracker.isRacing

abbrev lockRacingPairs : Set (Sym2 Addr) :=
  pairsOf self.lockeventset (·.lock)
    fun e itr => HybridRaceTracker.isRacing itr.raceEvent e.raceEvent

-- The events are filed by their addresses. What has been reported is a race of retained events,
-- and no two reports are of one pair.
structure Inv (tracker : RaceReporter) : Prop where
  filed : FiledBy tracker.eventset (·.addr)
  lockFiled : FiledBy tracker.lockeventset (·.addr)
  races : ∃ keys ⊆ tracker.racingPairs, Holds RaceRecord.pair tracker.foundraces keys
  lockRaces : ∃ keys ⊆ tracker.lockRacingPairs, Holds RaceRecord.pair tracker.foundlockraces keys

variable {self}

theorem Inv.addEvent (h : self.Inv) (e : DataRaceEvent) : (self.addEvent e).Inv := by
  have hgetD (a : Addr) :
      (self.addEvent e).eventset.getD a [] =
        if e.addr = a then
          if (self.eventset.getD e.addr []).length < self.rd_profile_size then
            self.eventset.getD e.addr [] ++ [e]
          else self.eventset.getD e.addr []
        else self.eventset.getD a [] := by
    rw [RaceReporter.addEvent, HybridRaceTracker.addEvent, OrderedMap.getD_insert_eq]
  obtain ⟨keys, hkeys, hholds⟩ := h.races
  refine ⟨fun a x hx => ?_, h.lockFiled, ⟨keys, hkeys.trans ?_, hholds⟩, h.lockRaces⟩
  · rw [hgetD] at hx
    split_ifs at hx with haddr hsize
    · rcases List.mem_append.mp hx with hold | hnew
      · exact (h.filed e.addr x hold).trans haddr
      · rw [List.mem_singleton.mp hnew]
        exact haddr
    · exact (h.filed e.addr x hx).trans haddr
    · exact h.filed a x hx
  · refine pairsOf_mono _ _ fun a x hx => ?_
    rw [hgetD]
    split_ifs with haddr hsize
    · rw [haddr]
      exact List.mem_append_left [e] hx
    · rw [haddr]
      exact hx
    · exact hx

theorem Inv.addLockEvent (h : self.Inv) (e : LockRaceEvent) : (self.addLockEvent e).Inv := by
  by_cases hcount : self.lockprofiling < self.lock_profile_map.getD e.addr 0
  · have hsame : self.addLockEvent e = self := by
      rw [RaceReporter.addLockEvent, ModifiedRaceTracker.addLockEvent]
      exact congrArg (fun tracker => { self with toModifiedRaceTracker := tracker }) (if_pos hcount)
    rw [hsame]
    exact h
  · have heq : (self.addLockEvent e).toModifiedRaceTracker =
        { self.toModifiedRaceTracker with
          lock_profile_map :=
            self.lock_profile_map.insert e.addr (self.lock_profile_map.getD e.addr 0 + 1)
          lockeventset :=
            self.lockeventset.insert e.addr (self.lockeventset.getD e.addr [] ++ [e]) } :=
      if_neg hcount
    have hgetD (a : Addr) :
        (self.addLockEvent e).lockeventset.getD a [] =
          if e.addr = a then self.lockeventset.getD e.addr [] ++ [e]
          else self.lockeventset.getD a [] := by
      rw [heq, OrderedMap.getD_insert_eq]
    have hevents : (self.addLockEvent e).eventset = self.eventset := by
      rw [heq]
    obtain ⟨keys, hkeys, hholds⟩ := h.lockRaces
    refine ⟨?_, fun a x hx => ?_, ?_, ⟨keys, hkeys.trans ?_, hholds⟩⟩
    · rw [hevents]
      exact h.filed
    · rw [hgetD] at hx
      split_ifs at hx with haddr
      · rcases List.mem_append.mp hx with hold | hnew
        · exact (h.lockFiled e.addr x hold).trans haddr
        · rw [List.mem_singleton.mp hnew]
          exact haddr
      · exact h.lockFiled a x hx
    · rw [racingPairs, hevents]
      exact h.races
    · refine pairsOf_mono _ _ fun a x hx => ?_
      rw [hgetD]
      split_ifs with haddr
      · rw [haddr]
        exact List.mem_append_left [e] hx
      · exact hx

-- A call brings the reports up to the races of what is retained now.
theorem Inv.holds_outputRaces (h : self.Inv) :
    Holds RaceRecord.pair self.outputRaces.foundraces self.racingPairs ∧
      Holds RaceRecord.pair self.outputRaces.foundlockraces self.lockRacingPairs := by
  obtain ⟨keys, hkeys, hholds⟩ := h.races
  obtain ⟨lockKeys, hlockKeys, hlockHolds⟩ := h.lockRaces
  have hdata := holds_checkEvents (·.iid) h.filed HybridRaceTracker.isRacing
    (fun e itr => RaceRecord.new e.iid itr.iid)
    (fun e1 e2 => RaceRecord.pair_new e1.iid e2.iid) hholds
  have hlock := holds_checkEvents (·.lock) h.lockFiled
    (fun e itr => HybridRaceTracker.isRacing itr.raceEvent e.raceEvent)
    (fun e itr => RaceRecord.new itr.lock e.lock)
    (fun e1 e2 => (RaceRecord.pair_new e2.lock e1.lock).trans Sym2.eq_swap) hlockHolds
  rw [Set.union_eq_self_of_subset_left hkeys] at hdata
  rw [Set.union_eq_self_of_subset_left hlockKeys] at hlock
  rw [outputRaces_eq]
  exact ⟨hdata, hlock⟩

theorem Inv.outputRaces (h : self.Inv) : self.outputRaces.Inv := by
  obtain ⟨hdata, hlock⟩ := h.holds_outputRaces
  have hevents : self.outputRaces.toModifiedRaceTracker = self.toModifiedRaceTracker := by
    rw [outputRaces_eq]
  refine ⟨?_, ?_, ⟨_, ?_, hdata⟩, ⟨_, ?_, hlock⟩⟩
  · rw [hevents]
    exact h.filed
  · rw [hevents]
    exact h.lockFiled
  · rw [racingPairs, racingPairs, hevents]
  · rw [lockRacingPairs, lockRacingPairs, hevents]

theorem Inv.step (h : self.Inv) (op : Op) : (self.step op).Inv := by
  cases op with
  | addEvent e => exact h.addEvent e
  | addLockEvent e => exact h.addLockEvent e
  | outputRaces => exact h.outputRaces

theorem Inv.run (h : self.Inv) (ops : List Op) : (self.run ops).Inv := by
  induction ops generalizing self with
  | nil => exact h
  | cons op ops ih => exact ih (h.step op)

theorem inv_new (wr rd : Nat) : Inv { ModifiedRaceTracker.new wr rd with } := by
  refine ⟨fun a e he => ?_, fun a e he => ?_, ⟨∅, Set.empty_subset _, Holds.nil⟩,
    ⟨∅, Set.empty_subset _, Holds.nil⟩⟩
  · simp [ModifiedRaceTracker.new, HybridRaceTracker.new] at he
  · simp [ModifiedRaceTracker.new, HybridRaceTracker.new] at he

theorem inv_of_fresh (hfiled : FiledBy self.eventset (·.addr))
    (hlockFiled : FiledBy self.lockeventset (·.addr)) (hraces : self.foundraces = [])
    (hlockRaces : self.foundlockraces = []) : self.Inv := by
  refine ⟨hfiled, hlockFiled, ⟨∅, Set.empty_subset _, ?_⟩, ⟨∅, Set.empty_subset _, ?_⟩⟩
  · rw [hraces]
    exact Holds.nil
  · rw [hlockRaces]
    exact Holds.nil

-- Where the two events stand in the vectors and which of them comes first do not matter.
theorem mem_pairsOf {ε : Type} {events : Std.TreeMap Addr (List ε)} {addr : ε → Addr}
    (id : ε → Addr) (hfiled : FiledBy events addr) (event : ε → DataRaceEvent)
    (haddr : ∀ e, (event e).addr = addr e) (racing : ε → ε → Bool)
    (hracing : ∀ e1 e2, racing e1 e2 = true ↔ (event e1).Race (event e2)) (i j : Addr) :
    s(i, j) ∈ pairsOf events id racing ↔
      ∃ e1 e2, (∃ a, e1 ∈ events.getD a []) ∧ (∃ a, e2 ∈ events.getD a []) ∧
        id e1 = i ∧ id e2 = j ∧ (event e1).Race (event e2) := by
  constructor
  · rintro ⟨a, e1, he1, e2, he2, hrace, hpair⟩
    rw [hracing] at hrace
    rcases Sym2.eq_iff.mp hpair with ⟨hi, hj⟩ | ⟨hi, hj⟩
    · exact ⟨e1, e2, ⟨a, he1⟩, ⟨a, he2⟩, hi.symm, hj.symm, hrace⟩
    · exact ⟨e2, e1, ⟨a, he2⟩, ⟨a, he1⟩, hi.symm, hj.symm, hrace.symm⟩
  · rintro ⟨e1, e2, ⟨a, he1⟩, ⟨b, he2⟩, hi, hj, hrace⟩
    have hab : a = b := by
      rw [← hfiled a e1 he1, ← hfiled b e2 he2, ← haddr, ← haddr]
      exact hrace.addr
    subst hab
    refine ⟨a, e1, he1, e2, he2, (hracing e1 e2).mpr hrace, ?_⟩
    rw [hi, hj]

theorem pairsOf_congr {ε : Type} {events events' : Std.TreeMap Addr (List ε)} (id : ε → Addr)
    (racing : ε → ε → Bool) (hperm : ∀ a, (events'.getD a []).Perm (events.getD a [])) :
    pairsOf events' id racing = pairsOf events id racing := by
  refine Set.Subset.antisymm (pairsOf_mono id racing fun a e he => ?_)
    (pairsOf_mono id racing fun a e he => ?_)
  · exact (hperm a).mem_iff.mp he
  · exact (hperm a).mem_iff.mpr he

-- A tracker may hold any events before `ops`, each in the vector of its address.
theorem outputRaces_found (self : RaceReporter) (ops : List Op)
    (hfiled : FiledBy self.eventset (·.addr)) (hlockFiled : FiledBy self.lockeventset (·.addr))
    (hraces : self.foundraces = []) (hlockRaces : self.foundlockraces = []) :
    let last := self.run ops
    let found := last.outputRaces.foundraces.map RaceRecord.pair
    let foundlock := last.outputRaces.foundlockraces.map RaceRecord.pair
    (∀ i j, s(i, j) ∈ found ↔ ∃ e1 e2, last.Retained e1 ∧ last.Retained e2 ∧
        e1.iid = i ∧ e2.iid = j ∧ e1.Race e2) ∧ found.Nodup ∧
      (∀ i j, s(i, j) ∈ foundlock ↔ ∃ e1 e2, last.LockRetained e1 ∧ last.LockRetained e2 ∧
        e1.lock = i ∧ e2.lock = j ∧ e1.raceEvent.Race e2.raceEvent) ∧ foundlock.Nodup ∧
      ∀ other : RaceReporter, other.foundraces = [] → other.foundlockraces = [] →
        (∀ a, (other.eventset.getD a []).Perm (last.eventset.getD a [])) →
        (∀ a, (other.lockeventset.getD a []).Perm (last.lockeventset.getD a [])) →
        (other.outputRaces.foundraces.map RaceRecord.pair).Perm found ∧
          (other.outputRaces.foundlockraces.map RaceRecord.pair).Perm foundlock := by
  intro last found foundlock
  have hinv : last.Inv := (inv_of_fresh hfiled hlockFiled hraces hlockRaces).run ops
  obtain ⟨hdata, hlock⟩ := hinv.holds_outputRaces
  refine ⟨fun i j => ?_, hdata.nodup, fun i j => ?_, hlock.nodup, ?_⟩
  · rw [hdata.mem]
    exact mem_pairsOf (·.iid) hinv.filed id (fun e => rfl) _ HybridRaceTracker.isRacing_iff i j
  · rw [hlock.mem]
    refine mem_pairsOf (·.lock) hinv.lockFiled LockRaceEvent.raceEvent (fun e => rfl) _
      (fun e1 e2 => ?_) i j
    rw [HybridRaceTracker.isRacing_iff]
    exact ⟨fun h => h.symm, fun h => h.symm⟩
  · intro other hothers hotherLocks hperm hlockPerm
    have hother : other.Inv := by
      refine inv_of_fresh (fun a e he => ?_) (fun a e he => ?_) hothers hotherLocks
      · exact hinv.filed a e ((hperm a).mem_iff.mp he)
      · exact hinv.lockFiled a e ((hlockPerm a).mem_iff.mp he)
    obtain ⟨hdata', hlock'⟩ := hother.holds_outputRaces
    rw [racingPairs, pairsOf_congr _ _ hperm] at hdata'
    rw [lockRacingPairs, pairsOf_congr _ _ hlockPerm] at hlock'
    exact ⟨hdata'.perm hdata, hlock'.perm hlock⟩

-- A write and a read of one address by two threads, and two requests for one mutex, reported twice.
theorem outputRaces_found_twice :
    let clock0 : VectorClock := (∅ : VectorClock).insert 0 1
    let clock1 : VectorClock := (∅ : VectorClock).insert 1 1
    let ops : List Op := [.addEvent ⟨0x20, 0, 0x90, false, clock0, ∅⟩,
      .addEvent ⟨0x10, 1, 0x90, true, clock1, ∅⟩, .addLockEvent ⟨0x30, 0, 0x80, false, clock0, ∅⟩,
      .addLockEvent ⟨0x40, 1, 0x80, false, clock1, ∅⟩, .outputRaces]
    let last := run { ModifiedRaceTracker.new 8 8 with } ops
    s(0x20, 0x10) ∈ last.outputRaces.foundraces.map RaceRecord.pair ∧
      (last.outputRaces.foundraces.map RaceRecord.pair).Nodup ∧
      s(0x30, 0x40) ∈ last.outputRaces.foundlockraces.map RaceRecord.pair ∧
      (last.outputRaces.foundlockraces.map RaceRecord.pair).Nodup := by
  intro clock0 clock1 ops last
  obtain ⟨hdata, hnodup, hlock, hlockNodup, -⟩ :=
    outputRaces_found { ModifiedRaceTracker.new 8 8 with } ops (inv_new 8 8).filed
      (inv_new 8 8).lockFiled rfl rfl
  refine ⟨(hdata _ _).mpr ?_, hnodup, (hlock _ _).mpr ?_, hlockNodup⟩
  · refine ⟨⟨0x20, 0, 0x90, false, clock0, ∅⟩, ⟨0x10, 1, 0x90, true, clock1, ∅⟩,
      ⟨0x90, List.mem_cons_self⟩, ⟨0x90, List.mem_cons_of_mem _ List.mem_cons_self⟩, rfl, rfl, ?_⟩
    exact ⟨by decide, rfl, Or.inl rfl, rfl, rfl, disjoint_bot_left⟩
  · refine ⟨⟨0x30, 0, 0x80, false, clock0, ∅⟩, ⟨0x40, 1, 0x80, false, clock1, ∅⟩,
      ⟨0x80, List.mem_cons_self⟩, ⟨0x80, List.mem_cons_of_mem _ List.mem_cons_self⟩, rfl, rfl, ?_⟩
    exact ⟨by decide, rfl, Or.inl rfl, rfl, rfl, disjoint_bot_left⟩

end RaceReporter

end Thrille
