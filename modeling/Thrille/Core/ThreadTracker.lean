import Std.Data.TreeMap
import Thrille.Lib.OrderedMap

namespace Thrille

-- A `pthread_t`, which the system uses again.
abbrev Handle := Nat

structure ThreadTracker where
  curr_id : Int := -1
  pthreadHandleMap : Std.TreeMap Int Handle := ∅

namespace ThreadTracker

variable (self : ThreadTracker)

-- The highest id with the handle; `none` is the exit of the process.
def translateHandleToTID (id : Handle) : Option Int :=
  let result := self.pthreadHandleMap.toList.foldl
    (fun result itr => if itr.2 = id then max itr.1 result else result) (-1)
  if result = -1 then none else some result

-- The section of `getNextTID`; what is returned behind it is the `curr_id` of that time.
def getNextTID : ThreadTracker := { self with curr_id := self.curr_id + 1 }

def setTID (id : Int) (handle : Handle) : ThreadTracker :=
  { self with pthreadHandleMap := self.pthreadHandleMap.insert id handle }

@[simp] theorem curr_id_setTID (id : Int) (handle : Handle) :
    (self.setTID id handle).curr_id = self.curr_id := rfl

@[simp] theorem map_setTID (id : Int) (handle : Handle) (tid : Int) :
    (self.setTID id handle).pthreadHandleMap[tid]? =
      if id = tid then some handle else self.pthreadHandleMap[tid]? :=
  OrderedMap.get_insert_eq _ _ _ _

theorem foldl_max (id : Handle) (top : Int) (pairs : List (Int × Handle)) (start : Int)
    (hstart : start ≤ top) (hpairs : ∀ pair ∈ pairs, pair.2 = id → pair.1 ≤ top)
    (hfound : start = top ∨ (top, id) ∈ pairs) :
    pairs.foldl (fun result itr => if itr.2 = id then max itr.1 result else result) start =
      top := by
  induction pairs generalizing start with
  | nil => exact hfound.resolve_right List.not_mem_nil
  | cons pair pairs ih =>
      rw [List.forall_mem_cons] at hpairs
      rw [List.foldl_cons]
      apply ih _ _ hpairs.2
      · rcases hfound with hfound | hfound
        · left
          split
          · rename_i hid
            have hle := hpairs.1 hid
            omega
          · exact hfound
        · rcases List.mem_cons.mp hfound with rfl | hfound
          · left
            simp
            omega
          · exact Or.inr hfound
      · split
        · rename_i hid
          have hle := hpairs.1 hid
          omega
        · exact hstart

-- What a handle is translated to.
theorem translateHandleToTID_eq (id : Handle) (tid : Int) (hpos : 0 ≤ tid)
    (hset : self.pthreadHandleMap[tid]? = some id)
    (hhighest : ∀ other, self.pthreadHandleMap[other]? = some id → other ≤ tid) :
    self.translateHandleToTID id = some tid := by
  have hmem : (tid, id) ∈ self.pthreadHandleMap.toList :=
    Std.TreeMap.mem_toList_iff_getElem?_eq_some.mpr hset
  have hfold := foldl_max id tid self.pthreadHandleMap.toList (-1) (by omega)
    (fun pair hpair hid => hhighest pair.1 (by
      rw [← hid]
      exact Std.TreeMap.mem_toList_iff_getElem?_eq_some.mp hpair)) (Or.inr hmem)
  rw [translateHandleToTID, hfold]
  exact if_neg (by omega)

end ThreadTracker

end Thrille
