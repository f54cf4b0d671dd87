import Thrille.Serializer.Types

namespace Thrille

structure FairScheduler where
  fair_priority : ThrMap ThrSet := ∅
  fair_enabled : ThrMap ThrSet := ∅
  fair_disabled : ThrMap ThrSet := ∅
  fair_scheduled : ThrMap ThrSet := ∅
  prev_ES : ThrSet := ∅

namespace FairScheduler

def isFairEnabled (fs : FairScheduler) (target : ThrID) (enmap : ThrMap Bool) : Bool :=
  enmap.getD target false &&
    fs.fair_priority.toList.all fun entry =>
      !(enmap.getD entry.1 false && entry.2.contains target)

def getFairEnabledMap (fs : FairScheduler) (s : SchedPointInfo) : ThrMap Bool × FairScheduler :=
  (s.enabled.keys.foldl (fun m thread => m.insert thread (fs.isFairEnabled thread s.enabled)) ∅,
    { fs with
      prev_ES := s.enabled.keys.foldl
        (fun prev thread => if s.enabled.getD thread false then prev.insert thread else prev) ∅ })

-- Reading `enable_map[t]` for every thread of a set leaves a `false` entry where there was none.
def readAll (enable_map : ThrMap Bool) (threads : ThrSet) : ThrMap Bool :=
  threads.toList.foldl (fun m thread => m.insertIfNew thread false) enable_map

-- One round of the loop over all threads (lines 15 to 21 of the algorithm).
def visit (last_scheduled : ThrID) (state : ThrMap Bool × FairScheduler) (thread : ThrID) :
    ThrMap Bool × FairScheduler :=
  let (enable_map, fs) := state
  if enable_map.contains thread then
    let en := fs.fair_enabled.getD thread ∅
    let enable_map := readAll enable_map en
    let fs := { fs with
      fair_enabled := fs.fair_enabled.insert thread
        (en.filter fun tmp_thr => enable_map.getD tmp_thr false) }
    let (enable_map, fs) :=
      if thread = last_scheduled then
        let enable_map := readAll enable_map fs.prev_ES
        (enable_map, { fs with
          fair_disabled := fs.fair_disabled.insert thread
            (fs.prev_ES.toList.foldl
              (fun dis tmp_thr =>
                if !enable_map.getD tmp_thr false then dis.insert tmp_thr else dis)
              (fs.fair_disabled.getD thread ∅)) })
      else (enable_map, fs)
    (enable_map, { fs with
      fair_scheduled := fs.fair_scheduled.insert thread
        ((fs.fair_scheduled.getD thread ∅).insert last_scheduled) })
  else state

-- An id not below any that a read of the loop can add to `enable_map`.
def lastId (fs : FairScheduler) (enable_map : ThrMap Bool) : ThrID :=
  (enable_map.keys ++ fs.prev_ES.toList ++
    fs.fair_enabled.toList.flatMap fun entry => entry.2.toList).foldl max 0

-- The iterator runs through `enable_map` while the reads of the body add keys to it. A key added
-- ahead of the iterator is visited, one added behind it is not.
def visitAll (fs : FairScheduler) (s : SchedPointInfo) : ThrMap Bool × FairScheduler :=
  (List.range (fs.lastId s.enabled + 1)).foldl (visit s.thread) (s.enabled, fs)

-- What a yield of `last_scheduled` adds (line 24 onwards).
def justYield (last_scheduled : ThrID) (enable_map : ThrMap Bool) (fs : FairScheduler) :
    FairScheduler :=
  let en := fs.fair_enabled.getD last_scheduled ∅
  let dis := fs.fair_disabled.getD last_scheduled ∅
  let sch := fs.fair_scheduled.getD last_scheduled ∅
  let H := (en.toList ++ dis.toList).foldl
    (fun H tmp_thr => if !sch.contains tmp_thr then H.insert tmp_thr else H) (∅ : ThrSet)
  { fs with
    fair_priority := H.toList.foldl
      (fun m tmp_thr => m.insert tmp_thr ((m.getD tmp_thr ∅).insert last_scheduled))
      fs.fair_priority
    fair_enabled := fs.fair_enabled.insert last_scheduled
      (enable_map.keys.foldl
        (fun en tmp_thr => if enable_map.getD tmp_thr false then en.insert tmp_thr else en) ∅)
    fair_disabled := fs.fair_disabled.insert last_scheduled ∅
    fair_scheduled := fs.fair_scheduled.insert last_scheduled ∅ }

def updateDataStructures (fs : FairScheduler) (s : SchedPointInfo) : FairScheduler :=
  let fs := { fs with fair_priority := fs.fair_priority.erase s.thread }
  let (enable_map, fs) := visitAll fs s
  if s.isYield then justYield s.thread enable_map fs else fs

def nonpreemptiveFairSchedule (fs : FairScheduler) (s : SchedPointInfo) :
    Option ThrID × SchedPointInfo × FairScheduler :=
  let fs := fs.updateDataStructures s
  let (fenmap, fs) := fs.getFairEnabledMap s
  let s := { s with
    fenmap := fenmap.toList.foldl (fun m entry => m.insert entry.1 entry.2) s.fenmap }
  if fenmap.getD s.thread false then
    (some s.thread, s, fs)
  else
    ((fenmap.toList.find? fun entry => entry.2).map Prod.fst, s, fs)

end FairScheduler

end Thrille
