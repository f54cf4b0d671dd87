import Thrille.FairScheduler.Theorems
import Thrille.Replay.Follows

namespace Thrille

open OrderedMap

theorem Logger.mem_enabledThreads (enabled : ThrMap Bool) (t : ThrID) :
    t ∈ enabledThreads enabled ↔ enabled.getD t false = true := by
  unfold enabledThreads
  rw [List.mem_map]
  constructor
  · rintro ⟨⟨u, value⟩, hentry, rfl⟩
    obtain ⟨hmem, hvalue⟩ := List.mem_filter.mp hentry
    rw [mem_toList_getD enabled u value false hmem]
    exact hvalue
  · intro h
    have hmem : t ∈ enabled := mem_of_getD_ne enabled t false (by simp [h])
    refine ⟨(t, enabled.getD t false), List.mem_filter.mpr ⟨?_, h⟩, rfl⟩
    exact getD_mem_toList enabled t false hmem

theorem Logger.sorted_enabledThreads (enabled : ThrMap Bool) :
    (enabledThreads enabled).Pairwise (· < ·) := by
  unfold enabledThreads
  rw [List.pairwise_map]
  refine List.Pairwise.filter _ (Std.TreeMap.ordered_keys_toList.imp fun {x y} hlt => ?_)
  exact Nat.compare_eq_lt.mp hlt

-- What is listed depends only on who is enabled.
theorem Logger.enabledThreads_congr {map other : ThrMap Bool}
    (h : ∀ t, map.getD t false = other.getD t false) :
    enabledThreads map = enabledThreads other := by
  have hsorted := sorted_enabledThreads map
  have hsorted' := sorted_enabledThreads other
  refine List.Perm.eq_of_pairwise
    (fun a b _ _ hab hba => absurd hab (Nat.lt_asymm hba)) hsorted hsorted' ?_
  rw [List.perm_ext_iff_of_nodup (hsorted.imp Nat.ne_of_lt) (hsorted'.imp Nat.ne_of_lt)]
  intro t
  rw [mem_enabledThreads, mem_enabledThreads, h]

theorem Logger.head_enabledThreads (enabled : ThrMap Bool) :
    (enabledThreads enabled).head? =
      (enabled.toList.find? fun entry => entry.2).map Prod.fst := by
  rw [enabledThreads, List.head?_map, List.head?_filter]

namespace ExecutionTracker

variable {σ : Type} (v : Virtual σ) (hlogged : ∀ info, v.logged info = info.enabled)

include hlogged

-- Where the log shows the enabled threads the base class can follow it.
theorem replays : Replays v virtual fun _ _ => True where
  schedules x y info fromLog target fenmap x' enabled _ _ _ := by
    refine ⟨info.fenmap, (), rfl, trivial, ?_, rfl⟩
    rw [hlogged]
    rfl
  signals _ _ _ _ _ _ _ _ := trivial

theorem branches : Branches v virtual fun _ _ => True := by
  intro x y info fromLog target fenmap x' alt _ _ _ halt
  rw [hlogged] at halt
  refine ⟨info.fenmap, (), rfl, ?_, rfl, (Logger.mem_enabledThreads _ _).mp halt⟩
  rw [hlogged]
  rfl

end ExecutionTracker

namespace FairScheduler

-- The fair map goes into an empty one.
theorem getD_copied (map : ThrMap Bool) (t : ThrID) :
    (map.toList.foldl (fun m entry => m.insert entry.1 entry.2) (∅ : ThrMap Bool)).getD t false =
      map.getD t false := by
  have hcopy : map.toList.foldl (fun m entry => m.insert entry.1 entry.2) (∅ : ThrMap Bool) =
      (map.toList.map Prod.fst).foldl (fun m k => m.insert k (map.getD k false)) ∅ := by
    rw [List.foldl_map]
    refine List.foldl_ext _ _ _ fun m entry hentry => ?_
    rw [mem_toList_getD map entry.1 entry.2 false hentry]
  rw [hcopy, getD_foldl_insert]
  split
  · rfl
  · rename_i hnot
    have hmem : t ∉ map := fun hmem =>
      hnot (List.mem_map.mpr ⟨_, getD_mem_toList map t false hmem, rfl⟩)
    rw [Std.TreeMap.getD_eq_fallback hmem]
    simp

theorem nonpreemptiveFairSchedule_fenmap (fs : FairScheduler) (s : SchedPointInfo) :
    (fs.nonpreemptiveFairSchedule s).2.1.fenmap =
      (fs.fairMapOf s).toList.foldl (fun m entry => m.insert entry.1 entry.2) s.fenmap := by
  unfold nonpreemptiveFairSchedule fairMapOf
  dsimp only
  split
  · rfl
  · rfl

end FairScheduler

namespace ChessTracker

open FairScheduler

variable {x x' : FairScheduler} {info : SchedPointInfo} {fromLog : Bool} {target alt : ThrID}
  {fenmap : ThrMap Bool}

-- The fair map is the same whether the log is followed or not.
theorem follows_of_decides (h : virtual.Decides x info fromLog target fenmap x') :
    virtual.followingChoiceFromLog x info = (fenmap, x') := by
  cases fromLog with
  | true => exact h
  | false =>
      have hpick : ((x.nonpreemptiveFairSchedule info).1,
          (x.nonpreemptiveFairSchedule info).2.1.fenmap,
          (x.nonpreemptiveFairSchedule info).2.2) = (some target, fenmap, x') := h
      exact (Prod.mk.inj hpick).2

theorem replays : Replays virtual virtual Eq where
  schedules x y info fromLog target fenmap x' enabled hrel hdecides hadmits := by
    subst hrel
    exact ⟨fenmap, x', follows_of_decides hdecides, rfl, rfl, hadmits⟩
  signals x y info fromLog target x' hrel hselects := by
    subst hrel
    cases fromLog with
    | true => exact hselects
    | false =>
        have hselect : (ExecutionTracker.selectThreadWaitingOnCond info, x) = (some target, x') :=
          hselects
        exact (Prod.mk.inj hselect).2.symm

theorem enabled_of_fenmap (hempty : info.fenmap = ∅)
    (hfollow : virtual.followingChoiceFromLog x info = (fenmap, x'))
    (hfair : fenmap.getD alt false = true) : info.enabled.getD alt false = true := by
  have hmap : (x.nonpreemptiveFairSchedule info).2.1.fenmap = fenmap := (Prod.mk.inj hfollow).1
  rw [← hmap, nonpreemptiveFairSchedule_fenmap, hempty, getD_copied] at hfair
  exact ((fairMapOf_getD x info alt).mp hfair).1

theorem branches : Branches virtual virtual Eq := by
  intro x y info fromLog target fenmap x' alt hempty hrel hdecides halt
  subst hrel
  have hfollow := follows_of_decides hdecides
  have hfair : fenmap.getD alt false = true := (Logger.mem_enabledThreads _ _).mp halt
  exact ⟨fenmap, x', hfollow, rfl, hfair, enabled_of_fenmap hempty hfollow hfair⟩

end ChessTracker

end Thrille
