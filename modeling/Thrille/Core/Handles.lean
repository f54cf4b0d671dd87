import Thrille.Core.Handler

namespace Thrille

-- What the ids and handles depend on of the place of a thread.
inductive Phase
  | unborn
  | starting
  | registered
  | joined
  deriving DecidableEq, Repr

namespace Place

def phase : Place → Phase
  | unborn => .unborn
  | my_start_routine => .starting
  | joined => .joined
  | _ => .registered

-- The id that a creator has and that no thread has yet.
def child : Place → Option Int
  | beforeCreate child_id => some child_id
  | clearStart child_id => some child_id
  | pthread_create child_id => some child_id
  | _ => none

end Place

namespace Handler

-- No thread takes an id while another one is between the section of `getNextTID` and its return;
-- a thread is registered with a higher id than those before it with its handle, and not while
-- one of these is between its join and the `AfterJoin`.
def InOrder (s : Handler) (t : Thread) : Action → Prop
  | .getNextTID => ∀ u, u < s.made → s.places u ≠ .returnTID
  | .my_start_routine =>
      (∀ pair ∈ s.threadtracker.pthreadHandleMap.toList, pair.2 = s.handles t →
        pair.1 < s.tids t) ∧
      ∀ u, u < s.made → ∀ target, target < s.made → s.places u = .afterJoin target →
        s.handles target ≠ s.handles t
  | _ => True

instance (s : Handler) (t : Thread) : (action : Action) → Decidable (s.InOrder t action)
  | .getNextTID => inferInstanceAs (Decidable (∀ u, u < s.made → s.places u ≠ .returnTID))
  | .my_start_routine => inferInstanceAs (Decidable
      ((∀ pair ∈ s.threadtracker.pthreadHandleMap.toList, pair.2 = s.handles t →
        pair.1 < s.tids t) ∧
      ∀ u, u < s.made → ∀ target, target < s.made → s.places u = .afterJoin target →
        s.handles target ≠ s.handles t))
  | .thrille_create | .returnTID | .beforeCreate | .clearStart | .pthread_create _ | .awaitStart
  | .thrille_join _ | .pthread_join | .afterJoin | .finish => isTrue trivial

structure Inv (s : Handler) : Prop where
  fresh : ∀ t, (s.places t).phase = .unborn ↔ s.made ≤ t
  given : s.given.Nodup
  range : ∀ tid ∈ s.given, 0 ≤ tid ∧ tid ≤ s.threadtracker.curr_id
  started : 0 ≤ s.threadtracker.curr_id
  returning : ∀ t, s.places t = .returnTID → (∀ tid ∈ s.given, tid < s.threadtracker.curr_id) ∧
    ∀ u, s.places u = .returnTID → u = t
  -- every id that was given has one holder at most, a creator or a thread
  child_given : ∀ t tid, (s.places t).child = some tid → tid ∈ s.given
  tid_given : ∀ t, t < s.made → s.tids t ∈ s.given
  child_once : ∀ t u tid, (s.places t).child = some tid → (s.places u).child = some tid → t = u
  child_tid : ∀ t tid, (s.places t).child = some tid → ∀ u, u < s.made → s.tids u ≠ tid
  tid_once : ∀ t u, t < s.made → u < s.made → s.tids t = s.tids u → t = u
  -- the map has the threads that are registered
  registered : ∀ t, t < s.made → (s.places t).phase ≠ .starting →
    s.threadtracker.pthreadHandleMap[s.tids t]? = some (s.handles t)
  keys : ∀ tid handle, s.threadtracker.pthreadHandleMap[tid]? = some handle →
    ∃ t, t < s.made ∧ s.tids t = tid
  -- a handle has one owner that is not joined, which has its highest id
  owner : ∀ t u, t < s.made → u < s.made → (s.places t).phase ≠ .joined →
    (s.places u).phase ≠ .joined → s.handles t = s.handles u → t = u
  highest : ∀ t, (s.places t).phase = .registered →
    ∀ tid, s.threadtracker.pthreadHandleMap[tid]? = some (s.handles t) → tid ≤ s.tids t
  joining : ∀ t target, s.places t = .afterJoin target → target < s.made ∧
    (s.places target).phase = .joined ∧
    ∀ tid, s.threadtracker.pthreadHandleMap[tid]? = some (s.handles target) → tid ≤ s.tids target

variable {s s' : Handler} {t : Thread} {action : Action}

theorem Inv.initial (handle : Handle) : Inv (initial handle) := by
  have hplaces (t : Thread) : (Handler.initial handle).places t =
      if t = 0 then .program else .unborn := rfl
  have hmap (tid : Int) : (Handler.initial handle).threadtracker.pthreadHandleMap[tid]? =
      if (0 : Int) = tid then some handle else none := by
    have hset := ThreadTracker.map_setTID ({} : ThreadTracker).getNextTID 0 handle tid
    exact hset.trans (by simp [ThreadTracker.getNextTID])
  have hmade (t : Thread) (ht : t < (Handler.initial handle).made) : t = 0 := Nat.lt_one_iff.mp ht
  have honly (t : Thread) (place : Place) (hprogram : place ≠ .program) (hunborn : place ≠ .unborn) :
      (Handler.initial handle).places t ≠ place := by
    rw [hplaces]
    split
    · exact hprogram.symm
    · exact hunborn.symm
  have hchild (t : Thread) (tid : Int) :
      ((Handler.initial handle).places t).child ≠ some tid := by
    rw [hplaces]
    split
    · exact nofun
    · exact nofun
  refine ⟨fun t => ?_, List.pairwise_singleton _ _, ?_, Int.le_refl 0, ?_, ?_, ?_, ?_, ?_, ?_, ?_, ?_, ?_,
    ?_, ?_⟩
  · rw [hplaces]
    by_cases ht : t = 0
    · simp [ht, Place.phase, Handler.initial]
    · simp [ht, Place.phase, Handler.initial, Nat.one_le_iff_ne_zero]
  · intro tid htid
    rw [List.mem_singleton.mp htid]
    exact ⟨Int.le_refl 0, Int.le_refl 0⟩
  · exact fun t ht => absurd ht (honly t _ nofun nofun)
  · exact fun t tid ht => absurd ht (hchild t tid)
  · exact fun t _ => List.mem_singleton_self _
  · exact fun t u tid ht => absurd ht (hchild t tid)
  · exact fun t tid ht => absurd ht (hchild t tid)
  · intro t u ht hu _
    rw [hmade t ht, hmade u hu]
  · exact fun t _ _ => (hmap 0).trans (if_pos rfl)
  · intro tid other hset
    rw [hmap] at hset
    split at hset
    · rename_i hzero
      exact ⟨0, Nat.one_pos, hzero⟩
    · cases hset
  · intro t u ht hu _ _ _
    rw [hmade t ht, hmade u hu]
  · intro t _ tid hset
    rw [hmap] at hset
    split at hset
    · rename_i hzero
      exact Int.le_of_eq hzero.symm
    · cases hset
  · exact fun t target ht => absurd ht (honly t _ nofun nofun)

theorem phase_goto {place : Place} (hsame : place.phase = (s.places t).phase) (u : Thread) :
    ((s.goto t place).places u).phase = (s.places u).phase := by
  by_cases hut : u = t
  · rw [hut, goto_places, Function.update_self, hsame]
  · rw [goto_places, Function.update_of_ne hut]

theorem places_goto {place other : Place} (hother : place ≠ other) (u : Thread)
    (hu : (s.goto t place).places u = other) : u ≠ t ∧ s.places u = other := by
  by_cases hut : u = t
  · rw [hut, goto_places, Function.update_self] at hu
    exact absurd hu hother
  · rw [goto_places, Function.update_of_ne hut] at hu
    exact ⟨hut, hu⟩

theorem child_goto {place : Place} (u : Thread) (tid : Int)
    (hu : ((s.goto t place).places u).child = some tid) :
    (u = t ∧ place.child = some tid) ∨ (u ≠ t ∧ (s.places u).child = some tid) := by
  by_cases hut : u = t
  · rw [hut, goto_places, Function.update_self] at hu
    exact Or.inl ⟨hut, hu⟩
  · rw [goto_places, Function.update_of_ne hut] at hu
    exact Or.inr ⟨hut, hu⟩

-- A step that changes nothing but the place of a registered thread, which may give up its id.
theorem Inv.goto (h : Inv s) (t : Thread) (place : Place) (hold : (s.places t).phase = .registered)
    (hnew : place.phase = .registered) (hchild : place.child = none ∨
      place.child = (s.places t).child) (hreturn : place ≠ .returnTID)
    (hjoin : ∀ target, place ≠ .afterJoin target) : Inv (s.goto t place) := by
  have hphase := phase_goto (t := t) (hnew.trans hold.symm)
  have hchild' (u : Thread) (tid : Int) (hu : ((s.goto t place).places u).child = some tid) :
      (s.places u).child = some tid := by
    rcases child_goto u tid hu with ⟨rfl, hplace⟩ | ⟨_, hplace⟩
    · rcases hchild with hnone | hsame
      · rw [hnone] at hplace
        cases hplace
      · rwa [← hsame]
    · exact hplace
  refine ⟨fun u => ?_, h.given, h.range, h.started, fun u hu => ?_, fun u tid hu => ?_, h.tid_given,
    fun u v tid hu hv => ?_, fun u tid hu => ?_, h.tid_once, fun u hu hstarting => ?_, h.keys,
    fun u v hu hv hju hjv => ?_, fun u hu => ?_, fun u target hu => ?_⟩
  · rw [hphase]
    exact h.fresh u
  · obtain ⟨hlt, honly⟩ := h.returning u (places_goto hreturn u hu).2
    exact ⟨hlt, fun v hv => honly v (places_goto hreturn v hv).2⟩
  · exact h.child_given u tid (hchild' u tid hu)
  · exact h.child_once u v tid (hchild' u tid hu) (hchild' v tid hv)
  · exact h.child_tid u tid (hchild' u tid hu)
  · exact h.registered u hu (hphase u ▸ hstarting)
  · exact h.owner u v hu hv (hphase u ▸ hju) (hphase v ▸ hjv)
  · exact h.highest u (hphase u ▸ hu)
  · obtain ⟨hmade, hjoined, hhighest⟩ := h.joining u target (places_goto (hjoin target) u hu).2
    exact ⟨hmade, (hphase target).trans hjoined, hhighest⟩

theorem Inv.lt_made (h : Inv s) (t : Thread) (hborn : (s.places t).phase ≠ .unborn) :
    t < s.made := by
  by_contra hge
  exact hborn ((h.fresh t).mpr (Nat.le_of_not_lt hge))

-- The flags are of no account.
theorem Inv.flags (h : Inv s) (thread_start_map : Int → Bool) : Inv { s with thread_start_map } :=
  ⟨h.fresh, h.given, h.range, h.started, h.returning, h.child_given, h.tid_given, h.child_once,
    h.child_tid, h.tid_once, h.registered, h.keys, h.owner, h.highest, h.joining⟩

-- The section of `getNextTID`, when no thread is behind it.
theorem Inv.getNextTID (h : Inv s) (t : Thread) (hplace : s.places t = .getNextTID)
    (hnone : ∀ u, s.places u ≠ .returnTID) :
    Inv ({ s with threadtracker := s.threadtracker.getNextTID }.goto t .returnTID) := by
  have hrange (tid : Int) (htid : tid ∈ s.given) : tid < s.threadtracker.curr_id + 1 := by
    have hle := (h.range tid htid).2
    omega
  have hphase (u : Thread) : ((s.goto t .returnTID).places u).phase = (s.places u).phase :=
    phase_goto (by rw [hplace]; rfl) u
  have hchild (u : Thread) (tid : Int) (hu : ((s.goto t .returnTID).places u).child = some tid) :
      (s.places u).child = some tid := by
    rcases child_goto u tid hu with ⟨_, hu⟩ | ⟨_, hu⟩
    · cases hu
    · exact hu
  have honly (u : Thread) (hu : (s.goto t .returnTID).places u = .returnTID) : u = t := by
    by_contra hut
    rw [goto_places, Function.update_of_ne hut] at hu
    exact hnone u hu
  have hjoin (u target : Thread) (hu : (s.goto t .returnTID).places u = .afterJoin target) :
      s.places u = .afterJoin target := by
    have hne : Place.returnTID ≠ .afterJoin target := nofun
    exact (places_goto hne u hu).2
  refine ⟨fun u => ?_, h.given, fun tid htid => ?_, ?_, fun u hu => ?_, fun u tid hu => ?_,
    h.tid_given, fun u v tid hu hv => ?_, fun u tid hu => ?_, h.tid_once, fun u hu hstarting => ?_,
    h.keys, fun u v hu hv hju hjv => ?_, fun u hu => ?_, fun u target hu => ?_⟩
  · exact (iff_of_eq (congrArg (· = Phase.unborn) (hphase u))).trans (h.fresh u)
  · exact ⟨(h.range tid htid).1, Int.le_of_lt (hrange tid htid)⟩
  · exact Int.le_add_one h.started
  · exact ⟨hrange, fun v hv => (honly v hv).trans (honly u hu).symm⟩
  · exact h.child_given u tid (hchild u tid hu)
  · exact h.child_once u v tid (hchild u tid hu) (hchild v tid hv)
  · exact h.child_tid u tid (hchild u tid hu)
  · exact h.registered u hu (hphase u ▸ hstarting)
  · exact h.owner u v hu hv (hphase u ▸ hju) (hphase v ▸ hjv)
  · exact h.highest u (hphase u ▸ hu)
  · obtain ⟨hmade, hjoined, hhighest⟩ := h.joining u target (hjoin u target hu)
    exact ⟨hmade, (hphase target).trans hjoined, hhighest⟩

-- Its return: the id is new.
theorem Inv.returnTID (h : Inv s) (t : Thread) (hplace : s.places t = .returnTID) :
    Inv ({ s with given := s.given ++ [s.threadtracker.curr_id] }.goto t
      (.beforeCreate s.threadtracker.curr_id)) := by
  obtain ⟨hlt, honly⟩ := h.returning t hplace
  have hnew : s.threadtracker.curr_id ∉ s.given := fun hmem => absurd (hlt _ hmem) (Int.lt_irrefl _)
  have hphase (u : Thread) :
      ((s.goto t (.beforeCreate s.threadtracker.curr_id)).places u).phase =
        (s.places u).phase := phase_goto (by rw [hplace]; rfl) u
  have hchild (u : Thread) (tid : Int)
      (hu : ((s.goto t (.beforeCreate s.threadtracker.curr_id)).places u).child = some tid) :
      (u = t ∧ tid = s.threadtracker.curr_id) ∨ (u ≠ t ∧ (s.places u).child = some tid) := by
    rcases child_goto u tid hu with ⟨hut, hu⟩ | hu
    · exact Or.inl ⟨hut, (Option.some.inj hu).symm⟩
    · exact Or.inr hu
  have hstays (u : Thread) (other : Place) (hother : ∀ tid, other ≠ .beforeCreate tid)
      (hu : (s.goto t (.beforeCreate s.threadtracker.curr_id)).places u = other) :
      u ≠ t ∧ s.places u = other := places_goto (hother _).symm u hu
  have hmem (tid : Int) (htid : tid ∈ s.given) : tid ∈ s.given ++ [s.threadtracker.curr_id] :=
    List.mem_append_left _ htid
  refine ⟨fun u => ?_, ?_, fun tid htid => ?_, h.started, fun u hu => ?_, fun u tid hu => ?_,
    fun u hu => hmem _ (h.tid_given u hu), fun u v tid hu hv => ?_, fun u tid hu v hv => ?_,
    h.tid_once, fun u hu hstarting => ?_, h.keys, fun u v hu hv hju hjv => ?_, fun u hu => ?_,
    fun u target hu => ?_⟩
  · exact (iff_of_eq (congrArg (· = Phase.unborn) (hphase u))).trans (h.fresh u)
  · refine List.nodup_append.mpr ⟨h.given, List.pairwise_singleton _ _, fun a ha b hb => ?_⟩
    rw [List.mem_singleton.mp hb]
    intro heq
    exact hnew (heq ▸ ha)
  · rcases List.mem_append.mp htid with htid | htid
    · exact h.range tid htid
    · rw [List.mem_singleton.mp htid]
      exact ⟨h.started, Int.le_refl _⟩
  · obtain ⟨hut, hold⟩ := hstays u .returnTID (fun _ => nofun) hu
    exact absurd (honly u hold) hut
  · rcases hchild u tid hu with ⟨_, rfl⟩ | ⟨_, hold⟩
    · exact List.mem_append_right _ (List.mem_singleton_self _)
    · exact hmem tid (h.child_given u tid hold)
  · rcases hchild u tid hu with ⟨hut, rfl⟩ | ⟨_, holdu⟩
    · rcases hchild v _ hv with ⟨hvt, _⟩ | ⟨_, holdv⟩
      · exact hut.trans hvt.symm
      · exact absurd (h.child_given v _ holdv) hnew
    · rcases hchild v tid hv with ⟨_, rfl⟩ | ⟨_, holdv⟩
      · exact absurd (h.child_given u _ holdu) hnew
      · exact h.child_once u v tid holdu holdv
  · rcases hchild u tid hu with ⟨_, rfl⟩ | ⟨_, hold⟩
    · intro heq
      exact hnew (heq ▸ h.tid_given v hv)
    · exact h.child_tid u tid hold v hv
  · exact h.registered u hu (hphase u ▸ hstarting)
  · exact h.owner u v hu hv (hphase u ▸ hju) (hphase v ▸ hjv)
  · exact h.highest u (hphase u ▸ hu)
  · obtain ⟨hmade, hjoined, hhighest⟩ := h.joining u target (hstays u (.afterJoin target) (fun _ => nofun) hu).2
    exact ⟨hmade, (hphase target).trans hjoined, hhighest⟩

theorem isFree_iff (handle : Handle) :
    s.isFree handle = true ↔ ∀ u, u < s.made → s.handles u = handle → s.places u = .joined := by
  simp only [isFree, List.all_eq_true, List.mem_range, Bool.or_eq_true, bne_iff_ne, beq_iff_eq]
  refine forall_congr' fun u => forall_congr' fun _ => ?_
  exact Classical.or_iff_not_imp_left.trans (imp_congr_left not_not)

-- `pthread_create` makes a thread with a free handle and the id of its creator.
theorem Inv.make (h : Inv s) (t : Thread) (child_id : Int) (handle : Handle) (place : Place)
    (hplace : s.places t = .pthread_create child_id) (hfree : s.isFree handle = true)
    (hphase : place.phase = .registered) (hchild : place.child = none)
    (hreturn : place ≠ .returnTID) (hjoin : ∀ target, place ≠ .afterJoin target) :
    Inv ((s.make child_id handle).goto t place) := by
  have hholder : (s.places t).child = some child_id := by rw [hplace]; rfl
  have hold : (s.places t).phase = .registered := by rw [hplace]; rfl
  have ht : t < s.made := h.lt_made t (by rw [hold]; exact nofun)
  have hmade (u : Thread) (hu : u < s.made + 1) (hne : u ≠ s.made) : u < s.made :=
    Nat.lt_of_le_of_ne (Nat.le_of_lt_succ hu) hne
  have hplaces (u : Thread) : ((s.make child_id handle).goto t place).places u =
      if u = t then place else if u = s.made then .my_start_routine else s.places u := by
    simp only [goto_places, Handler.make, Function.update_apply]
  have hphases (u : Thread) : (((s.make child_id handle).goto t place).places u).phase =
      if u = s.made then .starting else (s.places u).phase := by
    rw [hplaces]
    by_cases hut : u = t
    · rw [if_pos hut, if_neg (hut ▸ Nat.ne_of_lt ht), hut, hold, hphase]
    · rw [if_neg hut]
      split
      · rfl
      · rfl
  have hother (u : Thread) (other : Place) (hne : place ≠ other) (hstart : .my_start_routine ≠ other)
      (hu : ((s.make child_id handle).goto t place).places u = other) :
      u ≠ t ∧ u ≠ s.made ∧ s.places u = other := by
    rw [hplaces] at hu
    split at hu
    · exact absurd hu hne
    · split at hu
      · exact absurd hu hstart
      · exact ⟨by assumption, by assumption, hu⟩
  have hchilds (u : Thread) (tid : Int)
      (hu : (((s.make child_id handle).goto t place).places u).child = some tid) :
      u ≠ t ∧ (s.places u).child = some tid := by
    rw [hplaces] at hu
    split at hu
    · rw [hchild] at hu
      cases hu
    · split at hu
      · cases hu
      · exact ⟨by assumption, hu⟩
  have htids (u : Thread) : (s.make child_id handle).tids u =
      if u = s.made then child_id else s.tids u := Function.update_apply _ _ _ _
  have hhandles (u : Thread) : (s.make child_id handle).handles u =
      if u = s.made then handle else s.handles u := Function.update_apply _ _ _ _
  have hnotstarting (u : Thread)
      (hu : (((s.make child_id handle).goto t place).places u).phase ≠ .starting) :
      u ≠ s.made ∧ (((s.make child_id handle).goto t place).places u).phase =
        (s.places u).phase := by
    rw [hphases] at hu ⊢
    split at hu
    · exact absurd rfl hu
    · rename_i hne
      exact ⟨hne, if_neg hne⟩
  refine ⟨fun u => ?_, h.given, h.range, h.started, fun u hu => ?_, fun u tid hu => ?_,
    fun u hu => ?_, fun u v tid hu hv => ?_, fun u tid hu v hv => ?_, fun u v hu hv htid => ?_,
    fun u hu hstarting => ?_, fun tid other hset => ?_, fun u v hu hv hju hjv hsame => ?_,
    fun u hu tid hset => ?_, fun u target hu => ?_⟩
  · show _ ↔ s.made + 1 ≤ u
    rw [hphases]
    by_cases hum : u = s.made
    · rw [if_pos hum]
      exact ⟨nofun, fun hle => absurd hle (hum ▸ Nat.not_succ_le_self u)⟩
    · rw [if_neg hum, h.fresh u]
      exact ⟨fun hle => Nat.lt_of_le_of_ne hle (Ne.symm hum), Nat.le_of_succ_le⟩
  · obtain ⟨hlt, honly⟩ := h.returning u (hother u _ hreturn nofun hu).2.2
    exact ⟨hlt, fun v hv => honly v (hother v _ hreturn nofun hv).2.2⟩
  · exact h.child_given u tid (hchilds u tid hu).2
  · show (s.make child_id handle).tids u ∈ s.given
    rw [htids]
    split
    · exact h.child_given t child_id hholder
    · exact h.tid_given u (hmade u hu (by assumption))
  · exact h.child_once u v tid (hchilds u tid hu).2 (hchilds v tid hv).2
  · obtain ⟨hut, hholds⟩ := hchilds u tid hu
    show (s.make child_id handle).tids v ≠ tid
    rw [htids]
    split
    · intro heq
      exact hut (h.child_once u t tid hholds (heq ▸ hholder))
    · exact h.child_tid u tid hholds v (hmade v hv (by assumption))
  · have hne (w : Thread) (hw : w < s.made) := h.child_tid t child_id hholder w hw
    have heq : (s.make child_id handle).tids u = (s.make child_id handle).tids v := htid
    rw [htids, htids] at heq
    by_cases hum : u = s.made
    · by_cases hvm : v = s.made
      · exact hum.trans hvm.symm
      · rw [if_pos hum, if_neg hvm] at heq
        exact absurd heq.symm (hne v (hmade v hv hvm))
    · by_cases hvm : v = s.made
      · rw [if_neg hum, if_pos hvm] at heq
        exact absurd heq (hne u (hmade u hu hum))
      · rw [if_neg hum, if_neg hvm] at heq
        exact h.tid_once u v (hmade u hu hum) (hmade v hv hvm) heq
  · obtain ⟨hne, hsame⟩ := hnotstarting u hstarting
    show s.threadtracker.pthreadHandleMap[(s.make child_id handle).tids u]? =
      some ((s.make child_id handle).handles u)
    rw [htids, hhandles, if_neg hne, if_neg hne]
    exact h.registered u (hmade u hu hne) (hsame ▸ hstarting)
  · obtain ⟨u, hu, htid⟩ := h.keys tid other hset
    refine ⟨u, Nat.lt_succ_of_lt hu, ?_⟩
    show (s.make child_id handle).tids u = tid
    rw [htids, if_neg (Nat.ne_of_lt hu), htid]
  · have hjoined (w : Thread) (hw : w < s.made) (heq : s.handles w = handle) :
        (s.places w).phase = .joined := by
      rw [(isFree_iff handle).mp hfree w hw heq]
      rfl
    have heq : (s.make child_id handle).handles u = (s.make child_id handle).handles v := hsame
    rw [hhandles, hhandles] at heq
    rw [hphases] at hju hjv
    by_cases hum : u = s.made
    · by_cases hvm : v = s.made
      · exact hum.trans hvm.symm
      · rw [if_pos hum, if_neg hvm] at heq
        rw [if_neg hvm] at hjv
        exact absurd (hjoined v (hmade v hv hvm) heq.symm) hjv
    · rw [if_neg hum] at heq hju
      by_cases hvm : v = s.made
      · rw [if_pos hvm] at heq
        exact absurd (hjoined u (hmade u hu hum) heq) hju
      · rw [if_neg hvm] at heq hjv
        exact h.owner u v (hmade u hu hum) (hmade v hv hvm) hju hjv heq
  · obtain ⟨hne, hsame⟩ := hnotstarting u (by rw [hu]; exact nofun)
    have hset' : s.threadtracker.pthreadHandleMap[tid]? =
        some ((s.make child_id handle).handles u) := hset
    show tid ≤ (s.make child_id handle).tids u
    rw [hhandles, if_neg hne] at hset'
    rw [htids, if_neg hne]
    exact h.highest u (hsame ▸ hu) tid hset'
  · obtain ⟨hjoined, hlt, hhighest⟩ :=
      h.joining u target (hother u _ (hjoin target) nofun hu).2.2
    have hne : target ≠ s.made := Nat.ne_of_lt hjoined
    refine ⟨Nat.lt_succ_of_lt hjoined, ?_, fun tid hset => ?_⟩
    · rw [hphases, if_neg hne, hlt]
    · have hset' : s.threadtracker.pthreadHandleMap[tid]? =
          some ((s.make child_id handle).handles target) := hset
      show tid ≤ (s.make child_id handle).tids target
      rw [hhandles, if_neg hne] at hset'
      rw [htids, if_neg hne]
      exact hhighest tid hset'

-- `my_start_routine` registers its thread, with the highest id of its handle.
theorem Inv.register (h : Inv s) (t : Thread) (thread_start_map : Int → Bool)
    (hplace : s.places t = .my_start_routine)
    (hhigher : ∀ tid, s.threadtracker.pthreadHandleMap[tid]? = some (s.handles t) →
      tid < s.tids t)
    (hnojoin : ∀ u target, s.places u = .afterJoin target → s.handles target ≠ s.handles t) :
    Inv ({ s with
      threadtracker := s.threadtracker.setTID (s.tids t) (s.handles t)
      thread_start_map }.goto t .program) := by
  have hold : (s.places t).phase = .starting := by rw [hplace]; rfl
  have ht : t < s.made := h.lt_made t (by rw [hold]; exact nofun)
  have hset (tid : Int) (handle : Handle)
      (hget : (s.threadtracker.setTID (s.tids t) (s.handles t)).pthreadHandleMap[tid]? =
        some handle) :
      (s.tids t = tid ∧ s.handles t = handle) ∨
        s.threadtracker.pthreadHandleMap[tid]? = some handle := by
    rw [ThreadTracker.map_setTID] at hget
    split at hget
    · rename_i htid
      exact Or.inl ⟨htid, Option.some.inj hget⟩
    · exact Or.inr hget
  have hphase (u : Thread) : ((s.goto t .program).places u).phase =
      if u = t then .registered else (s.places u).phase := by
    rw [goto_places, Function.update_apply]
    split
    · rfl
    · rfl
  have hlive (u : Thread) (hu : ((s.goto t .program).places u).phase ≠ .joined) :
      (s.places u).phase ≠ .joined := by
    rw [hphase] at hu
    split at hu
    · rename_i hut
      rw [hut, hold]
      exact nofun
    · exact hu
  have hchild (u : Thread) (tid : Int) (hu : ((s.goto t .program).places u).child = some tid) :
      (s.places u).child = some tid := by
    rcases child_goto u tid hu with ⟨_, hu⟩ | ⟨_, hu⟩
    · cases hu
    · exact hu
  have hreturn (u : Thread) (hu : (s.goto t .program).places u = .returnTID) :
      s.places u = .returnTID := by
    have hne : Place.program ≠ .returnTID := nofun
    exact (places_goto hne u hu).2
  refine ⟨fun u => ?_, h.given, h.range, h.started, fun u hu => ?_, fun u tid hu => ?_, h.tid_given,
    fun u v tid hu hv => ?_, fun u tid hu => ?_, h.tid_once, fun u hu hstarting => ?_,
    fun tid handle hget => ?_, fun u v hu hv hju hjv => ?_, fun u hu tid hget => ?_,
    fun u target hu => ?_⟩
  · refine (iff_of_eq (congrArg (· = Phase.unborn) (hphase u))).trans ?_
    by_cases hut : u = t
    · rw [if_pos hut, hut]
      exact ⟨nofun, fun hle => absurd ht (Nat.not_lt_of_le hle)⟩
    · rw [if_neg hut]
      exact h.fresh u
  · obtain ⟨hlt, honly⟩ := h.returning u (hreturn u hu)
    exact ⟨hlt, fun v hv => honly v (hreturn v hv)⟩
  · exact h.child_given u tid (hchild u tid hu)
  · exact h.child_once u v tid (hchild u tid hu) (hchild v tid hv)
  · exact h.child_tid u tid (hchild u tid hu)
  · refine (ThreadTracker.map_setTID _ _ _ _).trans ?_
    split
    · rename_i htid
      exact congrArg (fun u => some (s.handles u)) (h.tid_once t u ht hu htid)
    · rename_i htid
      have hut : u ≠ t := fun hut => htid (hut ▸ rfl)
      have hphase' := hphase u
      rw [if_neg hut] at hphase'
      exact h.registered u hu (hphase' ▸ hstarting)
  · rcases hset tid handle hget with ⟨htid, _⟩ | hget
    · exact ⟨t, ht, htid⟩
    · exact h.keys tid handle hget
  · exact h.owner u v hu hv (hlive u hju) (hlive v hjv)
  · have hulive : (s.places u).phase ≠ .joined := hlive u (by
      have hregistered : ((s.goto t .program).places u).phase = .registered := hu
      rw [hregistered]
      exact nofun)
    rcases hset tid _ hget with ⟨htid, hhandle⟩ | hget
    · have hborn : u < s.made := by
        by_contra hge
        have hunborn := (h.fresh u).mpr (Nat.le_of_not_lt hge)
        have hut : u ≠ t := fun hut => hge (hut ▸ ht)
        have hregistered : ((s.goto t .program).places u).phase = .registered := hu
        rw [hphase, if_neg hut, hunborn] at hregistered
        cases hregistered
      have htu := h.owner t u ht hborn (by rw [hold]; exact nofun) hulive hhandle
      exact Int.le_of_eq (htid ▸ congrArg s.tids htu)
    · by_cases hut : u = t
      · subst hut
        exact Int.le_of_lt (hhigher tid hget)
      · have hregistered : ((s.goto t .program).places u).phase = .registered := hu
        rw [hphase, if_neg hut] at hregistered
        exact h.highest u hregistered tid hget
  · have hne : Place.program ≠ .afterJoin target := nofun
    have hafter := (places_goto hne u hu).2
    obtain ⟨hmade, hjoined, hhighest⟩ := h.joining u target hafter
    refine ⟨hmade, (hphase target).trans ?_, fun tid hget => ?_⟩
    · split
      · rename_i htarget
        rw [htarget, hold] at hjoined
        cases hjoined
      · exact hjoined
    · rcases hset tid _ hget with ⟨_, hhandle⟩ | hget
      · exact absurd hhandle.symm (hnojoin u target hafter)
      · exact hhighest tid hget

-- The return of `pthread_join`.
theorem Inv.join (h : Inv s) (t target : Thread) (hplace : s.places t = .pthread_join target)
    (hfinished : s.places target = .finished) :
    Inv ((s.goto target .joined).goto t (.afterJoin target)) := by
  have hne : t ≠ target := by
    intro heq
    rw [heq, hfinished] at hplace
    cases hplace
  have hold : (s.places target).phase = .registered := by rw [hfinished]; rfl
  have hmade : target < s.made := h.lt_made target (by rw [hold]; exact nofun)
  have hphase (u : Thread) :
      (((s.goto target .joined).goto t (.afterJoin target)).places u).phase =
        if u = target then .joined else (s.places u).phase := by
    have hsame : (Place.afterJoin target).phase = ((s.goto target .joined).places t).phase := by
      rw [goto_places, Function.update_of_ne hne, hplace]
      rfl
    rw [phase_goto hsame, goto_places, Function.update_apply]
    split
    · rfl
    · rfl
  have hother (u : Thread) (other : Place) (hafter : .afterJoin target ≠ other)
      (hjoined : .joined ≠ other)
      (hu : ((s.goto target .joined).goto t (.afterJoin target)).places u = other) :
      s.places u = other := (places_goto hjoined u (places_goto hafter u hu).2).2
  have hchild (u : Thread) (tid : Int)
      (hu : (((s.goto target .joined).goto t (.afterJoin target)).places u).child = some tid) :
      (s.places u).child = some tid := by
    rcases child_goto u tid hu with ⟨_, hu⟩ | ⟨_, hu⟩
    · cases hu
    · rcases child_goto u tid hu with ⟨_, hu⟩ | ⟨_, hu⟩
      · cases hu
      · exact hu
  have hlive (u : Thread)
      (hu : (((s.goto target .joined).goto t (.afterJoin target)).places u).phase ≠ .joined) :
      u ≠ target ∧ (((s.goto target .joined).goto t (.afterJoin target)).places u).phase =
        (s.places u).phase := by
    rw [hphase] at hu ⊢
    split at hu
    · exact absurd rfl hu
    · rename_i hut
      exact ⟨hut, if_neg hut⟩
  refine ⟨fun u => ?_, h.given, h.range, h.started, fun u hu => ?_, fun u tid hu => ?_, h.tid_given,
    fun u v tid hu hv => ?_, fun u tid hu => ?_, h.tid_once, fun u hu hstarting => ?_, h.keys,
    fun u v hu hv hju hjv => ?_, fun u hu => ?_, fun u other hu => ?_⟩
  · rw [hphase]
    split
    · rename_i hut
      exact ⟨nofun, fun hle => absurd (hut ▸ hmade) (Nat.not_lt_of_le hle)⟩
    · exact h.fresh u
  · have hstill (v : Thread) := hother v .returnTID nofun nofun
    obtain ⟨hlt, honly⟩ := h.returning u (hstill u hu)
    exact ⟨hlt, fun v hv => honly v (hstill v hv)⟩
  · exact h.child_given u tid (hchild u tid hu)
  · exact h.child_once u v tid (hchild u tid hu) (hchild v tid hv)
  · exact h.child_tid u tid (hchild u tid hu)
  · apply h.registered u hu
    by_cases hut : u = target
    · rw [hut, hold]
      exact nofun
    · rw [hphase, if_neg hut] at hstarting
      exact hstarting
  · have hju' := (hlive u hju).2 ▸ hju
    have hjv' := (hlive v hjv).2 ▸ hjv
    exact h.owner u v hu hv hju' hjv'
  · have hlive' := hlive u (by rw [hu]; exact nofun)
    exact h.highest u (hlive'.2 ▸ hu)
  · by_cases hut : u = t
    · rw [hut, goto_places, Function.update_self] at hu
      obtain rfl : target = other := Place.afterJoin.inj hu
      exact ⟨hmade, (hphase target).trans (if_pos rfl), h.highest target hold⟩
    · rw [goto_places, Function.update_of_ne hut] at hu
      have hjoined' : Place.joined ≠ .afterJoin other := nofun
      obtain ⟨hborn, hjoined, hhighest⟩ := h.joining u other (places_goto hjoined' u hu).2
      refine ⟨hborn, (hphase other).trans ?_, hhighest⟩
      split
      · rfl
      · exact hjoined

theorem pastStart_cases (child_id : Int) :
    s.pastStart child_id = .program ∨ s.pastStart child_id = .awaitStart child_id := by
  rw [pastStart]
  split
  · exact Or.inl rfl
  · exact Or.inr rfl

-- A step to one of the places where nothing is in the hand of the thread.
theorem Inv.release (h : Inv s) (t : Thread) (place : Place)
    (hold : (s.places t).phase = .registered)
    (hplace : place = .program ∨ ∃ child_id, place = .awaitStart child_id) :
    Inv (s.goto t place) := by
  rcases hplace with rfl | ⟨child_id, rfl⟩
  · exact h.goto t _ hold rfl (Or.inl rfl) nofun (fun _ => nofun)
  · exact h.goto t _ hold rfl (Or.inl rfl) nofun (fun _ => nofun)

theorem Inv.step (h : Inv s) (horder : s.InOrder t action) (hstep : s.step t action = some s') :
    Inv s' := by
  unfold Handler.step at hstep
  split at hstep
  · -- `thrille_create`
    rename_i hplace
    obtain rfl := Option.some.inj hstep
    exact h.goto t _ (by rw [hplace]; rfl) rfl (Or.inl rfl) nofun (fun _ => nofun)
  · rename_i hplace
    obtain rfl := Option.some.inj hstep
    apply h.getNextTID t hplace
    intro u hu
    exact horder u (h.lt_made u (by rw [hu]; exact nofun)) hu
  · rename_i hplace
    obtain rfl := Option.some.inj hstep
    exact h.returnTID t hplace
  · -- `BeforeCreate`
    rename_i child_id hplace
    obtain ⟨_, _, hgoto⟩ := Option.bind_eq_some_iff.mp hstep
    obtain rfl := Option.some.inj hgoto
    exact h.goto t _ (by rw [hplace]; rfl) rfl (Or.inr (by rw [hplace]; rfl)) nofun
      (fun _ => nofun)
  · rename_i child_id hplace
    obtain rfl := Option.some.inj hstep
    exact (h.flags _).goto t _ (by rw [hplace]; rfl) rfl (Or.inr (by rw [hplace]; rfl)) nofun
      (fun _ => nofun)
  · rename_i child_id hplace
    obtain rfl := Option.some.inj hstep
    apply h.release t _ (by rw [hplace]; rfl)
    exact (pastStart_cases child_id).imp_right (fun hawait => ⟨child_id, hawait⟩)
  · -- `pthread_create`
    rename_i handle child_id hplace
    obtain ⟨_, hguard, hmake⟩ := Option.bind_eq_some_iff.mp hstep
    obtain rfl := Option.some.inj hmake
    have hfree : s.isFree handle = true := by
      by_contra hnot
      rw [guard, if_neg hnot] at hguard
      cases hguard
    rcases pastStart_cases (s := s) child_id with hpast | hpast
    · rw [hpast]
      exact h.make t child_id handle _ hplace hfree rfl rfl nofun (fun _ => nofun)
    · rw [hpast]
      exact h.make t child_id handle _ hplace hfree rfl rfl nofun (fun _ => nofun)
  · rename_i child_id hplace
    obtain ⟨_, _, hgoto⟩ := Option.bind_eq_some_iff.mp hstep
    obtain rfl := Option.some.inj hgoto
    exact h.release t _ (by rw [hplace]; rfl) (Or.inl rfl)
  · -- `my_start_routine`
    rename_i hplace
    obtain rfl := Option.some.inj hstep
    apply h.register t _ hplace
    · intro tid hget
      exact horder.1 (tid, s.handles t) (Std.TreeMap.mem_toList_iff_getElem?_eq_some.mpr hget) rfl
    · intro u target hu
      exact horder.2 u (h.lt_made u (by rw [hu]; exact nofun)) target (h.joining u target hu).1 hu
  · -- `thrille_join`
    rename_i target hplace
    obtain ⟨_, _, hgoto⟩ := Option.bind_eq_some_iff.mp hstep
    obtain rfl := Option.some.inj hgoto
    exact h.goto t _ (by rw [hplace]; rfl) rfl (Or.inl rfl) nofun (fun _ => nofun)
  · rename_i target hplace
    obtain ⟨_, hguard, hgoto⟩ := Option.bind_eq_some_iff.mp hstep
    obtain rfl := Option.some.inj hgoto
    apply h.join t target hplace
    by_contra hnot
    rw [guard, if_neg (by rw [beq_iff_eq]; exact hnot)] at hguard
    cases hguard
  · rename_i target hplace
    obtain ⟨_, _, hrest⟩ := Option.bind_eq_some_iff.mp hstep
    obtain ⟨_, _, hgoto⟩ := Option.bind_eq_some_iff.mp hrest
    obtain rfl := Option.some.inj hgoto
    exact h.release t _ (by rw [hplace]; rfl) (Or.inl rfl)
  · rename_i hplace
    obtain rfl := Option.some.inj hstep
    exact h.goto t _ (by rw [hplace]; rfl) rfl (Or.inl rfl) nofun (fun _ => nofun)
  · cases hstep

theorem Reaches.inv (hreaches : Reaches InOrder s) : Inv s := by
  induction hreaches with
  | initial handle => exact Inv.initial handle
  | step s s' t action _ horder hstep ih => exact ih.step horder hstep

-- What the ids are for.
structure Resolved (s : Handler) : Prop where
  given : s.given.Nodup
  tids : ∀ t u, t < s.made → u < s.made → s.tids t = s.tids u → t = u
  getThrID : ∀ t, (s.places t).phase = .registered → s.getThrID t = some (s.tids t)
  afterJoin : ∀ t target, s.places t = .afterJoin target →
    s.threadtracker.translateHandleToTID (s.handles target) = some (s.tids target)

theorem Inv.translate (h : Inv s) (t : Thread) (ht : t < s.made)
    (hregistered : (s.places t).phase ≠ .starting)
    (hhighest : ∀ tid, s.threadtracker.pthreadHandleMap[tid]? = some (s.handles t) →
      tid ≤ s.tids t) :
    s.threadtracker.translateHandleToTID (s.handles t) = some (s.tids t) :=
  s.threadtracker.translateHandleToTID_eq _ _ (h.range _ (h.tid_given t ht)).1
    (h.registered t ht hregistered) hhighest

theorem resolved (hreaches : Reaches InOrder s) : Resolved s := by
  have h := hreaches.inv
  refine ⟨h.given, h.tid_once, fun t ht => ?_, fun t target ht => ?_⟩
  · apply h.translate t (h.lt_made t (by rw [ht]; exact nofun)) (by rw [ht]; exact nofun)
    exact h.highest t ht
  · obtain ⟨hmade, hjoined, hhighest⟩ := h.joining t target ht
    exact h.translate target hmade (by rw [hjoined]; exact nofun) hhighest

-- A call of `thrille_create` up to the system's `pthread_create`.
def creates (t : Thread) (handle : Handle) : List (Thread × Action) :=
  [(t, .thrille_create), (t, .getNextTID), (t, .returnTID), (t, .beforeCreate), (t, .clearStart),
    (t, .pthread_create (some handle))]

theorem Reaches.exists_run {allowed : Handler → Thread → Action → Prop}
    [∀ s t action, Decidable (allowed s t action)] (handle : Handle)
    (steps : List (Thread × Action)) (shows : Handler → Bool)
    (hrun : (Handler.run allowed (Handler.initial handle) steps).map shows = some true) :
    ∃ s, Reaches allowed s ∧ shows s = true := by
  obtain ⟨s, hs, hshows⟩ := Option.map_eq_some_iff.mp hrun
  exact ⟨s, (Reaches.initial handle).run steps hs, hshows⟩

theorem resolved_afterJoin : ∃ s, Reaches InOrder s ∧ s.places 0 = .afterJoin 1 ∧ Resolved s := by
  have hrun : (run InOrder (initial 5) (creates 0 7 ++
      [(1, .my_start_routine), (0, .awaitStart), (1, .finish), (0, .thrille_join 1),
        (0, .pthread_join)])).map (fun s => s.places 0 == .afterJoin 1) = some true := by
    decide +kernel
  obtain ⟨s, hreaches, hplace⟩ := Reaches.exists_run 5 _ _ hrun
  exact ⟨s, hreaches, beq_iff_eq.mp hplace, resolved hreaches⟩

-- Two creators that are behind the section of `getNextTID` together are given one id. A thread
-- whose handle was one of a later id is taken for the thread of that id. A joined thread is taken
-- for the next one with its handle, when this is registered before the `AfterJoin`.
theorem not_resolved :
    (∃ s, Reaches (fun _ _ _ => True) s ∧ ¬ s.given.Nodup) ∧
    (∃ s, Reaches (fun _ _ _ => True) s ∧ (s.places 3).phase = .registered ∧
      s.tids 3 = 2 ∧ s.getThrID 3 = some 3) ∧
    ∃ s, Reaches (fun _ _ _ => True) s ∧ s.places 0 = .afterJoin 1 ∧ s.tids 1 = 1 ∧
      s.threadtracker.translateHandleToTID (s.handles 1) = some 3 := by
  refine ⟨?_, ?_, ?_⟩
  · have hrun : (run (fun _ _ _ => True) (initial 5) (creates 0 7 ++
        [(1, .my_start_routine), (0, .awaitStart), (0, .thrille_create), (1, .thrille_create),
          (0, .getNextTID), (1, .getNextTID), (0, .returnTID), (1, .returnTID)])).map
        (fun s => decide (¬ s.given.Nodup)) = some true := by decide +kernel
    obtain ⟨s, hreaches, hshows⟩ := Reaches.exists_run 5 _ _ hrun
    exact ⟨s, hreaches, of_decide_eq_true hshows⟩
  · have hrun : (run (fun _ _ _ => True) (initial 5) (creates 0 7 ++
        [(1, .my_start_routine), (0, .awaitStart), (0, .thrille_create), (0, .getNextTID),
          (0, .returnTID)] ++ creates 1 8 ++
        [(2, .my_start_routine), (1, .awaitStart), (2, .finish), (1, .thrille_join 2),
          (1, .pthread_join), (1, .afterJoin), (0, .beforeCreate), (0, .clearStart),
          (0, .pthread_create (some 8)), (3, .my_start_routine)])).map
        (fun s => decide ((s.places 3).phase = .registered ∧ s.tids 3 = 2 ∧
          s.getThrID 3 = some 3)) = some true := by decide +kernel
    obtain ⟨s, hreaches, hshows⟩ := Reaches.exists_run 5 _ _ hrun
    exact ⟨s, hreaches, of_decide_eq_true hshows⟩
  · have hrun : (run (fun _ _ _ => True) (initial 5) (creates 0 7 ++
        [(1, .my_start_routine), (0, .awaitStart)] ++ creates 0 8 ++
        [(2, .my_start_routine), (0, .awaitStart), (1, .finish), (0, .thrille_join 1),
          (0, .pthread_join)] ++ creates 2 7 ++ [(3, .my_start_routine)])).map
        (fun s => decide (s.places 0 = .afterJoin 1 ∧ s.tids 1 = 1 ∧
          s.threadtracker.translateHandleToTID (s.handles 1) = some 3)) = some true := by
      decide +kernel
    obtain ⟨s, hreaches, hshows⟩ := Reaches.exists_run 5 _ _ hrun
    exact ⟨s, hreaches, of_decide_eq_true hshows⟩

end Handler

end Thrille
