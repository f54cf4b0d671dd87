import Thrille.Files.Parse
import Mathlib.Data.List.Forall2
import Mathlib.Data.Set.Defs

namespace Thrille

namespace SchedulePoint

-- The attributes of a point; what `dir` lists besides is the same for every point.
def dir (self : SchedulePoint) : List String :=
  ["chosen", "caller", "type", "addr", "enabled"] ++
    if self.signal.isSome then ["signalled", "cond", "oncond"] else []

def hasattr (self : SchedulePoint) (name : String) : Bool := self.dir.contains name

-- `__eq__`. The addresses are left out.
def eq (self other : SchedulePoint) : Bool :=
  if self.dir.any fun x => !other.hasattr x then false
  else if self.chosen ≠ other.chosen then false
  else if self.caller ≠ other.caller then false
  else if self.type ≠ other.type then false
  else if self.enabled ≠ other.enabled then false
  else match self.signal with
    | some mine =>
        other.signal.any fun theirs =>
          decide (mine.signalled = theirs.signalled ∧ mine.oncond = theirs.oncond)
    | none => true

def ne (self other : SchedulePoint) : Bool := !self.eq other

-- The two points make the same choice, whatever they say about a signal.
structure SameChoice (x y : SchedulePoint) : Prop where
  chosen : x.chosen = y.chosen
  caller : x.caller = y.caller
  type : x.type = y.type
  enabled : x.enabled = y.enabled

theorem SameChoice.symm {x y : SchedulePoint} (h : x.SameChoice y) : y.SameChoice x :=
  ⟨h.chosen.symm, h.caller.symm, h.type.symm, h.enabled.symm⟩

theorem SameChoice.trans {x y z : SchedulePoint} (hxy : x.SameChoice y) (hyz : y.SameChoice z) :
    x.SameChoice z :=
  ⟨hxy.chosen.trans hyz.chosen, hxy.caller.trans hyz.caller, hxy.type.trans hyz.type,
    hxy.enabled.trans hyz.enabled⟩

-- What the first point says about a signal, the second one says too.
def SameSignal (x y : SchedulePoint) : Prop :=
  ∀ mine, x.signal = some mine → ∃ theirs, y.signal = some theirs ∧
    mine.signalled = theirs.signalled ∧ mine.oncond = theirs.oncond

theorem dir_subset_iff (self other : SchedulePoint) :
    (self.dir.any fun x => !other.hasattr x) = false ↔
      (self.signal ≠ none → other.signal ≠ none) := by
  unfold hasattr dir
  cases self.signal <;> cases other.signal <;> simp

theorem eq_iff (x y : SchedulePoint) : x.eq y = true ↔ x.SameChoice y ∧ x.SameSignal y := by
  unfold eq SameSignal
  constructor
  · intro h
    split_ifs at h with hdir hchosen hcaller htype henabled
    refine ⟨⟨not_not.mp hchosen, not_not.mp hcaller, not_not.mp htype, not_not.mp henabled⟩,
      fun mine hmine => ?_⟩
    simpa [hmine, Option.any_eq_true] using h
  · rintro ⟨hchoice, hsignal⟩
    have hdir : (x.dir.any fun name => !y.hasattr name) = false := by
      rw [dir_subset_iff]
      intro hne
      obtain ⟨mine, hmine⟩ := Option.ne_none_iff_exists'.mp hne
      obtain ⟨theirs, htheirs, -⟩ := hsignal mine hmine
      simp [htheirs]
    rw [hdir, if_neg Bool.false_ne_true, if_neg (not_not.mpr hchoice.chosen),
      if_neg (not_not.mpr hchoice.caller), if_neg (not_not.mpr hchoice.type),
      if_neg (not_not.mpr hchoice.enabled)]
    cases hx : x.signal with
    | none => rfl
    | some mine =>
        obtain ⟨theirs, htheirs, hsame⟩ := hsignal mine hx
        simp [htheirs, hsame]

theorem eq_refl (x : SchedulePoint) : x.eq x = true :=
  (eq_iff x x).mpr ⟨⟨rfl, rfl, rfl, rfl⟩, fun mine hmine => ⟨mine, hmine, rfl, rfl⟩⟩

theorem eq_trans {x y z : SchedulePoint} (hxy : x.eq y = true) (hyz : y.eq z = true) :
    x.eq z = true := by
  rw [eq_iff] at hxy hyz ⊢
  refine ⟨hxy.1.trans hyz.1, fun first hfirst => ?_⟩
  obtain ⟨second, hsecond, hsignalled, honcond⟩ := hxy.2 first hfirst
  obtain ⟨third, hthird, hsignalled', honcond'⟩ := hyz.2 second hsecond
  exact ⟨third, hthird, hsignalled.trans hsignalled', honcond.trans honcond'⟩

-- Only a point without a signal can equal a point that does not equal it.
theorem eq_symm_iff {x y : SchedulePoint} (hxy : x.eq y = true) :
    y.eq x = true ↔ ¬ (x.signal = none ∧ y.signal ≠ none) := by
  rw [eq_iff] at hxy ⊢
  obtain ⟨hchoice, hsignal⟩ := hxy
  constructor
  · rintro ⟨-, hback⟩ ⟨hnone, hsome⟩
    obtain ⟨theirs, htheirs⟩ := Option.ne_none_iff_exists'.mp hsome
    obtain ⟨mine, hmine, -⟩ := hback theirs htheirs
    rw [hnone] at hmine
    cases hmine
  · intro hplain
    refine ⟨hchoice.symm, fun theirs htheirs => ?_⟩
    cases hmine : x.signal with
    | none => exact absurd ⟨hmine, by simp [htheirs]⟩ hplain
    | some mine =>
        obtain ⟨theirs', htheirs', hsame⟩ := hsignal mine hmine
        rw [htheirs] at htheirs'
        cases htheirs'
        exact ⟨mine, rfl, hsame.1.symm, hsame.2.symm⟩

end SchedulePoint

section Lists

variable {α : Type} {r : α → α → Prop} {xs ys zs : List α}

theorem forall₂_trans (htrans : ∀ x y z, r x y → r y z → r x z) (h : List.Forall₂ r xs ys)
    (h' : List.Forall₂ r ys zs) : List.Forall₂ r xs zs := by
  induction h generalizing zs with
  | nil => exact h'
  | cons hhead _ ih =>
      obtain ⟨z, zs, hhead', htail', rfl⟩ := List.forall₂_cons_left_iff.mp h'
      exact List.Forall₂.cons (htrans _ _ _ hhead hhead') (ih htail')

theorem forall₂_symm (hsymm : ∀ x ∈ xs, ∀ y ∈ ys, r x y → r y x) (h : List.Forall₂ r xs ys) :
    List.Forall₂ r ys xs := by
  induction h with
  | nil => exact List.Forall₂.nil
  | cons hhead _ ih =>
      refine List.Forall₂.cons (hsymm _ List.mem_cons_self _ List.mem_cons_self hhead)
        (ih fun x hx y hy => ?_)
      exact hsymm x (List.mem_cons_of_mem _ hx) y (List.mem_cons_of_mem _ hy)

end Lists

namespace Schedule

-- `__eq__`, whose loop stops at the first two points that differ.
def eq (self other : Schedule) : Bool :=
  if self.error ≠ other.error then false
  else if self.addrlist ≠ other.addrlist then false
  else if self.schedule.length ≠ other.schedule.length then false
  else (self.schedule.zip other.schedule).all fun points => points.1.eq points.2

def ne (self other : Schedule) : Bool := !self.eq other

theorem eq_iff (self other : Schedule) :
    self.eq other = true ↔ self.error = other.error ∧ self.addrlist = other.addrlist ∧
      List.Forall₂ (fun x y => x.eq y = true) self.schedule other.schedule := by
  unfold eq
  rw [List.forall₂_iff_zip]
  constructor
  · intro h
    split_ifs at h with herror haddrlist hlength
    rw [List.all_eq_true] at h
    exact ⟨not_not.mp herror, not_not.mp haddrlist, not_not.mp hlength,
      fun hmem => h (_, _) hmem⟩
  · rintro ⟨herror, haddrlist, hlength, hpoints⟩
    rw [if_neg (not_not.mpr herror), if_neg (not_not.mpr haddrlist), if_neg (not_not.mpr hlength),
      List.all_eq_true]
    exact fun points hmem => hpoints hmem

theorem eq_refl (self : Schedule) : self.eq self = true :=
  (eq_iff self self).mpr ⟨rfl, rfl, List.forall₂_same.mpr fun x _ => x.eq_refl⟩

theorem eq_trans {first second third : Schedule} (h : first.eq second = true)
    (h' : second.eq third = true) : first.eq third = true := by
  rw [eq_iff] at h h' ⊢
  obtain ⟨herror, haddrlist, hpoints⟩ := h
  obtain ⟨herror', haddrlist', hpoints'⟩ := h'
  exact ⟨herror.trans herror', haddrlist.trans haddrlist',
    forall₂_trans (fun x y z => SchedulePoint.eq_trans) hpoints hpoints'⟩

-- The schedules that are made of certain points.
abbrev Of (points : Set SchedulePoint) : Type :=
  { sched : Schedule // ∀ x ∈ sched.schedule, x ∈ points }

-- A missed signal is a point without a signal that makes the choice of one with a signal.
theorem equivalence_eq_iff (points : Set SchedulePoint) :
    (Equivalence (fun x y : points => x.1.eq y.1 = true) ∧
      Equivalence (fun first second : Of points => first.1.eq second.1 = true) ∧
      (∀ x y : points, x.1.ne y.1 = !x.1.eq y.1) ∧
      ∀ first second : Of points, first.1.ne second.1 = !first.1.eq second.1) ↔
    ∀ x ∈ points, ∀ y ∈ points, x.signal = none → y.signal ≠ none → ¬ x.SameChoice y := by
  constructor
  · rintro ⟨hpoints, -⟩ x hx y hy hplain hsignal hchoice
    have hxy : x.eq y = true := by
      rw [SchedulePoint.eq_iff]
      exact ⟨hchoice, fun mine hmine => by simp [hplain] at hmine⟩
    have hyx : y.eq x = true := hpoints.symm (x := ⟨x, hx⟩) (y := ⟨y, hy⟩) hxy
    exact (SchedulePoint.eq_symm_iff hxy).mp hyx ⟨hplain, hsignal⟩
  · intro hmissed
    have hsymm : ∀ x ∈ points, ∀ y ∈ points, x.eq y = true → y.eq x = true := by
      intro x hx y hy hxy
      rw [SchedulePoint.eq_symm_iff hxy]
      rintro ⟨hplain, hsignal⟩
      exact hmissed x hx y hy hplain hsignal ((SchedulePoint.eq_iff x y).mp hxy).1
    refine ⟨⟨fun x => x.1.eq_refl, fun {x y} h => hsymm _ x.2 _ y.2 h, SchedulePoint.eq_trans⟩,
      ⟨fun sched => sched.1.eq_refl, fun {first second} h => ?_, eq_trans⟩, fun x y => rfl,
      fun first second => rfl⟩
    rw [eq_iff] at h ⊢
    obtain ⟨herror, haddrlist, hpoints⟩ := h
    refine ⟨herror.symm, haddrlist.symm, forall₂_symm (fun x hx y hy => ?_) hpoints⟩
    exact hsymm x (first.2 x hx) y (second.2 y hy)

-- A missed signal beside the signal of the same choice, both read from a schedule file.
theorem not_equivalence_missedSignal :
    ∃ x y : SchedulePoint,
      SchedulePoint.init ["chosen:1".toList, "caller:0".toList, "typstr:Simulate_Signal".toList,
        "idaddr:0x100".toList, "enable:1,2,3,".toList] = some x ∧
      SchedulePoint.init ["signalled:3".toList, "caller:0".toList, "idaddr:0x100".toList,
        "cond:0x100".toList, "oncond:3,4".toList, "SCHED".toList, "chosen:1".toList,
        "caller:0".toList, "typstr:Simulate_Signal".toList, "idaddr:0x100".toList,
        "enable:1,2,3,".toList] = some y ∧
      x.eq y = true ∧ y.eq x = false ∧
      ({ schedule := [x] } : Schedule).eq { schedule := [y] } = true ∧
      ({ schedule := [y] } : Schedule).eq { schedule := [x] } = false := by
  refine ⟨⟨some "1", some "0", "Simulate_Signal", "0x100", [some "1", some "2", some "3"], none⟩,
    ⟨some "1", some "0", "Simulate_Signal", "0x100", [some "1", some "2", some "3"],
      some ⟨some "3", "0x100", [some "3", some "4"]⟩⟩, ?_, ?_, ?_, ?_, ?_, ?_⟩
  · decide +kernel
  · decide +kernel
  · decide +kernel
  · decide +kernel
  · decide +kernel
  · decide +kernel

end Schedule

end Thrille
