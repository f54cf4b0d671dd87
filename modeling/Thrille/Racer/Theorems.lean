import Thrille.Racer.Invariant

namespace Thrille.VectorClockTracker

open Relation

section

variable {ops : List Op} {n : Nat}

theorem own_mono (hvalid : Valid ops) (thr : ThrID) (i k : Nat) (hlen : i + k ≤ ops.length) :
    timeAt ops i thr thr ≤ timeAt ops (i + k) thr thr := by
  induction k with
  | zero => exact Nat.le_refl _
  | succ k ih =>
      have hlt : i + k < ops.length := hlen
      have hop : ops[i + k]? = some ops[i + k] := List.getElem?_eq_getElem hlt
      have hle := Nat.le_of_lt hlt
      exact Nat.le_trans (ih hle) (own_le_succ hvalid hop (inv hvalid hle) thr)

theorem isHappensBefore_clockAt (i j : Nat) (a b : ThrID) :
    isHappensBefore (clockAt ops i a) (clockAt ops j b) = true ↔
      ∀ other, timeAt ops i a other ≤ timeAt ops j b other :=
  isHappensBefore_iff _ _

-- A clock dominates the stamp of an earlier operation when its thread comes after the operation.
theorem isHappensBefore_iff_knows (hvalid : Valid ops) (i : Nat) (a : Op) (hin : i < n)
    (hlen : n ≤ ops.length) (hi : ops[i]? = some a) (thr : ThrID) :
    isHappensBefore (clockAt ops i a.me) (clockAt ops n thr) = true ↔ Knows ops n i thr := by
  have hinv : Inv ops n := inv hvalid hlen
  rw [isHappensBefore_clockAt]
  constructor
  · intro hall
    exact (hinv.knows i a hin hi thr).mp (hall a.me)
  · intro hknows other
    exact hinv.carries i a hin hi thr hknows other

-- The thread of the later access has a clock that the earlier access does not know.
theorem not_before_earlier (hvalid : Valid ops) (i j : Nat) (a b : Op) (hij : i < j)
    (hj : ops[j]? = some b) (hne : a.me ≠ b.me) :
    timeAt ops i a.me b.me < timeAt ops j b.me b.me := by
  have hlen : j < ops.length := (List.getElem?_eq_some_iff.mp hj).1
  have hinv : Inv ops i := inv hvalid (by omega)
  have hallowed := hvalid j b hj
  by_cases hcreated : Created ops i b.me
  · have hjoined : ¬Joined ops i b.me := by
      intro h
      obtain ⟨o, ho, hjoins⟩ := h.mono (Nat.le_of_lt hij)
      exact hallowed.unjoined o ho hjoins
    have hmono := own_mono hvalid b.me i (j - i) (by omega)
    rw [Nat.add_sub_cancel' (Nat.le_of_lt hij)] at hmono
    exact Nat.lt_of_lt_of_le (hinv.ahead b.me hcreated hjoined a.me hne) hmono
  · rw [(hinv.unborn b.me hcreated a.me).2]
    exact (inv hvalid (Nat.le_of_lt hlen)).positive b.me hallowed.born

theorem happensBefore_iff_reach (i j : Nat) (hij : i < j) :
    HappensBefore ops i j ↔ Reach ops i j := by
  refine ⟨TransGen.to_reflTransGen, fun h => ?_⟩
  rcases reflTransGen_iff_eq_or_transGen.mp h with heq | h
  · omega
  · exact h

end

theorem isHappensBefore_iff_happensBefore (ops : List Op) (hvalid : Valid ops) (i j : Nat)
    (a b : ThrID) (hij : i < j) (hi : ops[i]? = some (.access a))
    (hj : ops[j]? = some (.access b)) (hne : a ≠ b) :
    (isHappensBefore (clockAt ops i a) (clockAt ops j b) = true ↔ HappensBefore ops i j) ∧
      isHappensBefore (clockAt ops j b) (clockAt ops i a) = false := by
  have hlen : j ≤ ops.length := Nat.le_of_lt (List.getElem?_eq_some_iff.mp hj).1
  have hreach : Reach ops i j ↔ Knows ops j i b := reach_iff_knows hj rfl rfl i hij
  refine ⟨?_, ?_⟩
  · rw [happensBefore_iff_reach i j hij, hreach]
    exact isHappensBefore_iff_knows hvalid i (.access a) hij hlen hi b
  · have hlt := not_before_earlier hvalid i j (.access a) (.access b) hij hj hne
    have hnot : ¬∀ other, timeAt ops j b other ≤ timeAt ops i a other := fun hall =>
      absurd (hall b) (Nat.not_le_of_lt hlt)
    exact Bool.eq_false_iff.mpr fun h => hnot ((isHappensBefore_clockAt j i b a).mp h)

-- The child waits for the signal of its creator, which has accessed memory before it signals.
theorem isHappensBefore_iff_happensBefore_signal :
    let ops : List Op := [.beforeCreate 0 1, .access 0, .beforeSignal 0 7, .afterWait 1 7,
      .access 1]
    (isHappensBefore (clockAt ops 1 0) (clockAt ops 4 1) = true ↔ HappensBefore ops 1 4) ∧
      isHappensBefore (clockAt ops 4 1) (clockAt ops 1 0) = false :=
  isHappensBefore_iff_happensBefore _ (by decide) 1 4 0 1 (by decide) rfl rfl (by decide)

end Thrille.VectorClockTracker
