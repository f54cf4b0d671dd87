import Mathlib.Data.List.Perm.Basic

namespace Thrille.Switches

variable {α : Type}

-- `block` is a run of `a` that cannot be made longer between `front` and `back`.
structure MaximalRun (a : α) (front block back : List α) : Prop where
  nonempty : block ≠ []
  same : ∀ x ∈ block, x = a
  left : ∀ x ∈ front.getLast?, x ≠ a
  right : ∀ x ∈ back.head?, x ≠ a

theorem getLastD_append (last : α) (front back : List α) :
    (front ++ back).getLastD last = back.getLastD (front.getLastD last) := by
  induction front generalizing last with
  | nil => rfl
  | cons x front ih => rw [List.cons_append, List.getLastD_cons, List.getLastD_cons, ih x]

theorem getLastD_of_same (a last : α) (block : List α) (hsame : ∀ x ∈ block, x = a)
    (hblock : block = [] → last = a) : block.getLastD last = a := by
  cases block with
  | nil => exact hblock rfl
  | cons x block =>
      rw [List.getLastD_cons, List.getLastD_eq_getLast?]
      cases hlast : block.getLast? with
      | none => exact hsame x List.mem_cons_self
      | some y => exact hsame y (List.mem_cons_of_mem x (List.mem_of_getLast? hlast))

theorem getLastD_of_ne (a last : α) (l : List α) (hne : ∀ x ∈ l.getLast?, x ≠ a)
    (hlast : l = [] → last ≠ a) : l.getLastD last ≠ a := by
  rw [List.getLastD_eq_getLast?]
  cases h : l.getLast? with
  | none => exact hlast (List.getLast?_eq_none_iff.mp h)
  | some y => exact hne y h

variable [DecidableEq α]

-- How often the value changes along a list that comes behind `last`.
def changes (last : α) : List α → Nat
  | [] => 0
  | x :: rest => (if last = x then 0 else 1) + changes x rest

theorem changes_append (last : α) (front back : List α) :
    changes last (front ++ back) = changes last front + changes (front.getLastD last) back := by
  induction front generalizing last with
  | nil => simp [changes]
  | cons x front ih =>
      rw [List.cons_append, changes, changes, ih x, List.getLastD_cons]
      omega

-- A run behind its own value does not change it.
theorem changes_of_same (a : α) (block : List α) (hsame : ∀ x ∈ block, x = a) :
    changes a block = 0 := by
  induction block with
  | nil => rfl
  | cons x block ih =>
      have hx : x = a := hsame x List.mem_cons_self
      have hrest := ih fun y hy => hsame y (List.mem_cons_of_mem x hy)
      rw [changes, hx, if_pos rfl, hrest]

theorem changes_of_same_of_ne (a last : α) (block : List α) (hne : block ≠ [])
    (hsame : ∀ x ∈ block, x = a) (hlast : last ≠ a) : changes last block = 1 := by
  obtain ⟨x, rest, rfl⟩ := List.exists_cons_of_ne_nil hne
  have hx : x = a := hsame x List.mem_cons_self
  have hrest := changes_of_same a rest fun y hy => hsame y (List.mem_cons_of_mem x hy)
  rw [changes, hx, if_neg hlast, hrest]

-- Nothing is worse to come behind than a value that the list does not go on with.
theorem changes_le (last other : α) (l : List α) (hhead : ∀ x ∈ l.head?, x ≠ other) :
    changes last l ≤ changes other l := by
  cases l with
  | nil => exact Nat.le_refl 0
  | cons x rest =>
      have hne : other ≠ x := fun heq => hhead x rfl heq.symm
      rw [changes, changes, if_neg hne]
      split
      · omega
      · omega

variable (a last : α) (front away block back : List α)

-- A maximal run that moves forward to where its value was left saves a change.
theorem changes_moveForward_lt (hfront : front.getLastD last = a) (haway : away ≠ [])
    (hrun : MaximalRun a (front ++ away) block back) :
    changes last (front ++ block ++ away ++ back) <
      changes last (front ++ away ++ block ++ back) := by
  have hend : (front ++ away).getLastD last ≠ a := by
    apply getLastD_of_ne a last _ hrun.left
    intro hnil
    exact absurd (List.append_eq_nil_iff.mp hnil).2 haway
  have hawayEnd : away.getLastD a ≠ a := by
    rwa [getLastD_append, hfront] at hend
  have hblock := changes_of_same a block hrun.same
  have hblock' := changes_of_same_of_ne a _ block hrun.nonempty hrun.same hawayEnd
  have hblockEnd := getLastD_of_same a a block hrun.same fun _ => rfl
  have hblockEnd' := getLastD_of_same a (away.getLastD a) block hrun.same
    fun hnil => absurd hnil hrun.nonempty
  have hback := changes_le (away.getLastD a) a back hrun.right
  simp only [changes_append, getLastD_append, hfront, hblock, hblock', hblockEnd, hblockEnd']
  omega

-- One that moves backward to where its value comes again costs none.
theorem changes_moveBackward_le (hback : back.head? = some a)
    (hrun : MaximalRun a front block away) (hawayEnd : away.getLastD a ≠ a) :
    changes last (front ++ away ++ block ++ back) ≤
      changes last (front ++ block ++ away ++ back) := by
  obtain ⟨rest, rfl⟩ : ∃ rest, back = a :: rest := by
    cases back with
    | nil => cases hback
    | cons x rest => exact ⟨rest, by rw [Option.some.inj hback]⟩
  have haway : away ≠ [] := by
    rintro rfl
    exact hawayEnd rfl
  have hsame (x y : α) : away.getLastD x = away.getLastD y := by
    obtain ⟨z, rest, rfl⟩ := List.exists_cons_of_ne_nil haway
    rw [List.getLastD_cons, List.getLastD_cons]
  have hend : away.getLastD (front.getLastD last) ≠ a := by rwa [hsame _ a]
  have hblock := changes_of_same_of_ne a _ block hrun.nonempty hrun.same hend
  have hblockEnd := getLastD_of_same a (away.getLastD (front.getLastD last)) block hrun.same
    fun hnil => absurd hnil hrun.nonempty
  have hblockEnd' := getLastD_of_same a (front.getLastD last) block hrun.same
    fun hnil => absurd hnil hrun.nonempty
  have hle := changes_le (front.getLastD last) a away hrun.right
  simp only [changes_append, getLastD_append, hblock, hblockEnd, hblockEnd', changes,
    if_pos, if_neg hawayEnd]
  omega

-- And so does leaving it out.
theorem changes_remove_le (hrun : MaximalRun a front block back) :
    changes last (front ++ back) ≤ changes last (front ++ block ++ back) := by
  have hblockEnd := getLastD_of_same a (front.getLastD last) block hrun.same
    fun hnil => absurd hnil hrun.nonempty
  have hle := changes_le (front.getLastD last) a back hrun.right
  simp only [changes_append, getLastD_append, hblockEnd]
  omega

end Thrille.Switches
