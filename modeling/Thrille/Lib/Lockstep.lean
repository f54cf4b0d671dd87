import Mathlib.Logic.Relation

namespace Thrille.Lockstep

open Relation

variable {α β : Type} {quietA moveA : α → α → Prop} {quietB moveB : β → β → Prop}
  {last : α} {rel : α → β → Prop} {past : β → Prop}

-- Any number of steps, each of which is quiet or a move.
abbrev Steps {α : Type} (quiet move : α → α → Prop) : α → α → Prop :=
  ReflTransGen fun a a' => quiet a a' ∨ move a a'

theorem steps_of_quiet {quiet move : α → α → Prop} {a a' : α} (h : ReflTransGen quiet a a') :
    Steps quiet move a a' := by
  induction h with
  | refl => exact .refl
  | tail _ hquiet ih => exact ih.tail (Or.inl hquiet)

-- A system that does what another one did on its way to `last`. Quiet steps of the two do not
-- matter, and moves go together until the second system is on its own.
structure Mirrors (quietA moveA : α → α → Prop) (quietB moveB : β → β → Prop) (last : α)
    (rel : α → β → Prop) (past : β → Prop) : Prop where
  left : ∀ a a' b, rel a b → quietA a a' → Steps quietA moveA a' last → rel a' b
  right : ∀ a b b', rel a b → quietB b b' → rel a b'
  moves : ∀ a a' b b', rel a b → moveA a a' → Steps quietA moveA a' last → moveB b b' →
    rel a' b' ∨ past b'
  ends : ∀ b b', rel last b → moveB b b' → past b'
  past : ∀ b b', past b → quietB b b' ∨ moveB b b' → past b'
  follows : ∀ a a' b, rel a b → moveA a a' → Steps quietA moveA a' last →
    ∃ b₁ b₂, ReflTransGen quietB b b₁ ∧ moveB b₁ b₂

namespace Mirrors

variable (h : Mirrors quietA moveA quietB moveB last rel past)

include h

theorem right_steps {a : α} {b b' : β} (hrel : rel a b) (hsteps : ReflTransGen quietB b b') :
    rel a b' := by
  induction hsteps with
  | refl => exact hrel
  | tail _ hquiet ih => exact h.right _ _ _ ih hquiet

-- The next move on the way to the last state, if there is one.
theorem next_move {a : α} {b : β} (hrel : rel a b) (hpath : Steps quietA moveA a last) :
    rel last b ∨ ∃ a₁ a₂, Steps quietA moveA a a₁ ∧ rel a₁ b ∧ moveA a₁ a₂ ∧
      Steps quietA moveA a₂ last := by
  induction hpath using ReflTransGen.head_induction_on with
  | refl => exact Or.inl hrel
  | head hstep hrest ih =>
      rcases hstep with hquiet | hmove
      · rcases ih (h.left _ _ _ hrel hquiet hrest) with hlast | ⟨a₁, a₂, hto, hrel', hmove, hon⟩
        · exact Or.inl hlast
        · exact Or.inr ⟨a₁, a₂, hto.head (Or.inl hquiet), hrel', hmove, hon⟩
      · exact Or.inr ⟨_, _, .refl, hrel, hmove, hrest⟩

-- Wherever the second system comes to, it is on its own, or where the first one was.
theorem safe {a₀ : α} {b₀ b : β} (hrel : rel a₀ b₀) (hpath : Steps quietA moveA a₀ last)
    (hsteps : Steps quietB moveB b₀ b) :
    past b ∨ ∃ a, Steps quietA moveA a₀ a ∧ Steps quietA moveA a last ∧ rel a b := by
  induction hsteps with
  | refl => exact Or.inr ⟨a₀, .refl, hpath, hrel⟩
  | tail _ hstep ih =>
      rcases ih with hover | ⟨a, hto, hon, hrel'⟩
      · exact Or.inl (h.past _ _ hover hstep)
      · rcases hstep with hquiet | hmove
        · exact Or.inr ⟨a, hto, hon, h.right _ _ _ hrel' hquiet⟩
        · rcases h.next_move hrel' hon with hlast | ⟨a₁, a₂, hto', hrel₁, hmove₁, hon'⟩
          · exact Or.inl (h.ends _ _ hlast hmove)
          · rcases h.moves _ _ _ _ hrel₁ hmove₁ hon' hmove with hrel₂ | hover
            · exact Or.inr ⟨a₂, (hto.trans hto').tail (Or.inr hmove₁), hon', hrel₂⟩
            · exact Or.inl hover

-- It can always go on until it is on its own, or where the first one ended.
theorem live {a : α} {b : β} (hrel : rel a b) (hpath : Steps quietA moveA a last) :
    ∃ b', Steps quietB moveB b b' ∧ (past b' ∨ rel last b') := by
  induction hpath using ReflTransGen.head_induction_on generalizing b with
  | refl => exact ⟨b, .refl, Or.inr hrel⟩
  | head hstep hrest ih =>
      rcases hstep with hquiet | hmove
      · exact ih (h.left _ _ _ hrel hquiet hrest)
      · obtain ⟨b₁, b₂, hquiets, hmove'⟩ := h.follows _ _ _ hrel hmove hrest
        have hto : Steps quietB moveB b b₂ :=
          (steps_of_quiet hquiets).tail (Or.inr hmove')
        rcases h.moves _ _ _ _ (h.right_steps hrel hquiets) hmove hrest hmove' with hrel' | hover
        · obtain ⟨b', hon, hends⟩ := ih hrel'
          exact ⟨b', hto.trans hon, hends⟩
        · exact ⟨b₂, hto, Or.inl hover⟩

end Mirrors

end Thrille.Lockstep
