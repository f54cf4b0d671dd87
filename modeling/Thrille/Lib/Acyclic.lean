import Mathlib.Logic.Relation
import Mathlib.Data.Finset.Basic
import Mathlib.Data.Set.Finite.Basic
import Mathlib.Order.WellFoundedSet

-- Relations without cycles, and how a relation may grow while staying free of them.
namespace Digraph

open Relation

variable {α : Type} {r s : α → α → Prop}

def Acyclic (r : α → α → Prop) : Prop :=
  ∀ a, ¬TransGen r a a

-- A node without outgoing edges is met only at the end of a path, so edges into it can be
-- dropped from every path that ends elsewhere.
theorem path_avoiding_sink {sink : α} (hsink : ∀ b, ¬r sink b)
    (hsub : ∀ a b, r a b → s a b ∨ b = sink) {a b : α} (h : TransGen r a b) (hb : b ≠ sink) :
    TransGen s a b := by
  induction h with
  | single he => exact TransGen.single ((hsub _ _ he).resolve_right hb)
  | @tail mid last _ he ih =>
      have hm : mid ≠ sink := by
        rintro rfl
        exact hsink _ he
      exact (ih hm).tail ((hsub _ _ he).resolve_right hb)

theorem Acyclic.add_sink (h : Acyclic s) (sink : α) (hsink : ∀ b, ¬r sink b)
    (hsub : ∀ a b, r a b → s a b ∨ b = sink) : Acyclic r := by
  intro a hc
  have ha : a ≠ sink := by
    rintro rfl
    obtain ⟨b, hb, _⟩ := TransGen.head'_iff.mp hc
    exact hsink b hb
  exact h a (path_avoiding_sink hsink hsub hc ha)

-- Among finitely many nodes one has no predecessor among them.
theorem Acyclic.exists_source (h : Acyclic r) (nodes : Finset α) (hne : nodes.Nonempty) :
    ∃ b ∈ nodes, ∀ a ∈ nodes, ¬r a b := by
  have : IsStrictOrder α (TransGen r) :=
    { irrefl := h, trans := fun _ _ _ => TransGen.trans }
  have hwf : (nodes : Set α).WellFoundedOn (TransGen r) := nodes.finite_toSet.wellFoundedOn
  obtain ⟨x, hx⟩ := hne
  obtain ⟨⟨b, hb⟩, _, hmin⟩ := hwf.has_min Set.univ ⟨⟨x, hx⟩, trivial⟩
  exact ⟨b, hb, fun a ha he => hmin ⟨a, ha⟩ trivial (TransGen.single he)⟩

end Digraph
