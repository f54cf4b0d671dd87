import Mathlib.Data.List.Basic

-- Partial correctness of programs that read and write a state and can fail: what holds of every
-- result, whatever the state is that the program starts in.
def Ensures {σ α : Type} (prog : StateT σ Option α) (post : α → Prop) : Prop :=
  ∀ start result final, prog.run start = some (result, final) → post result

namespace Ensures

variable {σ α β : Type} {prog : StateT σ Option α} {post : α → Prop}

theorem bind {next : α → StateT σ Option β} {last : β → Prop} (hprog : Ensures prog post)
    (hnext : ∀ result, post result → Ensures (next result) last) :
    Ensures (prog >>= next) last := by
  intro start result final hrun
  rw [StateT.run_bind, Option.bind_eq_bind, Option.bind_eq_some_iff] at hrun
  obtain ⟨⟨middle, state⟩, hmiddle, hresult⟩ := hrun
  exact hnext middle (hprog start middle state hmiddle) state result final hresult

theorem weaken {weaker : α → Prop} (hprog : Ensures prog post)
    (hpost : ∀ result, post result → weaker result) : Ensures prog weaker :=
  fun start result final hrun => hpost result (hprog start result final hrun)

theorem trivial (prog : StateT σ Option α) : Ensures prog fun _ => True :=
  fun _ _ _ _ => True.intro

theorem failure : Ensures (Alternative.failure : StateT σ Option α) post := by
  intro start result final hrun
  cases hrun

theorem assert {p : Prop} [Decidable p] :
    Ensures (guard p : StateT σ Option Unit) fun _ => p := by
  intro start result final hrun
  by_contra hp
  rw [guard, if_neg hp] at hrun
  cases hrun

end Ensures
