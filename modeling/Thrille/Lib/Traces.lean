import Mathlib.Logic.Relation

namespace Thrille.Traces

variable {α ε σ : Type} {rule : α → ε → α → Prop}

-- The runs of an abstract machine over lists of events.
inductive Runs (rule : α → ε → α → Prop) : α → List ε → α → Prop
  | nil (a : α) : Runs rule a [] a
  | cons (a b c : α) (e : ε) (events : List ε) (hrule : rule a e b) (hrest : Runs rule b events c) :
      Runs rule a (e :: events) c

namespace Runs

theorem single (a b : α) (e : ε) (h : rule a e b) : Runs rule a [e] b := .cons a b b e [] h (.nil b)

theorem append {a b c : α} {front back : List ε} (hfront : Runs rule a front b)
    (hback : Runs rule b back c) : Runs rule a (front ++ back) c := by
  induction hfront with
  | nil a => exact hback
  | cons a b _ e events hrule _ ih => exact .cons a b c e _ hrule (ih hback)

theorem of_append {a c : α} {front back : List ε} (h : Runs rule a (front ++ back) c) :
    ∃ b, Runs rule a front b ∧ Runs rule b back c := by
  induction front generalizing a with
  | nil => exact ⟨a, .nil a, h⟩
  | cons e front ih =>
      cases h with
      | cons _ b _ _ _ hrule hrest =>
          obtain ⟨b', hfront, hback⟩ := ih hrest
          exact ⟨b', .cons a b b' e front hrule hfront, hback⟩

-- Induction on the last event.
theorem induction_last {motive : List ε → α → Prop} {a₀ a : α} {past : List ε}
    (h : Runs rule a₀ past a) (hnil : motive [] a₀)
    (hlast : ∀ past b e c, motive past b → rule b e c → motive (past ++ [e]) c) :
    motive past a := by
  have hfrom (front : List ε) (events : List ε) (b c : α) (hb : motive front b)
      (hruns : Runs rule b events c) : motive (front ++ events) c := by
    induction hruns generalizing front with
    | nil b => rwa [List.append_nil]
    | cons b b' c e events hrule _ ih =>
        have hnext := ih (front ++ [e]) (hlast front b e b' hb hrule)
        rwa [List.append_assoc] at hnext
  exact hfrom [] past a₀ a hnil h

-- What every rule keeps.
theorem invariant {a b : α} {events : List ε} (h : Runs rule a events b) (inv : α → Prop)
    (hkeeps : ∀ a e b, rule a e b → inv a → inv b) (ha : inv a) : inv b := by
  induction h with
  | nil a => exact ha
  | cons a b _ e events hrule _ ih => exact ih (hkeeps a e b hrule ha)

end Runs

-- A system that steps, and shows some events at every step.
inductive Traced (start : σ → Prop) (step : σ → List ε → σ → Prop) : σ → List ε → Prop
  | initial (s : σ) (hstart : start s) : Traced start step s []
  | step (s s' : σ) (past events : List ε) (hpast : Traced start step s past)
      (hstep : step s events s') : Traced start step s' (past ++ events)

-- A simulation makes the events of a system a run of the machine, as long as they are allowed.
theorem Traced.simulates {start : σ → Prop} {step : σ → List ε → σ → Prop} {s : σ}
    {past : List ε} (h : Traced start step s past) (allowed : List ε → Prop)
    (hfront : ∀ front back, allowed (front ++ back) → allowed front) (sim : σ → α → Prop) (a₀ : α)
    (hinitial : ∀ s, start s → sim s a₀)
    (hstep : ∀ s s' past events a, Traced start step s past → step s events s' →
      allowed (past ++ events) → Runs rule a₀ past a → sim s a →
      ∃ a', Runs rule a events a' ∧ sim s' a')
    (hpast : allowed past) : ∃ a, Runs rule a₀ past a ∧ sim s a := by
  induction h with
  | initial s hstart => exact ⟨a₀, .nil a₀, hinitial s hstart⟩
  | step s s' past events hrun hnext ih =>
      obtain ⟨a, hruns, hsim⟩ := ih (hfront past events hpast)
      obtain ⟨a', hruns', hsim'⟩ := hstep s s' past events a hrun hnext hpast hruns hsim
      exact ⟨a', hruns.append hruns', hsim'⟩

end Thrille.Traces
