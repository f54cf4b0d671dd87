import Thrille.Racer.Clocks
import Mathlib.Logic.Relation

namespace Thrille.VectorClockTracker

open Relation

-- A thread performs operations only after its creation and before it is joined, and the id of a
-- created thread has not been used before.
structure Allowed (past : List Op) (op : Op) : Prop where
  born : op.me = 0 ∨ ∃ o ∈ past, o.creates = some op.me
  unjoined : ∀ o ∈ past, o.joins ≠ some op.me
  fresh : ∀ child, op.creates = some child → child ≠ 0 ∧
    ∀ o ∈ past, o.creates ≠ some child ∧ o.joins ≠ some child

instance (past : List Op) (op : Op) : Decidable (Allowed past op) :=
  decidable_of_iff
    ((op.me = 0 ∨ ∃ o ∈ past, o.creates = some op.me) ∧ (∀ o ∈ past, o.joins ≠ some op.me) ∧
      ∀ child ∈ op.creates, child ≠ 0 ∧
        ∀ o ∈ past, o.creates ≠ some child ∧ o.joins ≠ some child)
    ⟨fun ⟨born, unjoined, fresh⟩ => ⟨born, unjoined, fresh⟩,
      fun h => ⟨h.born, h.unjoined, h.fresh⟩⟩

def Valid (ops : List Op) : Prop :=
  ∀ n op, ops[n]? = some op → Allowed (ops.take n) op

instance (ops : List Op) : Decidable (Valid ops) :=
  decidable_of_iff (∀ n, ∀ hn : n < ops.length, Allowed (ops.take n) ops[n])
    ⟨fun h n op hop => by
      obtain ⟨hn, rfl⟩ := List.getElem?_eq_some_iff.mp hop
      exact h n hn,
    fun h n hn => h n ops[n] (List.getElem?_eq_getElem hn)⟩

-- The creation of a thread counts as its first operation.
def Op.Belongs (op : Op) (thr : ThrID) : Prop := op.me = thr ∨ op.creates = some thr

-- Program order together with create-to-child, joined-thread-to-join, and the latest signal on a
-- condition to the end of a wait for it.
inductive Edge (ops : List Op) (i j : Nat) : Prop
  | program (a b : Op) (hij : i < j) (hi : ops[i]? = some a) (hj : ops[j]? = some b)
      (h : a.Belongs b.me)
  | join (a b : Op) (thr : ThrID) (hij : i < j) (hi : ops[i]? = some a) (hj : ops[j]? = some b)
      (hjoin : b.joins = some thr) (h : a.Belongs thr)
  | signal (a b : Op) (cond : Addr) (hij : i < j) (hi : ops[i]? = some a) (hj : ops[j]? = some b)
      (hsignal : a.signals = some cond) (hwait : b.waits = some cond)
      (hlatest : ∀ k c, i < k → k < j → ops[k]? = some c → c.signals ≠ some cond)

def HappensBefore (ops : List Op) : Nat → Nat → Prop := TransGen (Edge ops)

section

variable {ops : List Op} {n : Nat} {op : Op}

theorem Edge.lt {i j : Nat} (h : Edge ops i j) : i < j := by
  cases h <;> assumption

abbrev Reach (ops : List Op) : Nat → Nat → Prop := ReflTransGen (Edge ops)

theorem Reach.le {i j : Nat} (h : Reach ops i j) : i ≤ j := by
  induction h with
  | refl => exact Nat.le_refl i
  | tail _ hedge ih => exact Nat.le_of_lt (Nat.lt_of_le_of_lt ih hedge.lt)

-- What the operations of a thread, and the latest signal on a condition, come after.
def Knows (ops : List Op) (n i : Nat) (thr : ThrID) : Prop :=
  ∃ j op, j < n ∧ ops[j]? = some op ∧ op.Belongs thr ∧ Reach ops i j

def Heard (ops : List Op) (n i : Nat) (cond : Addr) : Prop :=
  ∃ s op, s < n ∧ ops[s]? = some op ∧ op.signals = some cond ∧
    (∀ k c, s < k → k < n → ops[k]? = some c → c.signals ≠ some cond) ∧ Reach ops i s

theorem knows_succ (hop : ops[n]? = some op) (i : Nat) (thr : ThrID) :
    Knows ops (n + 1) i thr ↔ Knows ops n i thr ∨ (op.Belongs thr ∧ Reach ops i n) := by
  constructor
  · rintro ⟨j, o, hj, ho, hbelongs, hreach⟩
    rcases Nat.lt_succ_iff_lt_or_eq.mp hj with hlt | rfl
    · exact Or.inl ⟨j, o, hlt, ho, hbelongs, hreach⟩
    · cases hop.symm.trans ho
      exact Or.inr ⟨hbelongs, hreach⟩
  · rintro (⟨j, o, hj, ho, hbelongs, hreach⟩ | ⟨hbelongs, hreach⟩)
    · exact ⟨j, o, Nat.lt_succ_of_lt hj, ho, hbelongs, hreach⟩
    · exact ⟨n, op, Nat.lt_succ_self n, hop, hbelongs, hreach⟩

theorem heard_succ (hop : ops[n]? = some op) (i : Nat) (cond : Addr) :
    Heard ops (n + 1) i cond ↔
      if op.signals = some cond then Reach ops i n else Heard ops n i cond := by
  by_cases hsignals : op.signals = some cond
  · rw [if_pos hsignals]
    constructor
    · rintro ⟨s, o, hs, ho, hsig, hlatest, hreach⟩
      rcases Nat.lt_succ_iff_lt_or_eq.mp hs with hlt | rfl
      · exact absurd hsignals (hlatest n op hlt (Nat.lt_succ_self n) hop)
      · exact hreach
    · intro hreach
      exact ⟨n, op, Nat.lt_succ_self n, hop, hsignals, fun k c hk hkn => by omega, hreach⟩
  · rw [if_neg hsignals]
    constructor
    · rintro ⟨s, o, hs, ho, hsig, hlatest, hreach⟩
      rcases Nat.lt_succ_iff_lt_or_eq.mp hs with hlt | rfl
      · exact ⟨s, o, hlt, ho, hsig,
          fun k c hsk hkn => hlatest k c hsk (Nat.lt_succ_of_lt hkn), hreach⟩
      · cases hop.symm.trans ho
        exact absurd hsig hsignals
    · rintro ⟨s, o, hs, ho, hsig, hlatest, hreach⟩
      refine ⟨s, o, Nat.lt_succ_of_lt hs, ho, hsig, fun k c hsk hkn hc => ?_, hreach⟩
      rcases Nat.lt_succ_iff_lt_or_eq.mp hkn with hlt | rfl
      · exact hlatest k c hsk hlt hc
      · cases hop.symm.trans hc
        exact hsignals

-- What comes before an operation is what its thread, and the thread or the condition that it
-- receives from, had before.
theorem reach_iff (hop : ops[n]? = some op) (i : Nat) (hi : i < n) :
    Reach ops i n ↔ Knows ops n i op.me ∨ (∃ thr, op.joins = some thr ∧ Knows ops n i thr) ∨
      ∃ cond, op.waits = some cond ∧ Heard ops n i cond := by
  constructor
  · intro hreach
    rcases ReflTransGen.cases_tail hreach with heq | ⟨j, hij, hedge⟩
    · omega
    · cases hedge with
      | program a b hlt ha hb hbelongs =>
          cases hop.symm.trans hb
          exact Or.inl ⟨j, a, hlt, ha, hbelongs, hij⟩
      | join a b thr hlt ha hb hjoin hbelongs =>
          cases hop.symm.trans hb
          exact Or.inr (Or.inl ⟨thr, hjoin, j, a, hlt, ha, hbelongs, hij⟩)
      | signal a b cond hlt ha hb hsignal hwait hlatest =>
          cases hop.symm.trans hb
          exact Or.inr (Or.inr ⟨cond, hwait, j, a, hlt, ha, hsignal, hlatest, hij⟩)
  · rintro (⟨j, a, hlt, ha, hbelongs, hij⟩ | ⟨thr, hjoin, j, a, hlt, ha, hbelongs, hij⟩ |
      ⟨cond, hwait, j, a, hlt, ha, hsignal, hlatest, hij⟩)
    · exact hij.tail (Edge.program a op hlt ha hop hbelongs)
    · exact hij.tail (Edge.join a op thr hlt ha hop hjoin hbelongs)
    · exact hij.tail (Edge.signal a op cond hlt ha hop hsignal hwait hlatest)

theorem not_knows_later (thr : ThrID) : ¬Knows ops n n thr := by
  rintro ⟨j, o, hj, _, _, hreach⟩
  have := Reach.le hreach
  omega

theorem not_heard_later (cond : Addr) : ¬Heard ops n n cond := by
  rintro ⟨s, o, hs, _, _, _, hreach⟩
  have := Reach.le hreach
  omega

theorem knows_own (i : Nat) (a : Op) (hi : i < n) (ha : ops[i]? = some a) :
    Knows ops n i a.me := ⟨i, a, hi, ha, Or.inl rfl, ReflTransGen.refl⟩

end

end Thrille.VectorClockTracker
