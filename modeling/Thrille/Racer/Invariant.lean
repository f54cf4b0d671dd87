import Thrille.Racer.HappensBefore

namespace Thrille.VectorClockTracker

open Relation

def Op.sends (op : Op) : Bool := op.creates.isSome || op.signals.isSome

instance (op : Op) (thr : ThrID) : Decidable (op.Belongs thr) :=
  inferInstanceAs (Decidable (_ ∨ _))

-- The clock of the thread of an operation, with what the operation receives.
def received (self : VectorClockTracker) (op : Op) (other : ThrID) : Nat :=
  max (self.time op.me other)
    (max (op.joins.elim 0 fun thr => self.time thr other)
      (op.waits.elim 0 fun cond => self.msgTime cond other))

theorem time_apply (self : VectorClockTracker) (op : Op) (thr other : ThrID)
    (hne : op.creates ≠ some op.me) :
    (self.apply op).time thr other =
      if op.Belongs thr then self.received op other + (if op.sends ∧ other = thr then 1 else 0)
      else self.time thr other := by
  cases op with
  | beforeCreate me child =>
      have hchild : me ≠ child := fun h => hne (congrArg some h.symm)
      simp only [apply, time_beforeCreate self thr other me child hchild, Op.Belongs, Op.me,
        Op.creates, Op.sends, received, Op.joins, Op.waits, Option.elim_none, Option.some.injEq]
      by_cases hthr : thr = child
      · subst hthr
        by_cases hother : other = thr
        · simp [hother]
        · simp [hother]
      · by_cases hme : me = thr
        · subst hme
          by_cases hother : me = other
          · subst hother
            simp [hchild]
          · have hother' : ¬other = me := fun h => hother h.symm
            simp [hother, hother', hchild]
        · have hthr' : ¬child = thr := Ne.symm hthr
          simp [hme, hthr, hthr']
  | afterJoin me thrjoined =>
      simp only [apply, time_afterJoin, Op.Belongs, Op.me, Op.creates, Op.sends, Op.signals,
        received, Op.joins, Op.waits]
      by_cases hme : me = thr <;> simp [hme]
  | beforeSignal me cond =>
      simp only [apply, time_beforeSignal, Op.Belongs, Op.me, Op.creates, Op.sends, Op.signals,
        received, Op.joins, Op.waits]
      by_cases hme : me = thr
      · subst hme
        by_cases hother : me = other
        · simp [hother]
        · simp [hother, Ne.symm hother]
      · simp [hme]
  | afterWait me cond =>
      simp only [apply, time_afterWait, Op.Belongs, Op.me, Op.creates, Op.sends, Op.signals,
        received, Op.joins, Op.waits]
      by_cases hme : me = thr <;> simp [hme]
  | access me =>
      simp only [apply, Op.Belongs, Op.me, Op.creates, Op.sends, Op.signals, received, Op.joins,
        Op.waits]
      by_cases hme : me = thr <;> simp [hme]

theorem msgTime_apply (self : VectorClockTracker) (op : Op) (cond : Addr) (other : ThrID) :
    (self.apply op).msgTime cond other =
      if op.signals = some cond then self.time op.me other else self.msgTime cond other := by
  cases op with
  | beforeSignal me c =>
      simp only [apply, msgTime_beforeSignal, Op.signals, Op.me, Option.some.injEq]
  | _ => rfl

-- The tracker right before the `n`-th operation.
def timeAt (ops : List Op) (n : Nat) (thr other : ThrID) : Nat := (stateAt ops n).time thr other

def msgTimeAt (ops : List Op) (n : Nat) (cond : Addr) (other : ThrID) : Nat :=
  (stateAt ops n).msgTime cond other

def Created (ops : List Op) (n : Nat) (thr : ThrID) : Prop :=
  thr = 0 ∨ ∃ o ∈ ops.take n, o.creates = some thr

def Joined (ops : List Op) (n : Nat) (thr : ThrID) : Prop :=
  ∃ o ∈ ops.take n, o.joins = some thr

section

variable {ops : List Op} {n : Nat} {op : Op}

theorem stateAt_succ (hop : ops[n]? = some op) :
    stateAt ops (n + 1) = (stateAt ops n).apply op := by
  simp only [stateAt, List.take_add_one, hop, Option.toList_some, List.foldl_append,
    List.foldl_cons, List.foldl_nil]

theorem mem_take_succ (hop : ops[n]? = some op) (o : Op) :
    o ∈ ops.take (n + 1) ↔ o ∈ ops.take n ∨ o = op := by
  rw [List.take_add_one, hop, Option.toList_some, List.mem_append, List.mem_singleton]

theorem created_succ (hop : ops[n]? = some op) (thr : ThrID) :
    Created ops (n + 1) thr ↔ Created ops n thr ∨ op.creates = some thr := by
  simp only [Created, mem_take_succ hop]
  constructor
  · rintro (h | ⟨o, ho | rfl, h⟩)
    · exact Or.inl (Or.inl h)
    · exact Or.inl (Or.inr ⟨o, ho, h⟩)
    · exact Or.inr h
  · rintro ((h | ⟨o, ho, h⟩) | h)
    · exact Or.inl h
    · exact Or.inr ⟨o, Or.inl ho, h⟩
    · exact Or.inr ⟨op, Or.inr rfl, h⟩

theorem joined_succ (hop : ops[n]? = some op) (thr : ThrID) :
    Joined ops (n + 1) thr ↔ Joined ops n thr ∨ op.joins = some thr := by
  simp only [Joined, mem_take_succ hop]
  constructor
  · rintro ⟨o, ho | rfl, h⟩
    · exact Or.inl ⟨o, ho, h⟩
    · exact Or.inr h
  · rintro (⟨o, ho, h⟩ | h)
    · exact ⟨o, Or.inl ho, h⟩
    · exact ⟨op, Or.inr rfl, h⟩

theorem Created.mono {i : Nat} {thr : ThrID} (h : Created ops i thr) (hin : i ≤ n) :
    Created ops n thr := by
  rcases h with h | ⟨o, ho, h⟩
  · exact Or.inl h
  · exact Or.inr ⟨o, (List.take_prefix_take_left hin).mem ho, h⟩

theorem Joined.mono {i : Nat} {thr : ThrID} (h : Joined ops i thr) (hin : i ≤ n) :
    Joined ops n thr := by
  obtain ⟨o, ho, h⟩ := h
  exact ⟨o, (List.take_prefix_take_left hin).mem ho, h⟩

theorem Allowed.not_created (h : Allowed (ops.take n) op) (child : ThrID)
    (hcreates : op.creates = some child) : ¬Created ops n child := by
  obtain ⟨hzero, hnone⟩ := h.fresh child hcreates
  rintro (h0 | ⟨o, ho, h⟩)
  · exact hzero h0
  · exact (hnone o ho).1 h

theorem Allowed.not_self (h : Allowed (ops.take n) op) : op.creates ≠ some op.me := fun hself =>
  h.not_created op.me hself h.born

theorem Op.Belongs.created (a : Op) {i : Nat} {thr : ThrID} (hvalid : Valid ops)
    (ha : ops[i]? = some a) (h : a.Belongs thr) : Created ops (i + 1) thr := by
  rcases h with rfl | h
  · exact (created_succ ha a.me).mpr (Or.inl (hvalid i a ha).born)
  · exact (created_succ ha thr).mpr (Or.inr h)

theorem Knows.created {i : Nat} {thr : ThrID} (hvalid : Valid ops) (h : Knows ops n i thr) :
    Created ops n thr := by
  obtain ⟨j, a, hj, ha, hbelongs, _⟩ := h
  exact (hbelongs.created a hvalid ha).mono hj

theorem Op.signals_only (op : Op) {cond : Addr} (hsignals : op.signals = some cond) :
    op.joins = none ∧ op.waits = none := by
  cases op with
  | beforeSignal me c => exact ⟨rfl, rfl⟩
  | _ => cases hsignals

theorem reach_iff_knows (hop : ops[n]? = some op) (hjoins : op.joins = none)
    (hwaits : op.waits = none) (i : Nat) (hi : i < n) :
    Reach ops i n ↔ Knows ops n i op.me := by
  rw [reach_iff hop i hi, hjoins, hwaits]
  simp

-- A thread that an operation belongs to knows nothing that the operation does not come after.
theorem Knows.reach {i : Nat} {thr : ThrID} (hvalid : Valid ops) (hop : ops[n]? = some op)
    (hi : i < n) (hbelongs : op.Belongs thr) (h : Knows ops n i thr) : Reach ops i n := by
  rcases hbelongs with rfl | hcreates
  · exact (reach_iff hop i hi).mpr (Or.inl h)
  · exact absurd (h.created hvalid) ((hvalid n op hop).not_created thr hcreates)

-- What holds right before the `n`-th operation. `a` is the `i`-th operation, and `timeAt ops i
-- a.me a.me` is its stamp.
structure Inv (ops : List Op) (n : Nat) : Prop where
  positive : ∀ thr, Created ops n thr → 0 < timeAt ops n thr thr
  unborn : ∀ thr, ¬Created ops n thr → ∀ other,
    timeAt ops n thr other = 0 ∧ timeAt ops n other thr = 0
  unsent : ∀ thr, ¬Created ops n thr → ∀ cond, msgTimeAt ops n cond thr = 0
  ahead : ∀ thr, Created ops n thr → ¬Joined ops n thr → ∀ other, other ≠ thr →
    timeAt ops n other thr < timeAt ops n thr thr
  aheadMsg : ∀ thr, Created ops n thr → ¬Joined ops n thr → ∀ cond,
    msgTimeAt ops n cond thr < timeAt ops n thr thr
  knows : ∀ i a, i < n → ops[i]? = some a → ∀ thr,
    timeAt ops i a.me a.me ≤ timeAt ops n thr a.me ↔ Knows ops n i thr
  heard : ∀ i a, i < n → ops[i]? = some a → ∀ cond,
    timeAt ops i a.me a.me ≤ msgTimeAt ops n cond a.me ↔ Heard ops n i cond
  carries : ∀ i a, i < n → ops[i]? = some a → ∀ thr, Knows ops n i thr → ∀ other,
    timeAt ops i a.me other ≤ timeAt ops n thr other
  carriesMsg : ∀ i a, i < n → ops[i]? = some a → ∀ cond, Heard ops n i cond → ∀ other,
    timeAt ops i a.me other ≤ msgTimeAt ops n cond other

theorem timeAt_zero (thr other : ThrID) :
    timeAt ops 0 thr other = if thr = 0 ∧ other = 0 then 1 else 0 := by
  simp only [timeAt, stateAt, List.take_zero, List.foldl_nil, new, time, OrderedMap.getD_insert_eq]
  by_cases hthr : 0 = thr
  · subst hthr
    by_cases hother : 0 = other
    · subst hother
      simp
    · simp [hother, Ne.symm hother]
  · simp [hthr, Ne.symm hthr]

theorem msgTimeAt_zero (cond : Addr) (other : ThrID) : msgTimeAt ops 0 cond other = 0 := by
  simp [msgTimeAt, stateAt, new, msgTime]

theorem created_zero (thr : ThrID) : Created ops 0 thr ↔ thr = 0 := by
  simp [Created]

theorem inv_zero : Inv ops 0 where
  positive thr h := by simp [timeAt_zero, (created_zero thr).mp h]
  unborn thr h other := by
    have hthr : thr ≠ 0 := fun h0 => h (Or.inl h0)
    simp [timeAt_zero, hthr]
  unsent thr _ cond := msgTimeAt_zero cond thr
  ahead thr h _ other hne := by
    have hthr : thr = 0 := (created_zero thr).mp h
    subst hthr
    simp [timeAt_zero, hne]
  aheadMsg thr h _ cond := by simp [timeAt_zero, msgTimeAt_zero, (created_zero thr).mp h]
  knows i _ hi := absurd hi (Nat.not_lt_zero i)
  heard i _ hi := absurd hi (Nat.not_lt_zero i)
  carries i _ hi := absurd hi (Nat.not_lt_zero i)
  carriesMsg i _ hi := absurd hi (Nat.not_lt_zero i)

theorem le_received (op : Op) (other : ThrID) :
    timeAt ops n op.me other ≤ (stateAt ops n).received op other := le_max_left _ _

theorem joined_le_received (op : Op) (thr other : ThrID) (hjoins : op.joins = some thr) :
    timeAt ops n thr other ≤ (stateAt ops n).received op other := by
  refine le_trans (le_trans ?_ (le_max_left _ _)) (le_max_right _ _)
  rw [hjoins]
  exact Nat.le_refl _

theorem waited_le_received (op : Op) (cond : Addr) (other : ThrID)
    (hwaits : op.waits = some cond) :
    msgTimeAt ops n cond other ≤ (stateAt ops n).received op other := by
  refine le_trans (le_trans ?_ (le_max_right _ _)) (le_max_right _ _)
  rw [hwaits]
  exact Nat.le_refl _

theorem received_lt (op : Op) (other : ThrID) (t : Nat) (hme : timeAt ops n op.me other < t)
    (hjoin : ∀ thr, op.joins = some thr → timeAt ops n thr other < t)
    (hwait : ∀ cond, op.waits = some cond → msgTimeAt ops n cond other < t) :
    (stateAt ops n).received op other < t := by
  have hpos : 0 < t := Nat.lt_of_le_of_lt (Nat.zero_le _) hme
  refine max_lt hme (max_lt ?_ ?_)
  · cases hj : op.joins with
    | none => exact hpos
    | some thr => exact hjoin thr hj
  · cases hw : op.waits with
    | none => exact hpos
    | some cond => exact hwait cond hw

theorem msgTimeAt_succ (hop : ops[n]? = some op) (cond : Addr) (other : ThrID) :
    msgTimeAt ops (n + 1) cond other =
      if op.signals = some cond then timeAt ops n op.me other else msgTimeAt ops n cond other := by
  rw [msgTimeAt, stateAt_succ hop, msgTime_apply]
  rfl

theorem unborn_received (hinv : Inv ops n) (op : Op) (thr : ThrID) (hnew : ¬Created ops n thr) :
    (stateAt ops n).received op thr = 0 := by
  have hlt : (stateAt ops n).received op thr < 1 := by
    apply received_lt
    · exact Nat.lt_one_iff.mpr (hinv.unborn thr hnew op.me).2
    · intro t _
      exact Nat.lt_one_iff.mpr (hinv.unborn thr hnew t).2
    · intro cond _
      exact Nat.lt_one_iff.mpr (hinv.unsent thr hnew cond)
  exact Nat.lt_one_iff.mp hlt

theorem unsent_succ (hop : ops[n]? = some op) (hinv : Inv ops n) (thr : ThrID)
    (hnew : ¬Created ops (n + 1) thr) (cond : Addr) :
    msgTimeAt ops (n + 1) cond thr = 0 := by
  have hold : ¬Created ops n thr := fun h => hnew (h.mono (Nat.le_succ n))
  rw [msgTimeAt_succ hop]
  split
  · exact (hinv.unborn thr hold op.me).2
  · exact hinv.unsent thr hold cond

-- The operation comes after exactly the operations whose stamp it receives, and it receives all
-- that these knew.
theorem stamp_le_received (hop : ops[n]? = some op) (hinv : Inv ops n) (i : Nat) (a : Op)
    (hi : i < n) (ha : ops[i]? = some a) :
    timeAt ops i a.me a.me ≤ (stateAt ops n).received op a.me ↔ Reach ops i n := by
  have hme := hinv.knows i a hi ha op.me
  constructor
  · intro hle
    by_contra hreach
    have hnot := (not_congr (reach_iff hop i hi)).mp hreach
    have hlt : (stateAt ops n).received op a.me < timeAt ops i a.me a.me := by
      apply received_lt
      · have hself : ¬Knows ops n i op.me := fun h => hnot (Or.inl h)
        exact Nat.lt_of_not_le fun h => hself (hme.mp h)
      · intro thr hjoins
        have hthr : ¬Knows ops n i thr := fun h => hnot (Or.inr (Or.inl ⟨thr, hjoins, h⟩))
        exact Nat.lt_of_not_le fun h => hthr ((hinv.knows i a hi ha thr).mp h)
      · intro cond hwaits
        have hcond : ¬Heard ops n i cond := fun h => hnot (Or.inr (Or.inr ⟨cond, hwaits, h⟩))
        exact Nat.lt_of_not_le fun h => hcond ((hinv.heard i a hi ha cond).mp h)
    omega
  · intro hreach
    rcases (reach_iff hop i hi).mp hreach with h | ⟨thr, hjoins, h⟩ | ⟨cond, hwaits, h⟩
    · exact le_trans (hme.mpr h) (le_received op a.me)
    · exact le_trans ((hinv.knows i a hi ha thr).mpr h) (joined_le_received op thr a.me hjoins)
    · exact le_trans ((hinv.heard i a hi ha cond).mpr h) (waited_le_received op cond a.me hwaits)

theorem le_received_of_reach (hop : ops[n]? = some op) (hinv : Inv ops n) (i : Nat) (a : Op)
    (hi : i ≤ n) (ha : ops[i]? = some a) (hreach : Reach ops i n) (other : ThrID) :
    timeAt ops i a.me other ≤ (stateAt ops n).received op other := by
  rcases Nat.lt_or_eq_of_le hi with hlt | rfl
  · rcases (reach_iff hop i hlt).mp hreach with h | ⟨thr, hjoins, h⟩ | ⟨cond, hwaits, h⟩
    · exact le_trans (hinv.carries i a hlt ha op.me h other) (le_received op other)
    · exact le_trans (hinv.carries i a hlt ha thr h other)
        (joined_le_received op thr other hjoins)
    · exact le_trans (hinv.carriesMsg i a hlt ha cond h other)
        (waited_le_received op cond other hwaits)
  · cases hop.symm.trans ha
    exact le_received op other

theorem carriesMsg_succ (hop : ops[n]? = some op) (hinv : Inv ops n) (i : Nat) (a : Op)
    (hi : i < n + 1) (ha : ops[i]? = some a) (cond : Addr) (hheard : Heard ops (n + 1) i cond) (other : ThrID) :
    timeAt ops i a.me other ≤ msgTimeAt ops (n + 1) cond other := by
  rw [heard_succ hop] at hheard
  rw [msgTimeAt_succ hop]
  by_cases hsignals : op.signals = some cond
  · rw [if_pos hsignals] at hheard ⊢
    rcases Nat.lt_succ_iff_lt_or_eq.mp hi with hlt | rfl
    · obtain ⟨hjoins, hwaits⟩ := op.signals_only hsignals
      have hknows := (reach_iff_knows hop hjoins hwaits i hlt).mp hheard
      exact hinv.carries i a hlt ha op.me hknows other
    · cases hop.symm.trans ha
      exact Nat.le_refl _
  · rw [if_neg hsignals] at hheard ⊢
    rcases Nat.lt_succ_iff_lt_or_eq.mp hi with hlt | rfl
    · exact hinv.carriesMsg i a hlt ha cond hheard other
    · exact absurd hheard (not_heard_later cond)

section Step

variable (hvalid : Valid ops) (hop : ops[n]? = some op)

include hvalid hop

theorem timeAt_succ (thr other : ThrID) :
    timeAt ops (n + 1) thr other =
      if op.Belongs thr then
        (stateAt ops n).received op other + (if op.sends ∧ other = thr then 1 else 0)
      else timeAt ops n thr other := by
  rw [timeAt, stateAt_succ hop, time_apply _ _ _ _ (hvalid n op hop).not_self]
  rfl

variable (hinv : Inv ops n)

include hinv

-- A thread's own clock never goes back.
theorem own_le_succ (thr : ThrID) : timeAt ops n thr thr ≤ timeAt ops (n + 1) thr thr := by
  rw [timeAt_succ hvalid hop]
  by_cases hbelongs : op.Belongs thr
  · rw [if_pos hbelongs]
    rcases hbelongs with rfl | hcreates
    · have hle : timeAt ops n op.me op.me ≤ (stateAt ops n).received op op.me :=
        le_received op op.me
      omega
    · have hnew := (hvalid n op hop).not_created thr hcreates
      have hzero := (hinv.unborn thr hnew thr).1
      omega
  · rw [if_neg hbelongs]

theorem positive_succ (thr : ThrID) (hcreated : Created ops (n + 1) thr) :
    0 < timeAt ops (n + 1) thr thr := by
  rcases (created_succ hop thr).mp hcreated with hold | hcreates
  · exact Nat.lt_of_lt_of_le (hinv.positive thr hold) (own_le_succ hvalid hop hinv thr)
  · have hsends : op.sends = true := by simp [Op.sends, hcreates]
    have hbelongs : op.Belongs thr := Or.inr hcreates
    rw [timeAt_succ hvalid hop, if_pos hbelongs, if_pos ⟨hsends, rfl⟩]
    exact Nat.succ_pos _

theorem unborn_succ (thr : ThrID) (hnew : ¬Created ops (n + 1) thr) (other : ThrID) :
    timeAt ops (n + 1) thr other = 0 ∧ timeAt ops (n + 1) other thr = 0 := by
  have hbelongs : ¬op.Belongs thr := fun h => hnew (h.created op hvalid hop)
  have hold : ¬Created ops n thr := fun h => hnew (h.mono (Nat.le_succ n))
  obtain ⟨hrow, hcolumn⟩ := hinv.unborn thr hold other
  refine ⟨?_, ?_⟩
  · rw [timeAt_succ hvalid hop, if_neg hbelongs]
    exact hrow
  · rw [timeAt_succ hvalid hop]
    by_cases hother : op.Belongs other
    · have hne : thr ≠ other := fun h => hbelongs (h ▸ hother)
      have hnot : ¬(op.sends ∧ thr = other) := fun h => hne h.2
      rw [if_pos hother, if_neg hnot, unborn_received hinv op thr hold]
    · rw [if_neg hother]
      exact hcolumn

-- Nobody else, and no message, is as far as the thread itself: what others know of it was sent,
-- and its clock has moved on since.
theorem ahead_succ (thr : ThrID) (hcreated : Created ops (n + 1) thr)
    (hjoined : ¬Joined ops (n + 1) thr) (other : ThrID) (hne : other ≠ thr) :
    timeAt ops (n + 1) other thr < timeAt ops (n + 1) thr thr := by
  have hnotjoins : op.joins ≠ some thr := fun h => hjoined ((joined_succ hop thr).mpr (Or.inr h))
  have hplain : ¬(op.sends ∧ thr = other) := fun h => hne h.2.symm
  have hleft : timeAt ops (n + 1) other thr =
      if op.Belongs other then (stateAt ops n).received op thr else timeAt ops n other thr := by
    rw [timeAt_succ hvalid hop, if_neg hplain, Nat.add_zero]
  rw [hleft]
  rcases (created_succ hop thr).mp hcreated with hold | hcreates
  · have hstay : ¬Joined ops n thr := fun h => hjoined ((joined_succ hop thr).mpr (Or.inl h))
    have hahead := hinv.ahead thr hold hstay
    have hmono := own_le_succ hvalid hop hinv thr
    by_cases hother : op.Belongs other
    · rw [if_pos hother]
      by_cases hme : op.me = thr
      · -- The thread has created `other`.
        have hcreates : op.creates = some other := by
          rcases hother with h | h
          · exact absurd (h.symm.trans hme) hne
          · exact h
        have hsends : op.sends = true := by simp [Op.sends, hcreates]
        have hbelongs : op.Belongs thr := Or.inl hme
        rw [timeAt_succ hvalid hop, if_pos hbelongs, if_pos ⟨hsends, rfl⟩]
        exact Nat.lt_succ_self _
      · have hlt : (stateAt ops n).received op thr < timeAt ops n thr thr := by
          apply received_lt
          · exact hahead op.me hme
          · intro t hjoins
            exact hahead t fun h => hnotjoins (h ▸ hjoins)
          · intro cond _
            exact hinv.aheadMsg thr hold hstay cond
        omega
    · rw [if_neg hother]
      have hlt := hahead other hne
      omega
  · have hnew := (hvalid n op hop).not_created thr hcreates
    have hpos := positive_succ hvalid hop hinv thr hcreated
    by_cases hother : op.Belongs other
    · rw [if_pos hother, unborn_received hinv op thr hnew]
      exact hpos
    · rw [if_neg hother, (hinv.unborn thr hnew other).2]
      exact hpos

theorem aheadMsg_succ (thr : ThrID) (hcreated : Created ops (n + 1) thr)
    (hjoined : ¬Joined ops (n + 1) thr) (cond : Addr) :
    msgTimeAt ops (n + 1) cond thr < timeAt ops (n + 1) thr thr := by
  have hmono := own_le_succ hvalid hop hinv thr
  rw [msgTimeAt_succ hop]
  rcases (created_succ hop thr).mp hcreated with hold | hcreates
  · have hstay : ¬Joined ops n thr := fun h => hjoined ((joined_succ hop thr).mpr (Or.inl h))
    by_cases hsignals : op.signals = some cond
    · rw [if_pos hsignals]
      by_cases hme : op.me = thr
      · have hsends : op.sends = true := by simp [Op.sends, hsignals]
        have hbelongs : op.Belongs thr := Or.inl hme
        rw [timeAt_succ hvalid hop, if_pos hbelongs, if_pos ⟨hsends, rfl⟩]
        have hle : timeAt ops n op.me thr ≤ (stateAt ops n).received op thr := le_received op thr
        omega
      · have hlt := hinv.ahead thr hold hstay op.me hme
        omega
    · rw [if_neg hsignals]
      have hlt := hinv.aheadMsg thr hold hstay cond
      omega
  · have hnew := (hvalid n op hop).not_created thr hcreates
    have hpos := positive_succ hvalid hop hinv thr hcreated
    split
    · rw [(hinv.unborn thr hnew op.me).2]
      exact hpos
    · rw [hinv.unsent thr hnew cond]
      exact hpos

theorem stamp_succ (i : Nat) (a : Op) (hi : i < n + 1) (ha : ops[i]? = some a) (thr : ThrID) :
    timeAt ops i a.me a.me ≤ timeAt ops (n + 1) thr a.me ↔ Knows ops (n + 1) i thr := by
  rw [knows_succ hop, timeAt_succ hvalid hop]
  rcases Nat.lt_succ_iff_lt_or_eq.mp hi with hlt | rfl
  · by_cases hbelongs : op.Belongs thr
    · have hreach := stamp_le_received hop hinv i a hlt ha
      have hknows : Knows ops n i thr → Reach ops i n := fun h =>
        h.reach hvalid hop hlt hbelongs
      rw [if_pos hbelongs]
      by_cases hown : op.sends ∧ a.me = thr
      · -- The thread has counted on, from a stamp that it already had.
        have hself : Reach ops i n :=
          (knows_own i a hlt ha).reach hvalid hop hlt (hown.2 ▸ hbelongs)
        have hle := hreach.mpr hself
        rw [if_pos hown]
        exact ⟨fun _ => Or.inr ⟨hbelongs, hself⟩, fun _ => Nat.le_succ_of_le hle⟩
      · rw [if_neg hown, Nat.add_zero, hreach]
        exact ⟨fun h => Or.inr ⟨hbelongs, h⟩, fun h => h.elim hknows And.right⟩
    · rw [if_neg hbelongs, hinv.knows i a hlt ha thr]
      exact ⟨Or.inl, fun h => h.resolve_right fun h => hbelongs h.1⟩
  · cases hop.symm.trans ha
    have hnot : ¬Knows ops i i thr := not_knows_later thr
    by_cases hbelongs : op.Belongs thr
    · have hle : timeAt ops i op.me op.me ≤ (stateAt ops i).received op op.me :=
        le_received op op.me
      rw [if_pos hbelongs]
      exact ⟨fun _ => Or.inr ⟨hbelongs, ReflTransGen.refl⟩, fun _ => by omega⟩
    · have hallowed := hvalid i op hop
      have hne : thr ≠ op.me := fun h => hbelongs (Or.inl h.symm)
      have hlt := hinv.ahead op.me hallowed.born (fun ⟨o, ho, h⟩ => hallowed.unjoined o ho h) thr
        hne
      rw [if_neg hbelongs]
      exact ⟨fun h => absurd hlt (Nat.not_lt.mpr h),
        fun h => h.elim (absurd · hnot) fun h => absurd h.1 hbelongs⟩

theorem stampMsg_succ (i : Nat) (a : Op) (hi : i < n + 1) (ha : ops[i]? = some a) (cond : Addr) :
    timeAt ops i a.me a.me ≤ msgTimeAt ops (n + 1) cond a.me ↔ Heard ops (n + 1) i cond := by
  rw [heard_succ hop, msgTimeAt_succ hop]
  by_cases hsignals : op.signals = some cond
  · rw [if_pos hsignals, if_pos hsignals]
    rcases Nat.lt_succ_iff_lt_or_eq.mp hi with hlt | rfl
    · obtain ⟨hjoins, hwaits⟩ := op.signals_only hsignals
      rw [hinv.knows i a hlt ha op.me, reach_iff_knows hop hjoins hwaits i hlt]
    · cases hop.symm.trans ha
      exact ⟨fun _ => ReflTransGen.refl, fun _ => Nat.le_refl _⟩
  · rw [if_neg hsignals, if_neg hsignals]
    rcases Nat.lt_succ_iff_lt_or_eq.mp hi with hlt | rfl
    · exact hinv.heard i a hlt ha cond
    · cases hop.symm.trans ha
      have hallowed := hvalid i op hop
      have hlt := hinv.aheadMsg op.me hallowed.born
        (fun ⟨o, ho, h⟩ => hallowed.unjoined o ho h) cond
      exact ⟨fun h => absurd hlt (Nat.not_lt.mpr h), fun h => absurd h (not_heard_later cond)⟩

theorem carries_succ (i : Nat) (a : Op) (hi : i < n + 1) (ha : ops[i]? = some a) (thr : ThrID)
    (hknows : Knows ops (n + 1) i thr) (other : ThrID) :
    timeAt ops i a.me other ≤ timeAt ops (n + 1) thr other := by
  rw [timeAt_succ hvalid hop]
  have hle : i ≤ n := Nat.le_of_lt_succ hi
  by_cases hbelongs : op.Belongs thr
  · have hreach : Reach ops i n := by
      rcases (knows_succ hop i thr).mp hknows with h | h
      · rcases Nat.lt_or_eq_of_le hle with hlt | rfl
        · exact h.reach hvalid hop hlt hbelongs
        · exact ReflTransGen.refl
      · exact h.2
    have hreceived := le_received_of_reach hop hinv i a hle ha hreach other
    rw [if_pos hbelongs]
    omega
  · have hold : Knows ops n i thr :=
      ((knows_succ hop i thr).mp hknows).resolve_right fun h => hbelongs h.1
    rw [if_neg hbelongs]
    rcases Nat.lt_or_eq_of_le hle with hlt | rfl
    · exact hinv.carries i a hlt ha thr hold other
    · exact absurd hold (not_knows_later thr)

theorem inv_succ : Inv ops (n + 1) where
  positive := positive_succ hvalid hop hinv
  unborn := unborn_succ hvalid hop hinv
  unsent := unsent_succ hop hinv
  ahead := ahead_succ hvalid hop hinv
  aheadMsg := aheadMsg_succ hvalid hop hinv
  knows := stamp_succ hvalid hop hinv
  heard := stampMsg_succ hvalid hop hinv
  carries := carries_succ hvalid hop hinv
  carriesMsg := carriesMsg_succ hop hinv

end Step

theorem inv (hvalid : Valid ops) (hn : n ≤ ops.length) : Inv ops n := by
  induction n with
  | zero => exact inv_zero
  | succ n ih =>
      have hop : ops[n]? = some ops[n] := List.getElem?_eq_getElem hn
      exact inv_succ hvalid hop (ih (Nat.le_of_lt hn))

end

end Thrille.VectorClockTracker
