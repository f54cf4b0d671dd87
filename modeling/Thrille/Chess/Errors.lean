import Thrille.Chess

namespace Thrille

namespace ChessChecker

-- The number of the first execution whose log shows `err`, counted from 1.
def firstShown (executions : List Schedule) (err : String) : Option Nat :=
  (executions.findIdx? fun sched => sched.error == some err).map (· + 1)

def RecordsErrors (self : ChessChecker) : Prop :=
  ∀ err, self.errors_found.lookup err = firstShown self.tested err

theorem firstShown_cons (sched : Schedule) (later : List Schedule) (err : String) :
    firstShown (sched :: later) err =
      if sched.error = some err then some 1 else (firstShown later err).map (· + 1) := by
  rw [firstShown, List.findIdx?_cons]
  by_cases hshown : sched.error = some err
  · simp [hshown]
  · simp [hshown, firstShown]

theorem firstShown_append (executions : List Schedule) (sched : Schedule) (err : String) :
    firstShown (executions ++ [sched]) err =
      (firstShown executions err).or
        (if sched.error = some err then some (executions.length + 1) else none) := by
  rw [firstShown, List.findIdx?_append, List.findIdx?_singleton]
  by_cases hshown : sched.error = some err
  · cases hbefore : executions.findIdx? fun sched => sched.error == some err with
    | none => simp [firstShown, hbefore, hshown]
    | some n => simp [firstShown, hbefore]
  · cases hbefore : executions.findIdx? fun sched => sched.error == some err with
    | none => simp [firstShown, hbefore, hshown]
    | some n => simp [firstShown, hbefore]

-- The executions after the initial one are recorded, under their number among all executions.
structure RecordsLater (self : ChessChecker) (first : Schedule) (later : List Schedule) :
    Prop where
  tested : self.tested = first :: later
  executions : self.executions = later.length + 1
  errors_found : ∀ err, self.errors_found.lookup err = (firstShown later err).map (· + 1)

section

variable {program : Schedule → Schedule} {first : Schedule} {later : List Schedule}

theorem recordAnyErrors_cases (self result : ChessChecker) (sched : Schedule)
    (hrun : self.recordAnyErrors sched = some result) :
    (result = self ∧ ∀ err, sched.error = some err → (self.errors_found.lookup err).isSome) ∨
    ∃ err, sched.error = some err ∧ self.errors_found.lookup err = none ∧
      result = { self with errors_found := self.errors_found ++ [(err, self.executions)] } := by
  unfold recordAnyErrors at hrun
  split at hrun
  case h_1 hnone =>
    left
    refine ⟨(Option.some.inj hrun).symm, fun err herr => ?_⟩
    simp [hnone] at herr
  case h_2 err hsome =>
    split at hrun
    case isTrue hmem =>
      left
      refine ⟨(Option.some.inj hrun).symm, fun err' herr => ?_⟩
      obtain rfl : err = err' := Option.some.inj (hsome.symm.trans herr)
      obtain ⟨entry, hentry, hkey⟩ := List.mem_map.mp hmem
      rw [List.lookup_isSome_iff]
      exact ⟨entry, hentry, by simp [hkey]⟩
    case isFalse hmem =>
      right
      refine ⟨err, hsome, ?_, ?_⟩
      · rw [List.lookup_eq_none_iff]
        intro entry hentry
        have hne : err ≠ entry.1 := fun heq => hmem (heq ▸ List.mem_map_of_mem hentry)
        simpa using hne
      · cases hexit : self.exit_on_error with
        | true => simp [hexit, guard] at hrun
        | false => simpa [hexit, guard] using hrun.symm

-- Running a schedule and recording what it shows keeps the record.
theorem RecordsLater.record (self result : ChessChecker) (target : Schedule)
    (hrecords : RecordsLater self first later)
    (hrun : (self.testSchedule program target).2.recordAnyErrors (program target) = some result) :
    RecordsLater result first (later ++ [program target]) := by
  obtain ⟨htested, hexecutions, herrors⟩ := hrecords
  rcases recordAnyErrors_cases _ _ _ hrun with ⟨rfl, hknown⟩ | ⟨err, hshown, hnew, rfl⟩
  · refine ⟨by simp [testSchedule, htested], by simp [testSchedule, hexecutions], fun err => ?_⟩
    rw [firstShown_append]
    simp only [testSchedule] at hknown ⊢
    by_cases herr : (program target).error = some err
    · have hbefore := hknown err herr
      simp only [herrors, Option.isSome_map] at hbefore
      obtain ⟨n, hn⟩ := Option.isSome_iff_exists.mp hbefore
      simp [herrors, hn]
    · simp [herrors, herr]
  · refine ⟨by simp [testSchedule, htested], by simp [testSchedule, hexecutions], fun err' => ?_⟩
    simp only [testSchedule] at hnew ⊢
    rw [firstShown_append, List.lookup_append, herrors]
    simp only [herrors, Option.map_eq_none_iff] at hnew
    by_cases heq : err' = err
    · subst heq
      simp [hnew, hshown, hexecutions]
    · have hother : ¬(program target).error = some err' := by
        intro h
        exact heq (Option.some.inj (h.symm.trans hshown))
      have hbeq : (err' == err) = false := by simpa using heq
      simp only [hother, if_false, Option.or_none, List.lookup_cons, hbeq, List.lookup_nil]

-- The other parts of a turn only touch the search stack.
theorem RecordsLater.congr (self other : ChessChecker) (hrecords : RecordsLater self first later)
    (htested : other.tested = self.tested) (hexecutions : other.executions = self.executions)
    (herrors : other.errors_found = self.errors_found) : RecordsLater other first later := by
  obtain ⟨htested', hexecutions', herrors'⟩ := hrecords
  exact ⟨htested.trans htested', hexecutions.trans hexecutions',
    fun err => herrors ▸ herrors' err⟩

theorem checkLoop_records (execution_bound turns : Nat) (self result : ChessChecker)
    (hrecords : RecordsLater self first later)
    (hrun : self.checkLoop program execution_bound turns = some result) :
    ∃ later', RecordsLater result first later' := by
  induction turns generalizing self later with
  | zero =>
      obtain rfl : self = result := Option.some.inj hrun
      exact ⟨later, hrecords⟩
  | succ turns ih =>
      rw [checkLoop] at hrun
      by_cases hcomplete : self.search_stack.isSearchComplete
      · rw [if_pos hcomplete] at hrun
        obtain rfl : self = result := Option.some.inj hrun
        exact ⟨later, hrecords⟩
      by_cases hpassed : execution_bound < self.executions
      · rw [if_neg hcomplete, if_pos hpassed] at hrun
        obtain rfl := Option.some.inj hrun
        exact ⟨later, hrecords.congr _ _ rfl rfl rfl⟩
      rw [if_neg hcomplete, if_neg hpassed] at hrun
      obtain ⟨⟨next, stack⟩, hgenerate, hrun⟩ := Option.bind_eq_some_iff.mp hrun
      cases next with
      | none =>
          obtain rfl := Option.some.inj hrun
          exact ⟨later, hrecords.congr _ _ rfl rfl rfl⟩
      | some curr_sched =>
          obtain ⟨preemptions, hpreemptions, hrun⟩ := Option.bind_eq_some_iff.mp hrun
          obtain ⟨_, hwithin, hrun⟩ := Option.bind_eq_some_iff.mp hrun
          obtain ⟨recorded, hrecord, hrun⟩ := Option.bind_eq_some_iff.mp hrun
          obtain ⟨regenerated, hregenerate, hrun⟩ := Option.bind_eq_some_iff.mp hrun
          obtain ⟨stack', hstack', hregenerated⟩ := Option.bind_eq_some_iff.mp hregenerate
          have hafter : RecordsLater recorded first (later ++ [program curr_sched]) :=
            RecordsLater.record { self with search_stack := stack } recorded curr_sched
              (hrecords.congr _ _ rfl rfl rfl) hrecord
          obtain rfl := Option.some.inj hregenerated
          exact ih { recorded with search_stack := stack' } (hafter.congr recorded _ rfl rfl rfl) hrun

end

theorem checkWithBound_records (program : Schedule → Schedule) (self result : ChessChecker)
    (execution_bound : Nat) (hexecutions : self.executions = 0) (htested : self.tested = [])
    (herrors : self.errors_found = [])
    (hrun : self.checkWithBound program execution_bound = some result) :
    ∃ later, RecordsLater result (program { addrlist := self.addrlist }) later := by
  obtain ⟨⟨first, started⟩, hinitial, hrun⟩ := Option.bind_eq_some_iff.mp hrun
  obtain ⟨generated, hgenerate, hrun⟩ := Option.bind_eq_some_iff.mp hrun
  obtain ⟨_, hempty, hinitial⟩ := Option.bind_eq_some_iff.mp hinitial
  obtain ⟨stack, hstack, hgenerated⟩ := Option.bind_eq_some_iff.mp hgenerate
  obtain ⟨rfl, rfl⟩ := Prod.mk.inj (Option.some.inj hinitial)
  obtain rfl := Option.some.inj hgenerated
  have hstart : RecordsLater
      { (self.testSchedule program { addrlist := self.addrlist }).2 with search_stack := stack }
      (program { addrlist := self.addrlist }) [] :=
    ⟨by simp [testSchedule, htested], by simp [testSchedule, hexecutions],
      by simp [testSchedule, herrors, firstShown]⟩
  exact checkLoop_records execution_bound (execution_bound + 1) _ _ hstart hrun

-- The checker's record is complete, and names the first execution for each error, exactly when
-- the initial execution, which it never looks at, shows none.
theorem checkWithBound_recordsErrors_iff (program : Schedule → Schedule)
    (bound execution_bound : Nat) (addrlist : List String) (exit_on_error : Bool)
    (result : ChessChecker)
    (hrun : { ChessChecker.new bound addrlist with exit_on_error }.checkWithBound program
      execution_bound = some result) :
    result.RecordsErrors ↔ (program { addrlist }).error = none := by
  obtain ⟨later, htested, _, herrors⟩ := checkWithBound_records program _ result execution_bound
    rfl rfl rfl hrun
  change result.tested = program { addrlist } :: later at htested
  constructor
  · intro hrecords
    by_contra hshows
    obtain ⟨err, herr⟩ := Option.ne_none_iff_exists'.mp hshows
    have hfirst := hrecords err
    rw [herrors, htested, firstShown_cons, if_pos herr] at hfirst
    obtain ⟨n, hn, hsucc⟩ := Option.map_eq_some_iff.mp hfirst
    obtain ⟨m, -, hm⟩ := Option.map_eq_some_iff.mp hn
    omega
  · intro hnone err
    rw [herrors, htested, firstShown_cons, hnone, if_neg nofun]

-- A program with one thread that always crashes.
def alwaysCrashes (target : Schedule) : Schedule :=
  { schedule := [{ chosen := some "0", caller := some "0", type := "Before_Create"
                   addr := "0x400b20", enabled := [some "0"] }]
    addrlist := target.addrlist
    error := some "segfault thread 0" }

theorem checkWithBound_recordsErrors_iff_alwaysCrashes :
    ∃ result, (ChessChecker.new 0 []).checkWithBound alwaysCrashes 10 = some result ∧
      (result.RecordsErrors ↔ (alwaysCrashes { addrlist := [] }).error = none) :=
  ⟨_, rfl, checkWithBound_recordsErrors_iff alwaysCrashes 0 10 [] false _ rfl⟩

-- The only execution crashes, and the completed check reports no error.
theorem checkWithBound_misses_alwaysCrashes :
    ∃ result, (ChessChecker.new 0 []).checkWithBound alwaysCrashes 10 = some result ∧
      result.completed_search = true ∧
      result.tested.map (·.error) = [some "segfault thread 0"] ∧
      result.errors_found = [] ∧ ¬result.RecordsErrors := by
  refine ⟨_, rfl, rfl, rfl, rfl, fun hrecords => ?_⟩
  exact absurd (hrecords "segfault thread 0") (by decide)

end ChessChecker

end Thrille
