import Mathlib.Data.List.Sort
import Thrille.Files.ParseFile
import Thrille.Files.RoundTrip

namespace Thrille

open Text

-- The address list of a check: the argument, and the file that it names where it is neither.
def mainAddrlist (argument file : List Char) : Option (List String) :=
  if contains "all" argument then some ["all"]
  else if contains "none" argument then some []
  else do
    let first :: fin := readlines file | none
    guard (contains "begin_addr_list" first)
    return (fin.takeWhile fun item => !contains "end_addr_list" item).map fun item =>
      String.ofList (strip item)

namespace AddrPoints

-- The insertion into a `std::set`, which keeps the addresses in order and each of them once.
def addAddressToSchedule (addressToSchedule : List Addr) (addr : Addr) : List Addr :=
  if addr ∈ addressToSchedule then addressToSchedule
  else addressToSchedule.orderedInsert (· ≤ ·) addr

-- What the logger keeps of the addresses that it reads.
def stored (points : AddrPoints) : AddrPoints :=
  { points with addressToSchedule := points.addressToSchedule.foldl addAddressToSchedule [] }

theorem mem_addAddressToSchedule (addrs : List Addr) (addr a : Addr) :
    a ∈ addAddressToSchedule addrs addr ↔ a = addr ∨ a ∈ addrs := by
  unfold addAddressToSchedule
  split
  · rename_i hmem
    refine ⟨Or.inr, fun h => h.elim (fun heq => heq ▸ hmem) id⟩
  · exact List.mem_orderedInsert _

theorem sorted_addAddressToSchedule (addrs : List Addr) (addr : Addr)
    (hsorted : addrs.Pairwise (· < ·)) : (addAddressToSchedule addrs addr).Pairwise (· < ·) := by
  unfold addAddressToSchedule
  split
  · exact hsorted
  · rename_i hnew
    have hle : (addrs.orderedInsert (· ≤ ·) addr).Pairwise (· ≤ ·) :=
      List.Pairwise.orderedInsert addr addrs (hsorted.imp Nat.le_of_lt)
    have hnodup : (addrs.orderedInsert (· ≤ ·) addr).Nodup := by
      rw [(List.perm_orderedInsert (· ≤ ·) addr addrs).nodup_iff, List.nodup_cons]
      exact ⟨hnew, hsorted.imp Nat.ne_of_lt⟩
    exact (hle.and hnodup).imp fun h => Nat.lt_of_le_of_ne h.1 h.2

theorem foldl_addAddressToSchedule (addrs start : List Addr) (hsorted : start.Pairwise (· < ·)) :
    (addrs.foldl addAddressToSchedule start).Pairwise (· < ·) ∧
      ∀ a, a ∈ addrs.foldl addAddressToSchedule start ↔ a ∈ addrs ∨ a ∈ start := by
  induction addrs generalizing start with
  | nil => exact ⟨hsorted, fun a => by simp⟩
  | cons addr addrs ih =>
      obtain ⟨hnext, hmem⟩ := ih _ (sorted_addAddressToSchedule start addr hsorted)
      refine ⟨hnext, fun a => ?_⟩
      rw [List.foldl_cons, hmem a, mem_addAddressToSchedule, List.mem_cons]
      tauto

-- A set is printed in order, whatever the order was in which it was read.
theorem stored_eq_self (addrs : List Addr) (hsorted : addrs.Pairwise (· < ·)) :
    addrs.foldl addAddressToSchedule [] = addrs := by
  obtain ⟨hstored, hmem⟩ := foldl_addAddressToSchedule addrs [] List.Pairwise.nil
  have hperm : (addrs.foldl addAddressToSchedule []).Perm addrs := by
    rw [List.perm_ext_iff_of_nodup (hstored.imp Nat.ne_of_lt) (hsorted.imp Nat.ne_of_lt)]
    intro a
    rw [hmem a]
    simp
  exact hperm.eq_of_pairwise (fun a b _ _ hab hba => absurd (hab.trans hba) (Nat.lt_irrefl a))
    hstored hsorted

end AddrPoints

theorem strtoul_lt (text : List Char) : strtoul text < 2 ^ 64 := by
  unfold strtoul
  dsimp only
  split
  · exact Nat.mod_lt _ (by decide)
  · omega

namespace Logger

theorem readAddresses_sound (turns : Nat) (file rest : List Char) (points : AddrPoints)
    (h : readAddresses turns file = some (points, rest)) : points.Sound := by
  have hnone (scheduleAll : Bool) : AddrPoints.Sound { scheduleAll } := nofun
  induction turns generalizing file points rest with
  | zero => cases h
  | succ turns ih =>
      rw [readAddresses] at h
      obtain ⟨⟨line, file⟩, _, h⟩ := Option.bind_eq_some_iff.mp h
      dsimp only at h
      split at h
      · obtain ⟨rfl, _⟩ := Prod.mk.inj (Option.some.inj h)
        exact hnone false
      · split at h
        · obtain ⟨_, _, h⟩ := Option.bind_eq_some_iff.mp h
          obtain ⟨_, _, h⟩ := Option.bind_eq_some_iff.mp h
          obtain ⟨rfl, _⟩ := Prod.mk.inj (Option.some.inj h)
          exact hnone true
        · obtain ⟨⟨points', rest'⟩, hrest, h⟩ := Option.bind_eq_some_iff.mp h
          obtain ⟨rfl, _⟩ := Prod.mk.inj (Option.some.inj h)
          intro addr haddr
          rcases List.mem_cons.mp haddr with rfl | haddr
          · exact strtoul_lt line
          · exact ih file rest' points' hrest addr haddr

theorem setSchedulableAddresses_sound (turns : Nat) (file rest : List Char) (points : AddrPoints)
    (h : setSchedulableAddresses turns file = some (points, rest)) : points.Sound := by
  obtain ⟨⟨_, file⟩, _, h⟩ := Option.bind_eq_some_iff.mp h
  obtain ⟨_, _, h⟩ := Option.bind_eq_some_iff.mp h
  exact readAddresses_sound turns file rest points h

end Logger

namespace Schedule

-- Whatever comes behind the addresses, the parser reads these.
theorem addrlist_of_parseFile (points : AddrPoints) (log : List Char) (result : Schedule)
    (h : parseFile (points.record ++ log) = some result) :
    result.addrlist = points.addrlist := by
  have haddrs : ∀ x ∈ points.addrlist, '\n' ∉ x.toList :=
    fun x hx => (mem_addrlist points x hx).1.newline
  have hlines : readlines (points.record ++ log) = ("begin_addr_list".toList ++ ['\n']) ::
      (points.addrlist.map (fun x => x.toList ++ ['\n']) ++
        ("end_addr_list".toList ++ ['\n']) :: readlines log) := by
    rw [AddrPoints.record_eq, List.append_assoc, List.cons_append,
      readlines_opening "begin_addr_list" (by decide), List.append_assoc,
      readlines_addrs _ haddrs, List.append_assoc, List.singleton_append,
      readlines_opening "end_addr_list" (by decide)]
  rw [parseFile, hlines] at h
  obtain ⟨_, ⟨⟩, h⟩ := Option.bind_eq_some_iff.mp h
  obtain ⟨_, _, h⟩ := Option.bind_eq_some_iff.mp h
  rw [parseAddrlist_addrs points.addrlist (mem_addrlist points), Option.bind_eq_bind,
    Option.bind_some] at h
  obtain ⟨⟨schedule, error⟩, _, h⟩ := Option.bind_eq_some_iff.mp h
  obtain ⟨_, _, h⟩ := Option.bind_eq_some_iff.mp h
  obtain ⟨_, _, h⟩ := Option.bind_eq_some_iff.mp h
  rw [← Option.some.inj h]

-- One test of a check: the logger reads the addresses in front of the schedule and writes those
-- that it keeps in front of its log, and that is parsed.
def Tested (test_schedule result : Schedule) : Prop :=
  ∃ file turns points rest log, test_schedule.outputExactSchedule = some file ∧
    Logger.setSchedulableAddresses turns file = some (points, rest) ∧
    parseFile (points.stored.record ++ log) = some result

-- The logger reads the addresses, and the result of every test carries the list that the search
-- compares it with.
def ComesBack (addrlist : List String) : Prop :=
  ∀ test_schedule file, test_schedule.addrlist = addrlist →
    test_schedule.outputExactSchedule = some file →
      (∃ turns points rest,
        Logger.setSchedulableAddresses turns file = some (points, rest)) ∧
      ∀ result, Tested test_schedule result → result.addrlist = test_schedule.addrlist

-- A list as the logger writes it.
def AsWritten (addrlist : List String) : Prop :=
  addrlist = ["all"] ∨ ∃ addrs : List Addr, addrs.Pairwise (· < ·) ∧
    (∀ addr ∈ addrs, addr < 2 ^ 64) ∧ addrlist = addrs.map addrName

theorem asWritten_stored (points : AddrPoints) (hsound : points.Sound) :
    AsWritten points.stored.addrlist := by
  obtain ⟨hsorted, hmem⟩ :=
    AddrPoints.foldl_addAddressToSchedule points.addressToSchedule [] List.Pairwise.nil
  unfold AddrPoints.addrlist
  split
  · exact Or.inl rfl
  · refine Or.inr ⟨_, hsorted, fun addr haddr => ?_, rfl⟩
    have hread := (hmem addr).mp haddr
    rw [or_iff_left List.not_mem_nil] at hread
    exact hsound addr hread

-- Such a list is one that the logger keeps as it is.
theorem points_of_asWritten (addrlist : List String) (h : AsWritten addrlist) :
    ∃ points : AddrPoints, points.Sound ∧ points.addrlist = addrlist ∧
      points.read.stored.addrlist = addrlist := by
  rcases h with rfl | ⟨addrs, hsorted, hsound, rfl⟩
  · exact ⟨{ scheduleAll := true }, nofun, rfl, rfl⟩
  · refine ⟨{ addressToSchedule := addrs }, hsound, rfl, ?_⟩
    rw [AddrPoints.stored, AddrPoints.read, if_neg Bool.false_ne_true]
    simp only [AddrPoints.stored_eq_self addrs hsorted]
    rfl

-- A run that takes one decision.
def finishes : LogPoint where
  signal := none
  chosen := 0
  caller := 0
  description := "Thread_Finish"
  idaddr := 4198400
  enabled := [0]

theorem exists_parseFile (points : AddrPoints) :
    ∃ log result, parseFile (points.record ++ log) = some result := by
  let file : LogFile :=
    { points, schedule := [finishes], truncated := none, final := .endLog, cut := nofun }
  have hall (P : LogPoint → Prop) (hP : P finishes) : ∀ p ∈ file.schedule, P p := by
    intro p hp
    rw [List.mem_singleton.mp hp]
    exact hP
  have hlisted : finishes.Listed := by decide
  have hsound : file.Sound := by
    refine ⟨hall (fun p => Plain p.description.toList) ?_, trivial⟩
    unfold Plain
    decide
  have hparses : file.Parses := by
    refine ⟨List.cons_ne_nil _ _, rfl, hall _ nofun, hall _ ?_, nofun, ?_, trivial⟩
    · exact ⟨List.cons_ne_nil _ _, nofun⟩
    · exact Or.inr fun p hp => (Option.some.inj hp) ▸ hlisted
  have hparse := (file.parseFile_iff hsound).mpr hparses
  exact ⟨_, _, (congrArg parseFile (List.append_assoc _ _ _).symm).trans hparse⟩

-- So the lists that come back are those that the logger itself writes.
theorem comesBack_iff (addrlist : List String) : ComesBack addrlist ↔ AsWritten addrlist := by
  constructor
  · intro h
    have hfile : outputExactSchedule { addrlist } =
        some (outputAddrlist { addrlist } ++ ([] ++ "end_log".toList)) := rfl
    obtain ⟨⟨turns, points, rest, hread⟩, hresult⟩ := h { addrlist } _ rfl hfile
    obtain ⟨log, result, hparse⟩ := exists_parseFile points.stored
    have heq := hresult result ⟨_, turns, points, rest, log, hfile, hread, hparse⟩
    rw [addrlist_of_parseFile points.stored log result hparse] at heq
    have hsound := Logger.setSchedulableAddresses_sound turns _ rest points hread
    have hwritten := asWritten_stored points hsound
    rw [heq] at hwritten
    exact hwritten
  · intro h test_schedule file hlist hfile
    obtain ⟨points, hsound, hpoints, hstored⟩ := points_of_asWritten addrlist h
    obtain ⟨body, rfl⟩ : ∃ body, file = points.record ++ body := by
      obtain ⟨texts, _, hbody⟩ := Option.bind_eq_some_iff.mp hfile
      have hfront : test_schedule.outputAddrlist = points.record := by
        rw [← outputAddrlist_addrlist points test_schedule.schedule, hpoints, ← hlist]
        rfl
      rw [hfront] at hbody
      exact ⟨_, (Option.some.inj hbody).symm⟩
    refine ⟨⟨points.listed.length + 1, points.read, body, ?_⟩, ?_⟩
    · rw [Logger.setSchedulableAddresses_record points hsound, if_pos (Nat.lt_succ_self _)]
    · rintro result ⟨file', turns, points', rest, log, hfile', hread, hparse⟩
      rw [hfile] at hfile'
      obtain rfl := Option.some.inj hfile'
      rw [Logger.setSchedulableAddresses_record points hsound] at hread
      split at hread
      · obtain ⟨rfl, _⟩ := Prod.mk.inj (Option.some.inj hread)
        rw [addrlist_of_parseFile _ log result hparse, hstored, hlist]
      · cases hread

-- A schedule file whose addresses are not in order.
def outOfOrder : List Char := "begin_addr_list\n0x20\n0x10\nend_addr_list\n".toList

theorem not_comesBack_outOfOrder :
    mainAddrlist "schedule".toList outOfOrder = some ["0x20", "0x10"] ∧
      ¬ComesBack ["0x20", "0x10"] ∧
      ∃ result, Tested { addrlist := ["0x20", "0x10"] } result ∧
        result.addrlist = ["0x10", "0x20"] := by
  have hmain : mainAddrlist "schedule".toList outOfOrder = some ["0x20", "0x10"] := by
    decide +kernel
  have hread : ∃ rest, Logger.setSchedulableAddresses 3
      (outputAddrlist { addrlist := ["0x20", "0x10"] } ++ ([] ++ "end_log".toList)) =
        some ({ addressToSchedule := [32, 16] }, rest) := by
    exact ⟨"end_log".toList, by decide +kernel⟩
  obtain ⟨rest, hread⟩ := hread
  obtain ⟨log, result, hparse⟩ :=
    exists_parseFile (AddrPoints.stored { addressToSchedule := [32, 16] })
  have htested : Tested { addrlist := ["0x20", "0x10"] } result :=
    ⟨_, 3, _, rest, log, rfl, hread, hparse⟩
  have haddrlist : result.addrlist = ["0x10", "0x20"] := by
    rw [addrlist_of_parseFile _ log result hparse]
    decide +kernel
  refine ⟨hmain, fun hback => ?_, result, htested, haddrlist⟩
  have hsame := (hback { addrlist := ["0x20", "0x10"] } _ rfl rfl).2 result htested
  rw [haddrlist] at hsame
  exact absurd hsame (by decide)

end Schedule

end Thrille
