import Thrille.Files.Lines

namespace Thrille

open Text

-- An entry in the form that the two writers share.
inductive Written
  | sched (chosen caller : ThrID) (description : List Char) (idaddr : Addr) (enabled : List ThrID)
  | signal (chosen caller : ThrID) (idaddr : Addr) (cond : List Char) (oncond : List ThrID)

namespace Written

-- The lines before the list.
def front : Written → List Char
  | sched chosen caller description idaddr _ =>
      "SCHED".toList ++ '\n' :: (field "chosen" (decimal chosen) ++
        (field "caller" (decimal caller) ++ (field "typstr" description ++
          field "idaddr" (pointer idaddr))))
  | signal chosen caller idaddr cond _ =>
      "SIGNAL".toList ++ '\n' :: (field "signalled" (decimal chosen) ++
        (field "caller" (decimal caller) ++ (field "idaddr" (pointer idaddr) ++
          field "cond" cond)))

def listLine : Written → List Char
  | sched _ _ _ _ enabled => field "enable" (threadList enabled)
  | signal _ _ _ _ oncond => field "oncond" (threadList oncond)

def text (w : Written) : List Char := w.front ++ w.listLine

def info : Written → ReadInfo
  | sched chosen caller description idaddr _ => .sched chosen caller description idaddr
  | signal chosen caller idaddr cond _ => .signal chosen caller idaddr (strtoul cond)

-- Ids are `int`s, addresses are pointers, and the words fit in a line.
def Sound : Written → Prop
  | sched chosen caller description idaddr _ => chosen < 2 ^ 31 ∧ caller < 2 ^ 31 ∧
      Word description ∧ description.length ≤ 244 ∧ idaddr < 2 ^ 64
  | signal chosen caller idaddr cond _ => chosen < 2 ^ 31 ∧ caller < 2 ^ 31 ∧
      idaddr < 2 ^ 64 ∧ Word cond ∧ cond.length ≤ 244

def Fits (w : Written) : Prop := w.listLine.length < MAX_READ_SIZE

instance (w : Written) : Decidable w.Fits := inferInstanceAs (Decidable (_ < _))

end Written

namespace AddrPoints

def Sound (points : AddrPoints) : Prop := ∀ addr ∈ points.addressToSchedule, addr < 2 ^ 64

-- The addresses in the file, and what is read of it.
def listed (points : AddrPoints) : List Addr :=
  if points.scheduleAll then [] else points.addressToSchedule

def read (points : AddrPoints) : AddrPoints :=
  if points.scheduleAll then { scheduleAll := true }
  else { addressToSchedule := points.addressToSchedule }

end AddrPoints

namespace Logger

-- The tokens that end a log.
def endings : List String :=
  ["end_log", "thrille assert", "program deadlock", "segfault", "program assert"]

theorem startsWith_eq_false (word : String) (hne : word.toList ≠ []) (c : Char) (line : List Char)
    (hc : word.toList.head? ≠ some c) : startsWith word (c :: line) = false := by
  unfold startsWith
  cases hword : word.toList with
  | nil => exact absurd hword hne
  | cons d rest =>
      rw [hword] at hc
      have hcd : d ≠ c := by simpa using hc
      simp [List.isPrefixOf, hcd]

theorem isReadfileEnd_ending (word : String) (hword : word ∈ endings) (rest : List Char) :
    isReadfileEnd (word.toList ++ rest) = none := by
  have hall : ∀ word ∈ endings, '\n' ∉ word.toList ∧ word.toList.length ≤ 255 ∧
      word.toList ≠ [] := by decide
  obtain ⟨hline, hfits, hne⟩ := hall word hword
  have hstart : startsWith word (chunk 255 (word.toList ++ rest)).1 = true :=
    List.isPrefixOf_iff_prefix.mpr (chunk_front 255 word.toList rest hline hfits)
  rw [isReadfileEnd, fgets, if_neg (by simp [hne]), MAX_READ_SIZE]
  generalize chunk 255 (word.toList ++ rest) = read at hstart
  simp only [endings, List.mem_cons, List.not_mem_nil, or_false] at hword
  rcases hword with rfl | rfl | rfl | rfl | rfl <;> simp [hstart]

-- No ending begins as the token does.
theorem isReadfileEnd_token (c : Char) (rest : List Char)
    (hc : ∀ word ∈ endings, word.toList.head? ≠ some c) :
    isReadfileEnd (c :: rest) = some (chunk 255 (c :: rest)) := by
  have hall : ∀ word ∈ endings, word.toList ≠ [] := by decide
  obtain ⟨token, left, htoken⟩ := chunk_cons 254 c rest
  have hend : ∀ word ∈ endings, startsWith word (c :: token) = false :=
    fun word hword => startsWith_eq_false word (hall word hword) c token (hc word hword)
  simp only [endings, List.forall_mem_cons] at hend
  rw [isReadfileEnd, fgets, if_neg (by simp), MAX_READ_SIZE, htoken]
  simp [hend]

-- What is left of a list that does not fit is no token.
theorem reconstituteSchedule_left (turns : Nat) (c : Char) (rest : List Char)
    (hc : isDigit 10 c = true ∨ c = ',' ∨ c = '\n') :
    reconstituteSchedule turns (c :: rest) = none := by
  have hchar (d : Char) (hd : isDigit 10 d = false ∧ d ≠ ',' ∧ d ≠ '\n') : d ≠ c := by
    rintro rfl
    rcases hc with hc | hc | hc
    · rw [hd.1] at hc
      cases hc
    · exact hd.2.1 hc
    · exact hd.2.2 hc
  have hends : ∀ word ∈ endings, word.toList.head?.all (fun d =>
      !isDigit 10 d && d != ',' && d != '\n') = true := by decide
  have hS : 'S' ≠ c := hchar 'S' (by decide)
  cases turns with
  | zero => rfl
  | succ turns =>
      have htoken : isReadfileEnd (c :: rest) = some (chunk 255 (c :: rest)) := by
        apply isReadfileEnd_token
        intro word hword hd
        have hall := hends word hword
        rw [hd] at hall
        simp only [Option.all_some, Bool.and_eq_true, Bool.not_eq_true', bne_iff_ne] at hall
        exact hchar c ⟨hall.1.1, hall.1.2, hall.2⟩ rfl
      obtain ⟨token, left, hchunk⟩ := chunk_cons 254 c rest
      have hsched : startsWith "SCHED" (c :: token) = false :=
        startsWith_eq_false "SCHED" (by decide) c token (by simpa using hS)
      have hsignal : startsWith "SIGNAL" (c :: token) = false :=
        startsWith_eq_false "SIGNAL" (by decide) c token (by simpa using hS)
      rw [reconstituteSchedule, htoken, hchunk]
      simp [reconstituteEntry, hsched, hsignal]

-- The line that opens an entry.
theorem isReadfileEnd_opening (word : String) (hword : word = "SCHED" ∨ word = "SIGNAL")
    (rest : List Char) :
    isReadfileEnd (word.toList ++ '\n' :: rest) = some (word.toList ++ ['\n'], rest) := by
  have hends : ∀ word ∈ endings, word.toList.head? ≠ some 'S' := by decide
  obtain ⟨hline, hfits, letters, hletters⟩ : '\n' ∉ word.toList ∧ word.toList.length < 255 ∧
      ∃ letters, word.toList = 'S' :: letters := by
    rcases hword with rfl | rfl
    · exact ⟨by decide, by decide, _, rfl⟩
    · exact ⟨by decide, by decide, _, rfl⟩
  have hchunk := chunk_line 255 word.toList rest hline hfits
  rw [hletters] at hchunk ⊢
  rw [List.cons_append, isReadfileEnd_token 'S' _ hends, ← List.cons_append, hchunk]

-- The entry is read up to its list.
theorem readEntry_written (w : Written) (hsound : w.Sound) (rest : List Char) :
    ∃ token body, isReadfileEnd (w.text ++ rest) = some (token, body) ∧
      reconstituteEntry token body = some (w.info, clearLineFromReadfile (w.listLine ++ rest)) := by
  cases w with
  | sched chosen caller description idaddr enabled =>
      obtain ⟨hchosen, hcaller, hword, hlength, hidaddr⟩ := hsound
      have hpointer := length_pointer idaddr hidaddr
      refine ⟨"SCHED".toList ++ ['\n'], field "chosen" (decimal chosen) ++
        (field "caller" (decimal caller) ++ (field "typstr" description ++
          (field "idaddr" (pointer idaddr) ++ (field "enable" (threadList enabled) ++ rest)))),
        ?_, ?_⟩
      · unfold Written.text Written.front Written.listLine
        rw [List.append_assoc, entry_append]
        exact isReadfileEnd_opening "SCHED" (Or.inl rfl) _
      · have htoken : startsWith "SCHED" ("SCHED".toList ++ ['\n']) = true := by decide
        rw [reconstituteEntry, if_pos htoken, reconstituteSched,
          parseThrID_field "chosen" (by decide) chosen hchosen]
        simp only [Option.bind_eq_bind, Option.bind_some]
        rw [parseThrID_field "caller" (by decide) caller hcaller]
        simp only [Option.bind_some]
        rw [parseCharStar_field "typstr" (by decide) description hword hlength]
        simp only [Option.bind_some]
        rw [parseVoidStar_field "idaddr" (by decide) (pointer idaddr) (word_pointer idaddr)
          (by omega), strtoul_pointer_self idaddr hidaddr]
        rfl
  | signal chosen caller idaddr cond oncond =>
      obtain ⟨hchosen, hcaller, hidaddr, hword, hlength⟩ := hsound
      have hpointer := length_pointer idaddr hidaddr
      refine ⟨"SIGNAL".toList ++ ['\n'], field "signalled" (decimal chosen) ++
        (field "caller" (decimal caller) ++ (field "idaddr" (pointer idaddr) ++
          (field "cond" cond ++ (field "oncond" (threadList oncond) ++ rest)))), ?_, ?_⟩
      · unfold Written.text Written.front Written.listLine
        rw [List.append_assoc, entry_append]
        exact isReadfileEnd_opening "SIGNAL" (Or.inr rfl) _
      · have hsched : ¬ startsWith "SCHED" ("SIGNAL".toList ++ ['\n']) = true := by decide
        have htoken : startsWith "SIGNAL" ("SIGNAL".toList ++ ['\n']) = true := by decide
        rw [reconstituteEntry, if_neg hsched, reconstituteSignal]
        simp only [htoken, guard_true, Option.bind_eq_bind, Option.pure_def, Option.bind_some]
        rw [parseThrID_field "signalled" (by decide) chosen hchosen]
        simp only [Option.bind_some]
        rw [parseThrID_field "caller" (by decide) caller hcaller]
        simp only [Option.bind_some]
        rw [parseVoidStar_field "idaddr" (by decide) (pointer idaddr) (word_pointer idaddr)
          (by omega), strtoul_pointer_self idaddr hidaddr]
        simp only [Option.bind_some]
        rw [parseVoidStar_field "cond" (by decide) cond hword hlength]
        rfl

-- A turn of the loop, where the list fits and where it does not.
theorem reconstituteSchedule_fits (turns : Nat) (w : Written) (hsound : w.Sound) (hfits : w.Fits)
    (rest : List Char) :
    reconstituteSchedule (turns + 1) (w.text ++ rest) =
      (reconstituteSchedule turns rest).map (w.info :: ·) := by
  obtain ⟨token, body, htoken, hentry⟩ := readEntry_written w hsound rest
  have hclear : clearLineFromReadfile (w.listLine ++ rest) = rest := by
    cases w with
    | sched _ _ _ _ enabled =>
        exact clearLine_fits "enable" (by decide) _ rest (word_threadList enabled).newline hfits
    | signal _ _ _ _ oncond =>
        exact clearLine_fits "oncond" (by decide) _ rest (word_threadList oncond).newline hfits
  rw [reconstituteSchedule, htoken]
  simp only [hentry, hclear, Option.bind_eq_bind, Option.bind_some]
  cases reconstituteSchedule turns rest with
  | none => rfl
  | some infos => rfl

theorem reconstituteSchedule_long (turns : Nat) (w : Written) (hsound : w.Sound) (hlong : ¬ w.Fits)
    (rest : List Char) : reconstituteSchedule turns (w.text ++ rest) = none := by
  obtain ⟨token, body, htoken, hentry⟩ := readEntry_written w hsound rest
  have hleft : ∃ c left, clearLineFromReadfile (w.listLine ++ rest) = c :: left ∧
      (isDigit 10 c = true ∨ c = ',' ∨ c = '\n') := by
    have hbody (name : String) (hname : FieldName name) (threads : List ThrID)
        (hline : w.listLine = field name (threadList threads)) :
        ∃ c left, clearLineFromReadfile (w.listLine ++ rest) = c :: left ∧
          (isDigit 10 c = true ∨ c = ',' ∨ c = '\n') := by
      rw [Written.Fits, hline, not_lt] at hlong
      obtain ⟨c, left, hclear, hc⟩ := clearLine_long name hname (threadList threads) rest
        (word_threadList threads).newline hlong
      refine ⟨c, left, by rw [hline, hclear], ?_⟩
      rcases hc with hc | hc
      · rcases mem_threadList threads c hc with hdigit | hcomma
        · exact Or.inl hdigit
        · exact Or.inr (Or.inl hcomma)
      · exact Or.inr (Or.inr hc)
    cases w with
    | sched _ _ _ _ enabled => exact hbody "enable" (by decide) enabled rfl
    | signal _ _ _ _ oncond => exact hbody "oncond" (by decide) oncond rfl
  obtain ⟨c, left, hclear, hc⟩ := hleft
  cases turns with
  | zero => rfl
  | succ turns =>
      rw [reconstituteSchedule, htoken]
      simp only [hentry, hclear, Option.bind_eq_bind, Option.bind_some]
      rw [reconstituteSchedule_left turns c left hc]
      rfl

theorem reconstituteSchedule_written (ws : List Written) (hsound : ∀ w ∈ ws, w.Sound)
    (final : List Char) (hfinal : isReadfileEnd final = none) (turns : Nat) :
    reconstituteSchedule turns (ws.flatMap Written.text ++ final) =
      if ws.length < turns ∧ ∀ w ∈ ws, w.Fits then some (ws.map Written.info) else none := by
  induction ws generalizing turns with
  | nil =>
      cases turns with
      | zero => rfl
      | succ turns =>
          rw [List.flatMap_nil, List.nil_append, reconstituteSchedule, hfinal]
          simp
  | cons w ws ih =>
      rw [List.forall_mem_cons] at hsound
      rw [List.flatMap_cons, List.append_assoc]
      by_cases hfits : w.Fits
      · cases turns with
        | zero => rfl
        | succ turns =>
            rw [reconstituteSchedule_fits turns w hsound.1 hfits, ih hsound.2 turns]
            simp only [List.length_cons, Nat.add_lt_add_iff_right, List.forall_mem_cons, hfits,
              true_and]
            split
            · rfl
            · rfl
      · rw [reconstituteSchedule_long turns w hsound.1 hfits, if_neg]
        rw [List.forall_mem_cons]
        exact fun h => hfits h.2.1

-- No address is taken for a keyword of the list.
theorem startsWith_pointer (word : String) (hword : word = "end_addr_list" ∨ word = "all")
    (addr : Addr) (rest : List Char) : startsWith word (pointer addr ++ rest) = false := by
  have hhead (c : Char) (line : List Char) (hc : c = '0' ∨ c = '(') :
      startsWith word (c :: line) = false := by
    rcases hword with rfl | rfl <;> rcases hc with rfl | rfl <;> rfl
  rw [pointer]
  split
  · exact hhead '(' _ (Or.inr rfl)
  · exact hhead '0' _ (Or.inl rfl)

theorem readAddresses_pointers (addrs : List Addr) (haddrs : ∀ addr ∈ addrs, addr < 2 ^ 64)
    (turns : Nat) (rest : List Char) :
    readAddresses turns ((addrs.flatMap fun addr => pointer addr ++ ['\n']) ++
        ("end_addr_list".toList ++ '\n' :: rest)) =
      if addrs.length < turns then some ({ addressToSchedule := addrs }, rest) else none := by
  induction addrs generalizing turns with
  | nil =>
      cases turns with
      | zero => rfl
      | succ turns =>
          rw [List.flatMap_nil, List.nil_append, readAddresses,
            fgets_line MAX_READ_SIZE "end_addr_list".toList rest (by decide) (by decide)]
          rfl
  | cons addr addrs ih =>
      rw [List.forall_mem_cons] at haddrs
      have hlength := length_pointer addr haddrs.1
      have hvalue : strtoul (pointer addr ++ ['\n']) = addr :=
        strtoul_pointer addr haddrs.1 ['\n']
          (forall_mem_option (isDigit 16) _ (by decide))
      cases turns with
      | zero => rfl
      | succ turns =>
          have hend := startsWith_pointer "end_addr_list" (Or.inl rfl) addr ['\n']
          have hall := startsWith_pointer "all" (Or.inr rfl) addr ['\n']
          have hline (text : List Char) :
              (((addr :: addrs).flatMap fun addr => pointer addr ++ ['\n']) ++ text) =
                pointer addr ++ '\n' :: ((addrs.flatMap fun addr => pointer addr ++ ['\n']) ++
                  text) := by simp
          rw [hline, readAddresses, fgets_line MAX_READ_SIZE (pointer addr) _
            (word_pointer addr).newline (by rw [MAX_READ_SIZE]; omega)]
          simp only [Option.bind_eq_bind, Option.bind_some, hend, hall, Bool.false_eq_true,
            if_false, ih haddrs.2, hvalue, List.length_cons, Nat.add_lt_add_iff_right]
          split
          · rfl
          · rfl

theorem readAddresses_all (turns : Nat) (rest : List Char) :
    readAddresses turns ("all".toList ++ '\n' :: ("end_addr_list".toList ++ '\n' :: rest)) =
      if 0 < turns then some ({ scheduleAll := true }, rest) else none := by
  have hend : startsWith "end_addr_list" ("end_addr_list".toList ++ ['\n']) = true := by decide
  have hall : startsWith "all" ("all".toList ++ ['\n']) = true := by decide
  have hother : startsWith "end_addr_list" ("all".toList ++ ['\n']) = false := by decide
  cases turns with
  | zero => rfl
  | succ turns =>
      rw [readAddresses, fgets_line MAX_READ_SIZE "all".toList _ (by decide) (by decide)]
      simp only [Option.bind_eq_bind, Option.bind_some, hall, hother, Bool.false_eq_true,
        if_false, if_true]
      rw [fgets_line MAX_READ_SIZE "end_addr_list".toList rest (by decide) (by decide)]
      simp only [Option.bind_some, hend, guard_true, Option.pure_def, Nat.zero_lt_succ, if_true]

theorem setSchedulableAddresses_begin (turns : Nat) (text : List Char) :
    setSchedulableAddresses turns ("begin_addr_list".toList ++ '\n' :: text) =
      readAddresses turns text := by
  have hstart : startsWith "begin_addr_list" ("begin_addr_list".toList ++ ['\n']) = true := by
    decide
  rw [setSchedulableAddresses,
    fgets_line MAX_READ_SIZE "begin_addr_list".toList text (by decide) (by decide)]
  simp only [hstart, guard_true, Option.bind_eq_bind, Option.pure_def, Option.bind_some]

theorem frame_append (first last body rest : List Char) :
    (first ++ '\n' :: (body ++ (last ++ ['\n']))) ++ rest =
      first ++ '\n' :: (body ++ (last ++ '\n' :: rest)) := by
  simp only [List.append_assoc, List.cons_append, List.nil_append]

theorem setSchedulableAddresses_record (points : AddrPoints) (hpoints : points.Sound)
    (turns : Nat) (rest : List Char) :
    setSchedulableAddresses turns (points.record ++ rest) =
      if points.listed.length < turns then some (points.read, rest) else none := by
  have hrecord : points.record ++ rest = "begin_addr_list".toList ++ '\n' ::
      ((if points.scheduleAll then "all".toList ++ ['\n']
        else points.addressToSchedule.flatMap fun addr => pointer addr ++ ['\n']) ++
          ("end_addr_list".toList ++ '\n' :: rest)) := frame_append _ _ _ rest
  rw [hrecord, setSchedulableAddresses_begin]
  by_cases hall : points.scheduleAll = true
  · rw [AddrPoints.listed, AddrPoints.read, if_pos hall, if_pos hall, if_pos hall,
      List.append_assoc, List.cons_append, List.nil_append]
    exact readAddresses_all turns rest
  · rw [AddrPoints.listed, AddrPoints.read, if_neg hall, if_neg hall, if_neg hall]
    exact readAddresses_pointers points.addressToSchedule hpoints turns rest

-- A file of either writer can be read if and only if every list fits.
theorem readLog_written (points : AddrPoints) (hpoints : points.Sound) (ws : List Written)
    (hsound : ∀ w ∈ ws, w.Sound) (final : List Char) (hfinal : isReadfileEnd final = none)
    (turns : Nat) :
    readLog turns (points.record ++ (ws.flatMap Written.text ++ final)) =
      if points.listed.length < turns ∧ ws.length < turns ∧ ∀ w ∈ ws, w.Fits then
        some (points.read, ws.map Written.info)
      else none := by
  rw [readLog, setSchedulableAddresses_record points hpoints]
  by_cases hturns : points.listed.length < turns
  · rw [if_pos hturns]
    simp only [Option.bind_eq_bind, Option.bind_some, hturns, true_and]
    rw [reconstituteSchedule_written ws hsound final hfinal]
    split
    · rfl
    · rfl
  · rw [if_neg hturns, if_neg fun h => hturns h.1]
    rfl

end Logger

end Thrille
