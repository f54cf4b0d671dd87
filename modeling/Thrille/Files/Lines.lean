import Thrille.Files.Reader

namespace Thrille

open Text

-- A text that a line can hold without being trimmed.
def Word (text : List Char) : Prop := ∀ c ∈ text, isSpace c = false

instance (text : List Char) : Decidable (Word text) :=
  List.decidableBAll (fun c => isSpace c = false) text

theorem Word.newline {text : List Char} (hword : Word text) : '\n' ∉ text :=
  fun h => absurd (hword '\n' h) (by decide)

theorem word_of_digits (base : Nat) (text : List Char) (htext : ∀ c ∈ text, isDigit base c = true) :
    Word text := fun c hc => isSpace_of_isDigit base c (htext c hc)

theorem isDigit_decimal (n : Nat) : ∀ c ∈ decimal n, isDigit 10 c = true :=
  isDigit_of_mem_toDigits 10 (by decide) (by decide) n

theorem decimal_ne_nil (n : Nat) : decimal n ≠ [] := Nat.toDigits_ne_nil

theorem word_decimal (n : Nat) : Word (decimal n) := word_of_digits 10 _ (isDigit_decimal n)

theorem word_pointer (p : Nat) : Word (pointer p) := by
  intro c hc
  by_cases hnull : p = 0
  · rw [pointer, if_pos hnull] at hc
    have hall : Word "(nil)".toList := by decide
    exact hall c hc
  · rw [pointer, if_neg hnull, List.mem_cons, List.mem_cons] at hc
    rcases hc with rfl | rfl | hc
    · decide
    · decide
    · exact isSpace_of_isDigit 16 c (isDigit_of_mem_toDigits 16 (by decide) (by decide) p c hc)

theorem not_mem_decimal (c : Char) (hc : isDigit 10 c = false) (n : Nat) : c ∉ decimal n := by
  intro h
  have hdigit := isDigit_decimal n c h
  rw [hc] at hdigit
  cases hdigit

theorem not_mem_pointer (c : Char) (hc : isDigit 16 c = false) (hother : c ∉ "(nil)0x".toList)
    (p : Nat) : c ∉ pointer p := by
  have hchars : "(nil)0x".toList = "(nil)".toList ++ ['0', 'x'] := rfl
  rw [hchars, List.mem_append, not_or] at hother
  rw [pointer]
  split
  · exact hother.1
  · have hdigits : c ∉ Nat.toDigits 16 p := by
      intro h
      have hdigit := isDigit_of_mem_toDigits 16 (by decide) (by decide) p c h
      rw [hc] at hdigit
      cases hdigit
    simp only [List.mem_cons, List.not_mem_nil, or_false, not_or] at hother ⊢
    exact ⟨hother.2.1, hother.2.2, hdigits⟩

theorem length_decimal (n : Nat) (hn : n < 2 ^ 31) : (decimal n).length ≤ 10 :=
  Nat.toDigits_length 10 n 10 (by decide) (by omega)

theorem length_pointer (p : Nat) (hp : p < 2 ^ 64) : (pointer p).length ≤ 18 := by
  by_cases hnull : p = 0
  · rw [pointer, if_pos hnull]
    decide
  · have hdigits : (Nat.toDigits 16 p).length ≤ 16 :=
      Nat.toDigits_length 16 p 16 (by decide) (by omega)
    rw [pointer, if_neg hnull]
    simp only [List.length_cons]
    omega

-- What a list of threads is written with.
theorem mem_threadList (threads : List ThrID) (c : Char) (hc : c ∈ threadList threads) :
    isDigit 10 c = true ∨ c = ',' := by
  obtain ⟨thr, -, hc⟩ := List.mem_flatMap.mp hc
  rcases List.mem_append.mp hc with hc | hc
  · exact Or.inl (isDigit_decimal thr c hc)
  · exact Or.inr (List.mem_singleton.mp hc)

theorem word_threadList (threads : List ThrID) : Word (threadList threads) := by
  intro c hc
  rcases mem_threadList threads c hc with hc | rfl
  · exact isSpace_of_isDigit 10 c hc
  · decide

-- What is written between the colon and the end of a line of the log.
def Plain (text : List Char) : Prop := Word text ∧ ':' ∉ text

theorem colon_not_digit (base : Nat) : isDigit base ':' = false := by
  have hvalue : charValue ':' = none := by decide
  rw [isDigit, hvalue]
  rfl

theorem plain_decimal (n : Nat) : Plain (decimal n) := by
  refine ⟨word_decimal n, ?_⟩
  intro h
  have hdigit := isDigit_decimal n ':' h
  rw [colon_not_digit 10] at hdigit
  cases hdigit

theorem plain_pointer (p : Nat) : Plain (pointer p) := by
  refine ⟨word_pointer p, ?_⟩
  by_cases hnull : p = 0
  · rw [pointer, if_pos hnull]
    decide
  · rw [pointer, if_neg hnull]
    intro h
    simp only [List.mem_cons, Char.reduceEq, false_or] at h
    have hdigit := isDigit_of_mem_toDigits 16 (by decide) (by decide) p ':' h
    rw [colon_not_digit 16] at hdigit
    cases hdigit

theorem plain_threadList (threads : List ThrID) : Plain (threadList threads) := by
  refine ⟨word_threadList threads, ?_⟩
  intro h
  rcases mem_threadList threads ':' h with hdigit | hcomma
  · rw [colon_not_digit 10] at hdigit
    cases hdigit
  · exact absurd hcomma (by decide)

-- A thread and an address as the scripts name them.
def idName (thr : ThrID) : Name := some (String.ofList (decimal thr))

def addrName (addr : Addr) : String := String.ofList (pointer addr)

theorem mapM_id_idName (threads : List ThrID) :
    (threads.map idName).mapM id = some (threads.map fun thr => String.ofList (decimal thr)) := by
  induction threads with
  | nil => rfl
  | cons thr threads ih =>
      rw [List.map_cons, List.mapM_cons, ih]
      rfl

-- The list of addresses as the scripts keep it.
def AddrPoints.addrlist (points : AddrPoints) : List String :=
  if points.scheduleAll then ["all"] else points.addressToSchedule.map addrName

theorem AddrPoints.record_eq (points : AddrPoints) :
    points.record = "begin_addr_list".toList ++ '\n' ::
      ((points.addrlist.flatMap fun x => x.toList ++ ['\n']) ++
        ("end_addr_list".toList ++ ['\n'])) := by
  have hlines : (points.addrlist.flatMap fun x => x.toList ++ ['\n']) =
      if points.scheduleAll then "all".toList ++ ['\n']
      else points.addressToSchedule.flatMap fun addr => pointer addr ++ ['\n'] := by
    unfold AddrPoints.addrlist
    by_cases hall : points.scheduleAll = true
    · rw [if_pos hall, if_pos hall, List.flatMap_cons, List.flatMap_nil, List.append_nil]
    · rw [if_neg hall, if_neg hall, List.flatMap_map]
      simp only [addrName, String.toList_ofList]
  unfold AddrPoints.record
  rw [hlines]

-- The names of the fields.
def FieldName (name : String) : Prop :=
  ':' ∉ name.toList ∧ '\n' ∉ name.toList ∧ name.toList.length ≤ 9

instance (name : String) : Decidable (FieldName name) := inferInstanceAs (Decidable (_ ∧ _ ∧ _))

theorem field_append (name : String) (value rest : List Char) :
    field name value ++ rest = (name.toList ++ ':' :: value) ++ '\n' :: rest := by
  simp [field]

-- Five lines, and what comes behind them.
theorem entry_append (opening first second third fourth rest : List Char) :
    (opening ++ '\n' :: (first ++ (second ++ (third ++ fourth)))) ++ rest =
      opening ++ '\n' :: (first ++ (second ++ (third ++ (fourth ++ rest)))) := by
  simp only [List.append_assoc, List.cons_append]

theorem newline_field (name : String) (hname : FieldName name) (value : List Char)
    (hvalue : '\n' ∉ value) : '\n' ∉ name.toList ++ ':' :: value := by
  simp [hname.2.1, hvalue]

namespace Logger

theorem setWhitespaceToColon_append (name value : List Char) (hname : ':' ∉ name) :
    setWhitespaceToColon (name ++ ':' :: value) =
      some (List.replicate (name.length + 1) ' ' ++ value) := by
  have hidx : (name ++ ':' :: value).idxOf ':' = name.length := by
    rw [List.idxOf_append_of_notMem hname, List.idxOf_cons_self, Nat.add_zero]
  have hdrop : (name ++ ':' :: value).drop (name.length + 1) = value := by
    rw [List.drop_append, List.drop_eq_nil_of_le (by omega)]
    simp
  rw [setWhitespaceToColon, if_pos (by simp), hidx, hdrop]

theorem nextValue_field (name : String) (hname : FieldName name) (value rest : List Char)
    (hvalue : '\n' ∉ value) (hfits : value.length ≤ 244) :
    nextValue (field name value ++ rest) =
      some (List.replicate (name.toList.length + 1) ' ' ++ (value ++ ['\n']), rest) := by
  have hline := newline_field name hname value hvalue
  have hshort := hname.2.2
  have hlength : (name.toList ++ ':' :: value).length + 1 < MAX_READ_SIZE := by
    rw [List.length_append, List.length_cons, MAX_READ_SIZE]
    omega
  have hcolon : (name.toList ++ ':' :: value) ++ ['\n'] = name.toList ++ ':' :: (value ++ ['\n']) :=
    by simp
  rw [field_append, nextValue, fgets_line MAX_READ_SIZE _ rest hline hlength]
  simp only [Option.bind_eq_bind, Option.bind_some]
  rw [hcolon, setWhitespaceToColon_append name.toList _ hname.1]
  rfl

theorem isSpace_of_mem_replicate (n : Nat) : ∀ c ∈ List.replicate n ' ', isSpace c = true := by
  intro c hc
  rw [List.eq_of_mem_replicate hc]
  decide

theorem parseThrID_field (name : String) (hname : FieldName name) (n : Nat) (hn : n < 2 ^ 31)
    (rest : List Char) :
    parseNextReadfileLineAsThrID (field name (decimal n) ++ rest) = some ((n : Int), rest) := by
  have hlength := length_decimal n hn
  have hnewline : ∀ c ∈ ['\n'].head?, isDigit 10 c = false :=
    forall_mem_option (isDigit 10) _ (by decide)
  rw [parseNextReadfileLineAsThrID, nextValue_field name hname _ rest (word_decimal n).newline
    (by omega)]
  simp only [Option.bind_eq_bind, Option.bind_some]
  rw [atoi_decimal _ (isSpace_of_mem_replicate _) n hn ['\n'] hnewline]
  rfl

theorem parseCharStar_field (name : String) (hname : FieldName name) (value : List Char)
    (hvalue : Word value) (hfits : value.length ≤ 244) (rest : List Char) :
    parseNextReadfileLineAsCharStar (field name value ++ rest) = some (value, rest) := by
  rw [parseNextReadfileLineAsCharStar, nextValue_field name hname _ rest hvalue.newline hfits]
  simp only [Option.bind_eq_bind, Option.bind_some]
  rw [strip, stripBy_word isSpace _ value ['\n'] (isSpace_of_mem_replicate _) isSpace_newline hvalue]
  rfl

theorem parseVoidStar_field (name : String) (hname : FieldName name) (value : List Char)
    (hvalue : Word value) (hfits : value.length ≤ 244) (rest : List Char) :
    parseNextReadfileLineAsVoidStar (field name value ++ rest) = some (strtoul value, rest) := by
  rw [parseNextReadfileLineAsVoidStar, parseCharStar_field name hname value hvalue hfits rest]
  rfl

theorem strtoul_pointer_self (p : Nat) (hp : p < 2 ^ 64) : strtoul (pointer p) = p := by
  have h := strtoul_pointer p hp [] (by simp)
  rwa [List.append_nil] at h

-- A list of threads that fits is skipped whole; of a longer one the end is left.
theorem clearLine_fits (name : String) (hname : FieldName name) (value rest : List Char)
    (hvalue : '\n' ∉ value) (hfits : (field name value).length < MAX_READ_SIZE) :
    clearLineFromReadfile (field name value ++ rest) = rest := by
  have hline := newline_field name hname value hvalue
  have hlength : (name.toList ++ ':' :: value).length + 1 < MAX_READ_SIZE := by
    simpa [field, Nat.add_assoc] using hfits
  rw [field_append, clearLineFromReadfile, fgets_line MAX_READ_SIZE _ rest hline hlength]
  rfl

theorem clearLine_long (name : String) (hname : FieldName name) (value rest : List Char)
    (hvalue : '\n' ∉ value) (hlong : MAX_READ_SIZE ≤ (field name value).length) :
    ∃ c left, clearLineFromReadfile (field name value ++ rest) = c :: left ∧
      (c ∈ value ∨ c = '\n') := by
  have hline := newline_field name hname value hvalue
  have hshort := hname.2.2
  have hlength : 255 ≤ (name.toList ++ ':' :: value).length := by
    rw [field, MAX_READ_SIZE] at hlong
    simp only [List.length_append, List.length_cons, List.length_nil] at hlong ⊢
    omega
  have hne : (name.toList ++ ':' :: value) ++ '\n' :: rest ≠ [] := by simp
  have hrest : clearLineFromReadfile (field name value ++ rest) =
      (name.toList ++ ':' :: value).drop 255 ++ '\n' :: rest := by
    rw [field_append, clearLineFromReadfile, fgets, if_neg hne, MAX_READ_SIZE,
      chunk_long 255 _ _ hline hlength]
    rfl
  rw [hrest]
  cases hdrop : (name.toList ++ ':' :: value).drop 255 with
  | nil => exact ⟨'\n', rest, rfl, Or.inr rfl⟩
  | cons c left =>
      refine ⟨c, left ++ '\n' :: rest, rfl, Or.inl ?_⟩
      rw [List.drop_append, List.drop_eq_nil_of_le (by omega), List.nil_append] at hdrop
      have hmem : c ∈ (':' :: value).drop (255 - name.toList.length) := by
        rw [hdrop]
        exact List.mem_cons_self
      obtain ⟨k, hk⟩ : ∃ k, 255 - name.toList.length = k + 1 :=
        ⟨254 - name.toList.length, by omega⟩
      rw [hk, List.drop_succ_cons] at hmem
      exact List.mem_of_mem_drop hmem

end Logger

end Thrille
