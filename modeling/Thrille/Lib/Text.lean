import Mathlib.Data.List.Infix
import Mathlib.Data.List.TakeWhile
import Mathlib.Data.Nat.Digits.Defs
import Mathlib.Algebra.Order.Ring.Int

-- Text files as programs in C and Python read them: lines, buffers, and numerals.
namespace Text

-- `isspace` of the C locale.
def isSpace (c : Char) : Bool :=
  c == ' ' || c == '\t' || c == '\n' || c.toNat == 11 || c.toNat == 12 || c == '\r'

section Numerals

def charValue (c : Char) : Option Nat :=
  if '0' ≤ c ∧ c ≤ '9' then some (c.toNat - '0'.toNat)
  else if 'a' ≤ c ∧ c ≤ 'f' then some (c.toNat - 'a'.toNat + 10)
  else if 'A' ≤ c ∧ c ≤ 'F' then some (c.toNat - 'A'.toNat + 10)
  else none

def isDigit (base : Nat) (c : Char) : Bool := (charValue c).any fun value => decide (value < base)

def numeral (base : Nat) (digits : List Char) : Nat :=
  digits.foldl (fun n c => base * n + (charValue c).getD 0) 0

-- `%d` of a number that is not negative.
def decimal (n : Nat) : List Char := Nat.toDigits 10 n

-- `%p`, as the C library of GNU prints it.
def pointer (p : Nat) : List Char :=
  if p = 0 then "(nil)".toList else '0' :: 'x' :: Nat.toDigits 16 p

theorem charValue_digitChar (d : Nat) (hd : d < 16) : charValue (Nat.digitChar d) = some d := by
  have hall : ∀ d < 16, charValue (Nat.digitChar d) = some d := by decide
  exact hall d hd

theorem numeral_toDigits (base : Nat) (hbase : 1 < base) (hsmall : base ≤ 16) (n : Nat) :
    numeral base (Nat.toDigits base n) = n := by
  induction n using Nat.strong_induction_on with
  | h n ih =>
      rw [Nat.toDigits_eq_if hbase]
      by_cases hlt : n < base
      · rw [if_pos hlt, numeral]
        simp [charValue_digitChar n (by omega)]
      · have hdiv : n / base < n := Nat.div_lt_self (by omega) hbase
        have hmod : n % base < base := Nat.mod_lt n (by omega)
        have hfront := ih (n / base) hdiv
        rw [numeral] at hfront
        rw [if_neg hlt, numeral, List.foldl_append, hfront]
        simp only [List.foldl_cons, List.foldl_nil, charValue_digitChar _ (by omega : n % base < 16),
          Option.getD_some]
        exact Nat.div_add_mod n base

theorem isDigit_of_mem_toDigits (base : Nat) (hbase : 1 < base) (hsmall : base ≤ 16) (n : Nat)
    (c : Char) (hc : c ∈ Nat.toDigits base n) : isDigit base c = true := by
  induction n using Nat.strong_induction_on with
  | h n ih =>
      rw [Nat.toDigits_eq_if hbase] at hc
      have hmod : n % base < base := Nat.mod_lt n (by omega)
      by_cases hlt : n < base
      · rw [if_pos hlt, List.mem_singleton] at hc
        rw [hc, isDigit, charValue_digitChar n (by omega)]
        simpa using hlt
      · rw [if_neg hlt, List.mem_append, List.mem_singleton] at hc
        rcases hc with hc | rfl
        · exact ih (n / base) (Nat.div_lt_self (by omega) hbase) hc
        · rw [isDigit, charValue_digitChar _ (by omega)]
          simpa using hmod

-- The numeral ends where the digits end.
theorem span_toDigits (base : Nat) (hbase : 1 < base) (hsmall : base ≤ 16) (n : Nat)
    (rest : List Char) (hrest : ∀ c ∈ rest.head?, isDigit base c = false) :
    (Nat.toDigits base n ++ rest).takeWhile (isDigit base) = Nat.toDigits base n ∧
      (Nat.toDigits base n ++ rest).dropWhile (isDigit base) = rest := by
  have hall := isDigit_of_mem_toDigits base hbase hsmall n
  rw [List.takeWhile_append_of_pos hall, List.dropWhile_append_of_pos hall]
  cases rest with
  | nil => simp
  | cons c rest =>
      have hc : isDigit base c = false := hrest c rfl
      simp [hc]

-- `strtol` in base 10: the value as a `long`, and the rest of the text, which is the whole text
-- where there is no numeral.
def strtol (text : List Char) : Int × List Char :=
  let body := text.dropWhile isSpace
  let digits := if body.head? = some '-' ∨ body.head? = some '+' then body.tail else body
  if digits.takeWhile (isDigit 10) = [] then (0, text)
  else
    let n : Int := numeral 10 (digits.takeWhile (isDigit 10))
    (if body.head? = some '-' then max (-2 ^ 63) (-n) else min (2 ^ 63 - 1) n,
      digits.dropWhile (isDigit 10))

def atoi (text : List Char) : Int := (strtol text).1.bmod (2 ^ 32)

-- `strtoul` in base 16.
def strtoul (text : List Char) : Nat :=
  let body := text.dropWhile isSpace
  let digits := if body.head? = some '-' ∨ body.head? = some '+' then body.tail else body
  let digits := match digits with
    | '0' :: x :: c :: rest =>
        if (x = 'x' ∨ x = 'X') ∧ isDigit 16 c then c :: rest else digits
    | _ => digits
  let n := min (2 ^ 64 - 1) (numeral 16 (digits.takeWhile (isDigit 16)))
  if body.head? = some '-' then (2 ^ 64 - n) % 2 ^ 64 else n

theorem toDigits_eq_cons (base n : Nat) : ∃ c rest, Nat.toDigits base n = c :: rest :=
  List.exists_cons_of_ne_nil Nat.toDigits_ne_nil

theorem le_toNat_of_isDigit (base : Nat) (c : Char) (hc : isDigit base c = true) :
    48 ≤ c.toNat := by
  have hle (d : Char) (h : d ≤ c) : d.toNat ≤ c.toNat := h
  unfold isDigit charValue at hc
  split at hc
  · rename_i hrange
    exact hle '0' hrange.1
  · split at hc
    · rename_i hrange
      exact Nat.le_trans (by decide) (hle 'a' hrange.1)
    · split at hc
      · rename_i hrange
        exact Nat.le_trans (by decide) (hle 'A' hrange.1)
      · cases hc

theorem toNat_of_isSpace (c : Char) (hc : isSpace c = true) : c.toNat ≤ 32 := by
  simp only [isSpace, Bool.or_eq_true, beq_iff_eq] at hc
  rcases hc with ((((rfl | rfl) | rfl) | hc) | hc) | rfl
  · decide
  · decide
  · decide
  · omega
  · omega
  · decide

theorem isSpace_of_isDigit (base : Nat) (c : Char) (hc : isDigit base c = true) :
    isSpace c = false := by
  by_contra hspace
  have hlow := toNat_of_isSpace c (by simpa using hspace)
  have hhigh := le_toNat_of_isDigit base c hc
  omega

theorem ne_sign_of_isDigit (base : Nat) (c : Char) (hc : isDigit base c = true) :
    c ≠ '-' ∧ c ≠ '+' := by
  have hhigh := le_toNat_of_isDigit base c hc
  refine ⟨?_, ?_⟩
  · rintro rfl
    exact absurd hhigh (by decide)
  · rintro rfl
    exact absurd hhigh (by decide)

-- A numeral behind blanks.
theorem strtol_decimal (blanks : List Char) (hblanks : ∀ c ∈ blanks, isSpace c = true) (n : Nat)
    (hn : n < 2 ^ 63) (rest : List Char) (hrest : ∀ c ∈ rest.head?, isDigit 10 c = false) :
    strtol (blanks ++ (decimal n ++ rest)) = ((n : Int), rest) := by
  obtain ⟨htake, hdrop⟩ := span_toDigits 10 (by decide) (by decide) n rest hrest
  obtain ⟨c, digits, hdigits⟩ := toDigits_eq_cons 10 n
  have hc : isDigit 10 c = true :=
    isDigit_of_mem_toDigits 10 (by decide) (by decide) n c (by rw [hdigits]; exact List.mem_cons_self)
  have hbody : (blanks ++ (decimal n ++ rest)).dropWhile isSpace = decimal n ++ rest := by
    rw [List.dropWhile_append_of_pos hblanks, decimal, hdigits, List.cons_append,
      List.dropWhile_cons_of_neg (by simp [isSpace_of_isDigit 10 c hc])]
  have hhead : (decimal n ++ rest).head? = some c := by rw [decimal, hdigits]; rfl
  obtain ⟨hminus, hplus⟩ := ne_sign_of_isDigit 10 c hc
  have hvalue : numeral 10 (Nat.toDigits 10 n) = n := numeral_toDigits 10 (by decide) (by decide) n
  have hmin : min (2 ^ 63 - 1) (n : Int) = n := by omega
  simp only [strtol, hbody, hhead, Option.some.injEq, hminus, hplus, or_self, if_false]
  rw [decimal, htake, hdrop, if_neg Nat.toDigits_ne_nil, hvalue, hmin]

theorem bmod_of_lt (n : Nat) (hn : n < 2 ^ 31) : (n : Int).bmod (2 ^ 32) = n :=
  Int.bmod_eq_of_le (by omega) (by omega)

theorem atoi_decimal (blanks : List Char) (hblanks : ∀ c ∈ blanks, isSpace c = true) (n : Nat)
    (hn : n < 2 ^ 31) (rest : List Char) (hrest : ∀ c ∈ rest.head?, isDigit 10 c = false) :
    atoi (blanks ++ (decimal n ++ rest)) = n := by
  rw [atoi, strtol_decimal blanks hblanks n (by omega) rest hrest]
  exact bmod_of_lt n hn

-- An `int` is never as large as a number that does not fit.
theorem atoi_lt (text : List Char) : atoi text < 2 ^ 31 := by
  have h := Int.bmod_lt (x := (strtol text).1) (m := 2 ^ 32) (by decide)
  rw [atoi]
  omega

-- What is left is the end of the text.
theorem strtol_suffix (text : List Char) : (strtol text).2 <:+ text := by
  have hsign (body : List Char) :
      (if body.head? = some '-' ∨ body.head? = some '+' then body.tail else body) <:+ body := by
    split
    · exact List.tail_suffix body
    · exact List.suffix_rfl
  have hdigits := (hsign (text.dropWhile isSpace)).trans (List.dropWhile_suffix isSpace)
  rw [strtol]
  revert hdigits
  generalize (if (text.dropWhile isSpace).head? = some '-' ∨
    (text.dropWhile isSpace).head? = some '+' then (text.dropWhile isSpace).tail
    else text.dropWhile isSpace) = digits
  intro hdigits
  dsimp only
  split
  · exact List.suffix_rfl
  · exact (List.dropWhile_suffix (isDigit 10)).trans hdigits

theorem strtoul_pointer (p : Nat) (hp : p < 2 ^ 64) (rest : List Char)
    (hrest : ∀ c ∈ rest.head?, isDigit 16 c = false) : strtoul (pointer p ++ rest) = p := by
  by_cases hnull : p = 0
  · subst hnull
    have hparen : isDigit 16 '(' = false := by decide
    simp [strtoul, pointer, isSpace, hparen, numeral]
  · obtain ⟨htake, hdrop⟩ := span_toDigits 16 (by decide) (by decide) p rest hrest
    obtain ⟨c, digits, hdigits⟩ := toDigits_eq_cons 16 p
    have hc : isDigit 16 c = true := isDigit_of_mem_toDigits 16 (by decide) (by decide) p c
      (by rw [hdigits]; exact List.mem_cons_self)
    have hzero : isSpace '0' = false := by decide
    have hvalue : numeral 16 (Nat.toDigits 16 p) = p := numeral_toDigits 16 (by decide) (by decide) p
    have hmin : min (2 ^ 64 - 1) p = p := by omega
    rw [hdigits] at htake hvalue
    rw [pointer, if_neg hnull, hdigits]
    simp only [List.cons_append] at htake ⊢
    simp only [strtoul, List.dropWhile_cons, hzero, Bool.false_eq_true, if_false, List.head?_cons,
      Option.some.injEq, Char.reduceEq, or_self, or_false, true_and, hc, if_true]
    rw [htake, hvalue, hmin]

end Numerals

section Lines

-- At most `n` characters, and no further than through the first end of a line.
def chunk : Nat → List Char → List Char × List Char
  | 0, text => ([], text)
  | _ + 1, [] => ([], [])
  | n + 1, c :: text =>
      if c = '\n' then ([c], text)
      else (c :: (chunk n text).1, (chunk n text).2)

-- `fgets` with a buffer of `size` characters, the last of which ends the string.
def fgets (size : Nat) (text : List Char) : Option (List Char × List Char) :=
  if text = [] then none else some (chunk (size - 1) text)

theorem chunk_cons (n : Nat) (c : Char) (text : List Char) :
    ∃ line rest, chunk (n + 1) (c :: text) = (c :: line, rest) := by
  rw [chunk]
  split
  · exact ⟨[], text, rfl⟩
  · exact ⟨(chunk n text).1, (chunk n text).2, rfl⟩

theorem chunk_line (n : Nat) (line text : List Char) (hline : '\n' ∉ line)
    (hfits : line.length < n) : chunk n (line ++ '\n' :: text) = (line ++ ['\n'], text) := by
  induction line generalizing n with
  | nil =>
      obtain ⟨n, rfl⟩ : ∃ k, n = k + 1 := ⟨n - 1, by simp only [List.length_nil] at hfits; omega⟩
      simp [chunk]
  | cons c line ih =>
      obtain ⟨n, rfl⟩ : ∃ k, n = k + 1 := ⟨n - 1, by simp only [List.length_cons] at hfits; omega⟩
      rw [List.mem_cons, not_or] at hline
      have hrest := ih n hline.2 (by simp only [List.length_cons] at hfits; omega)
      rw [List.cons_append, chunk, if_neg (Ne.symm hline.1), hrest]
      rfl

-- A line that does not fit is cut.
theorem chunk_long (n : Nat) (line text : List Char) (hline : '\n' ∉ line)
    (hlong : n ≤ line.length) : chunk n (line ++ text) = (line.take n, line.drop n ++ text) := by
  induction line generalizing n with
  | nil =>
      obtain rfl : n = 0 := by simp only [List.length_nil] at hlong; omega
      simp [chunk]
  | cons c line ih =>
      rw [List.mem_cons, not_or] at hline
      cases n with
      | zero => simp [chunk]
      | succ n =>
          have hrest := ih n hline.2 (by simp only [List.length_cons] at hlong; omega)
          rw [List.cons_append, chunk, if_neg (Ne.symm hline.1), hrest]
          rfl

theorem chunk_end (n : Nat) (line : List Char) (hline : '\n' ∉ line) (hfits : line.length ≤ n) :
    chunk n line = (line, []) := by
  induction line generalizing n with
  | nil => cases n <;> rfl
  | cons c line ih =>
      obtain ⟨n, rfl⟩ : ∃ k, n = k + 1 := ⟨n - 1, by simp only [List.length_cons] at hfits; omega⟩
      rw [List.mem_cons, not_or] at hline
      have hrest := ih n hline.2 (by simp only [List.length_cons] at hfits; omega)
      rw [chunk, if_neg (Ne.symm hline.1), hrest]

-- A chunk begins as the text does.
theorem chunk_front (n : Nat) (front text : List Char) (hfront : '\n' ∉ front)
    (hfits : front.length ≤ n) : front <+: (chunk n (front ++ text)).1 := by
  induction front generalizing n with
  | nil => exact List.nil_prefix
  | cons c front ih =>
      obtain ⟨n, rfl⟩ : ∃ k, n = k + 1 := ⟨n - 1, by simp only [List.length_cons] at hfits; omega⟩
      rw [List.mem_cons, not_or] at hfront
      rw [List.cons_append, chunk, if_neg (Ne.symm hfront.1)]
      exact List.cons_prefix_cons.mpr
        ⟨rfl, ih n hfront.2 (by simp only [List.length_cons] at hfits; omega)⟩

theorem fgets_line (size : Nat) (line text : List Char) (hline : '\n' ∉ line)
    (hfits : line.length + 1 < size) :
    fgets size (line ++ '\n' :: text) = some (line ++ ['\n'], text) := by
  rw [fgets, if_neg (by simp), chunk_line (size - 1) line text hline (by omega)]

-- `readlines`.
def readlines : List Char → List (List Char)
  | [] => []
  | c :: text =>
      if c = '\n' then ['\n'] :: readlines text
      else match readlines text with
        | [] => [[c]]
        | line :: lines => (c :: line) :: lines

theorem readlines_line (line text : List Char) (hline : '\n' ∉ line) :
    readlines (line ++ '\n' :: text) = (line ++ ['\n']) :: readlines text := by
  induction line with
  | nil => simp [readlines]
  | cons c line ih =>
      rw [List.mem_cons, not_or] at hline
      rw [List.cons_append, readlines, if_neg (Ne.symm hline.1), ih hline.2]
      rfl

theorem readlines_end (line : List Char) (hline : '\n' ∉ line) (hne : line ≠ []) :
    readlines line = [line] := by
  induction line with
  | nil => exact absurd rfl hne
  | cons c line ih =>
      rw [List.mem_cons, not_or] at hline
      rw [readlines, if_neg (Ne.symm hline.1)]
      cases line with
      | nil => rfl
      | cons d line => rw [ih hline.2 (by simp)]

end Lines

section Strip

def stripBy (p : Char → Bool) (text : List Char) : List Char :=
  ((text.dropWhile p).reverse.dropWhile p).reverse

def strip (text : List Char) : List Char := stripBy isSpace text

-- The end of a line is a blank.
theorem isSpace_newline : ∀ c ∈ ['\n'], isSpace c = true :=
  List.all_eq_true.mp (by decide)

theorem forall_mem_option (p : Char → Bool) (first : Option Char) (hfirst : first.any p = false) :
    ∀ c ∈ first, p c = false := by
  cases first with
  | none => simp
  | some c => simpa using hfirst

theorem dropWhile_of_head (p : Char → Bool) (text : List Char)
    (hhead : ∀ c ∈ text.head?, p c = false) : text.dropWhile p = text := by
  cases text with
  | nil => rfl
  | cons c text =>
      have hc : p c = false := hhead c rfl
      simp [hc]

-- What is stripped off both ends of a word.
theorem stripBy_word (p : Char → Bool) (front word back : List Char)
    (hfront : ∀ c ∈ front, p c = true) (hback : ∀ c ∈ back, p c = true)
    (hword : ∀ c ∈ word, p c = false) : stripBy p (front ++ (word ++ back)) = word := by
  have hback' : ∀ c ∈ back.reverse, p c = true := fun c hc => hback c (List.mem_reverse.mp hc)
  have hdrop (text : List Char) (htext : ∀ c ∈ text, p c = false) : text.dropWhile p = text :=
    dropWhile_of_head p text fun c hc => htext c (List.mem_of_mem_head? hc)
  rw [stripBy, List.dropWhile_append_of_pos hfront]
  cases hempty : word with
  | nil =>
      rw [List.nil_append, List.dropWhile_eq_nil_iff.mpr hback]
      rfl
  | cons c rest =>
      have hc : p c = false := hword c (by rw [hempty]; exact List.mem_cons_self)
      have hreverse : ∀ d ∈ (c :: rest).reverse, p d = false :=
        fun d hd => hword d (by rw [hempty]; exact List.mem_reverse.mp hd)
      rw [List.cons_append, List.dropWhile_cons_of_neg (by simp [hc]), ← List.cons_append,
        List.reverse_append, List.dropWhile_append_of_pos hback', hdrop _ hreverse,
        List.reverse_reverse]

-- Text that begins and ends with other characters stays as it is.
theorem stripBy_ends (p : Char → Bool) (text back : List Char) (hne : text ≠ [])
    (hhead : ∀ c ∈ text.head?, p c = false) (hlast : ∀ c ∈ text.getLast?, p c = false)
    (hback : ∀ c ∈ back, p c = true) : stripBy p (text ++ back) = text := by
  have hback' : ∀ c ∈ back.reverse, p c = true := fun c hc => hback c (List.mem_reverse.mp hc)
  have hhead' : ∀ c ∈ (text ++ back).head?, p c = false := by
    cases text with
    | nil => exact absurd rfl hne
    | cons c text => exact hhead
  rw [stripBy, dropWhile_of_head p _ hhead', List.reverse_append,
    List.dropWhile_append_of_pos hback', dropWhile_of_head p text.reverse, List.reverse_reverse]
  rw [List.head?_reverse]
  exact hlast

-- A front that begins and ends with other characters is left.
theorem stripBy_front (p : Char → Bool) (front text : List Char) (hne : front ≠ [])
    (hhead : ∀ c ∈ front.head?, p c = false) (hlast : ∀ c ∈ front.getLast?, p c = false) :
    ∃ rest, stripBy p (front ++ text) = front ++ rest := by
  have hhead' : ∀ c ∈ (front ++ text).head?, p c = false := by
    cases front with
    | nil => exact absurd rfl hne
    | cons c front => exact hhead
  have hlast' : front.reverse.dropWhile p = front.reverse := by
    apply dropWhile_of_head
    rw [List.head?_reverse]
    exact hlast
  refine ⟨(text.reverse.dropWhile p).reverse, ?_⟩
  rw [stripBy, dropWhile_of_head p _ hhead', List.reverse_append, List.dropWhile_append]
  split
  · rename_i hempty
    rw [List.isEmpty_iff.mp hempty, hlast', List.reverse_reverse, List.reverse_nil,
      List.append_nil]
  · rw [List.reverse_append, List.reverse_reverse]

end Strip

section Contains

-- `sub in text`.
def contains (sub : String) (text : List Char) : Bool := decide (sub.toList <:+: text)

theorem contains_of_prefix (sub : String) (rest : List Char) :
    contains sub (sub.toList ++ rest) = true :=
  decide_eq_true (List.infix_append_left)

theorem contains_middle (sub : String) (front back : List Char) :
    contains sub (front ++ (sub.toList ++ back)) = true :=
  decide_eq_true (List.infix_append' front sub.toList back)

theorem prefix_append_cons (sub first last : List Char) (sep : Char) (hsep : sep ∉ sub)
    (hbegins : sub <+: first ++ sep :: last) : sub <+: first := by
  induction first generalizing sub with
  | nil =>
      cases sub with
      | nil => exact List.prefix_rfl
      | cons c sub =>
          rw [List.nil_append, List.cons_prefix_cons] at hbegins
          rw [hbegins.1] at hsep
          exact absurd List.mem_cons_self hsep
  | cons d first ih =>
      cases sub with
      | nil => exact List.nil_prefix
      | cons c sub =>
          rw [List.cons_append, List.cons_prefix_cons] at hbegins
          rw [List.mem_cons, not_or] at hsep
          exact List.cons_prefix_cons.mpr ⟨hbegins.1, ih sub hsep.2 hbegins.2⟩

-- A word without the separator is on one side of it.
theorem contains_append_cons (sub : String) (first last : List Char) (sep : Char)
    (hsep : sep ∉ sub.toList) :
    contains sub (first ++ sep :: last) = (contains sub first || contains sub last) := by
  rw [Bool.eq_iff_iff, Bool.or_eq_true]
  simp only [contains, decide_eq_true_eq]
  constructor
  · intro h
    induction first with
    | nil =>
        rw [List.nil_append, List.infix_cons_iff] at h
        rcases h with h | h
        · exact Or.inl (prefix_append_cons sub.toList [] last sep hsep h).isInfix
        · exact Or.inr h
    | cons c first ih =>
        rw [List.cons_append, List.infix_cons_iff] at h
        rcases h with h | h
        · exact Or.inl (prefix_append_cons sub.toList (c :: first) last sep hsep h).isInfix
        · rcases ih h with hfirst | hlast
          · exact Or.inl (List.infix_cons hfirst)
          · exact Or.inr hlast
  · intro h
    rcases h with hfirst | hlast
    · exact hfirst.trans List.infix_append_left
    · exact (List.infix_cons hlast).trans List.infix_append_right

-- A word with a letter that the text has not is not in it.
theorem contains_eq_false (sub : String) (text : List Char) (c : Char) (hc : c ∈ sub.toList)
    (htext : c ∉ text) : contains sub text = false :=
  decide_eq_false fun h => htext (h.subset hc)

end Contains

end Text
