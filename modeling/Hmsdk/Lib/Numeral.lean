import Mathlib

/-! # Decimal numerals in text

Text is a list of characters. Numbers are printed with `Nat.toDigits` and read
the way the C library reads them: blanks, one sign, then the longest run of
digits, whatever follows it. Reading what was printed gives the number back.
-/

namespace Lib.Numeral

def isSpace (c : Char) : Bool :=
  [' ', '\t', '\n', '\x0b', '\x0c', '\r'].contains c

/-- The value of a run of digits. -/
def value (digits : List Char) : Nat := Nat.ofDigitChars 10 digits 0

/-- The longest run of digits and what follows it. -/
def readDigits (text : List Char) : List Char × List Char := text.span Char.isDigit

/-- Text that starts with a character other than a digit, or is empty. -/
def Stops (rest : List Char) : Prop := ∀ c ∈ rest.head?, c.isDigit = false

@[simp] theorem stops_nil : Stops [] := by simp [Stops]

@[simp] theorem stops_cons {c : Char} {rest : List Char} :
    Stops (c :: rest) ↔ c.isDigit = false := by simp [Stops]

theorem readDigits_append {digits rest : List Char} (allDigits : ∀ c ∈ digits, c.isDigit = true)
    (stops : Stops rest) : readDigits (digits ++ rest) = (digits, rest) := by
  have tail : rest.takeWhile Char.isDigit = [] ∧ rest.dropWhile Char.isDigit = rest := by
    cases rest with
    | nil => simp
    | cons c rest => simp [stops_cons.mp stops]
  rw [readDigits, List.span_eq_takeWhile_dropWhile, List.takeWhile_append_of_pos allDigits,
    List.dropWhile_append_of_pos allDigits, tail.1, tail.2, List.append_nil]

theorem toDigits_isDigit (n : Nat) : ∀ c ∈ Nat.toDigits 10 n, c.isDigit = true :=
  fun _ member => Nat.isDigit_of_mem_toDigits (by decide) (by decide) member

theorem not_mem_toDigits {c : Char} (notDigit : c.isDigit = false) (n : Nat) :
    c ∉ Nat.toDigits 10 n := by
  intro member
  rw [toDigits_isDigit n c member] at notDigit
  cases notDigit

@[simp] theorem value_toDigits (n : Nat) : value (Nat.toDigits 10 n) = n :=
  Nat.ofDigitChars_ten_toDigits

/-- `n` in decimal, filled with zeros on the left to at least `width` digits. -/
def padded (width n : Nat) : List Char :=
  List.replicate (width - (Nat.toDigits 10 n).length) '0' ++ Nat.toDigits 10 n

theorem padded_isDigit (width n : Nat) : ∀ c ∈ padded width n, c.isDigit = true := by
  intro c member
  rcases List.mem_append.mp member with zero | digit
  · rw [List.eq_of_mem_replicate zero]
    rfl
  · exact toDigits_isDigit n c digit

@[simp] theorem value_padded (width n : Nat) : value (padded width n) = n := by
  simp [value, padded, Nat.ofDigitChars_append]

theorem padded_length {width n : Nat} (positive : 0 < width) (fits : n < 10 ^ width) :
    (padded width n).length = width := by
  have short : (Nat.toDigits 10 n).length ≤ width :=
    (Nat.length_toDigits_le_iff (by decide) positive).mpr fits
  simp only [padded, List.length_append, List.length_replicate]
  omega

/-- A whole number as `%d` prints it. -/
def signed (z : Int) : List Char :=
  if z < 0 then '-' :: Nat.toDigits 10 z.natAbs else Nat.toDigits 10 z.natAbs

/-- Take one sign off; `true` stands for a minus. -/
def takeSign : List Char → Bool × List Char
  | '-' :: rest => (true, rest)
  | '+' :: rest => (false, rest)
  | rest => (false, rest)

theorem takeSign_digit {c : Char} {rest : List Char} (digit : c.isDigit = true) :
    takeSign (c :: rest) = (false, c :: rest) := by
  have notMinus : c ≠ '-' := by
    rintro rfl
    exact absurd digit (by decide)
  have notPlus : c ≠ '+' := by
    rintro rfl
    exact absurd digit (by decide)
  unfold takeSign
  split <;> simp_all

def readSign (text : List Char) : Bool × List Char := takeSign (text.dropWhile isSpace)

theorem isSpace_digit {c : Char} (digit : c.isDigit = true) : isSpace c = false := by
  rw [Bool.eq_false_iff]
  intro space
  simp only [isSpace, List.contains_eq_mem, decide_eq_true_eq] at space
  revert digit
  fin_cases space <;> decide

theorem readSign_digit {c : Char} {rest : List Char} (digit : c.isDigit = true) :
    readSign (c :: rest) = (false, c :: rest) := by
  simp only [readSign, List.dropWhile_cons, isSpace_digit digit, Bool.false_eq_true, if_false]
  exact takeSign_digit digit

theorem readSign_toDigits (n : Nat) (rest : List Char) :
    readSign (Nat.toDigits 10 n ++ rest) = (false, Nat.toDigits 10 n ++ rest) := by
  cases printed : Nat.toDigits 10 n with
  | nil => exact absurd printed Nat.toDigits_ne_nil
  | cons c digits =>
      exact readSign_digit (toDigits_isDigit n c (by rw [printed]; exact List.mem_cons_self))

/-- The whole number a text starts with, before any limit of the type that
    receives it. -/
def readInt (text : List Char) : Int :=
  let (minus, rest) := readSign text
  let magnitude : Int := value (readDigits rest).1
  if minus then -magnitude else magnitude

theorem readInt_digits {digits : List Char} (rest : List Char) (nonempty : digits ≠ [])
    (allDigits : ∀ c ∈ digits, c.isDigit = true) (stops : Stops rest) :
    readInt (digits ++ rest) = value digits := by
  cases digits with
  | nil => exact absurd rfl nonempty
  | cons c digits =>
      have sign : readSign (c :: (digits ++ rest)) = _ :=
        readSign_digit (allDigits c List.mem_cons_self)
      simp only [readInt, List.cons_append, sign]
      rw [← List.cons_append, readDigits_append allDigits stops]
      rfl

/-- Reading a printed number gives it back. -/
@[simp] theorem readInt_signed (z : Int) : readInt (signed z) = z := by
  have digits (n : Nat) : readDigits (Nat.toDigits 10 n) = (Nat.toDigits 10 n, []) := by
    simpa using readDigits_append (toDigits_isDigit n) stops_nil
  by_cases negative : z < 0
  · have sign : readSign ('-' :: Nat.toDigits 10 z.natAbs) = (true, Nat.toDigits 10 z.natAbs) := rfl
    simp only [readInt, signed, negative, if_true, sign, digits, value_toDigits]
    omega
  · have sign := readSign_toDigits z.natAbs []
    rw [List.append_nil] at sign
    simp only [readInt, signed, negative, if_false, sign, digits, value_toDigits]
    simp only [Bool.false_eq_true, if_false]
    omega

/-- Reading into a type with limits: a number beyond one of them becomes it. -/
def saturate (low high z : Int) : Int := max low (min high z)

theorem saturate_inside {low high z : Int} (above : low ≤ z) (below : z ≤ high) :
    saturate low high z = z := by
  simp only [saturate]
  omega

theorem saturate_above {low high z : Int} (ordered : low ≤ high) (above : high ≤ z) :
    saturate low high z = high := by
  simp only [saturate]
  omega

/-- The whole number a text starts with, where there is one that the type that
    receives it has room for. -/
def readIntWithin (low high : Int) (text : List Char) : Option Int :=
  if (readDigits (readSign text).2).1 = [] then none
  else if low ≤ readInt text ∧ readInt text ≤ high then some (readInt text)
  else none

end Lib.Numeral
