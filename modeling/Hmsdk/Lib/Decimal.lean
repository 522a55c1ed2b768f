import Hmsdk.Lib.Numeral

/-! # Decimal fractions in text

A number is printed with a fixed count of decimals, rounded to nearest with ties
to even, and read as the C library reads floating point numbers: sign, digits
with a point among them, exponent. Numbers are rationals, so what is read back
is exactly the rounded number. Infinities, NaN and hexadecimal digits are not
numbers here.
-/

namespace Lib.Decimal

open Lib.Numeral

/-- The nearest whole number, the even one of two. -/
def roundHalfEven (x : ℚ) : ℤ :=
  let fraction := x - ⌊x⌋
  if fraction < 1 / 2 then ⌊x⌋
  else if 1 / 2 < fraction then ⌊x⌋ + 1
  else if ⌊x⌋ % 2 = 0 then ⌊x⌋ else ⌊x⌋ + 1

/-- The size of `x` in units of the last of so many decimals. -/
def units (decimals : Nat) (x : ℚ) : Nat := (roundHalfEven (|x| * 10 ^ decimals)).toNat

/-- So many units of the last decimal, in digits. -/
def fixedNat (decimals units : Nat) : List Char :=
  Nat.toDigits 10 (units / 10 ^ decimals) ++
    if decimals = 0 then [] else '.' :: padded decimals (units % 10 ^ decimals)

/-- What `std::fixed` prints with that precision. -/
def fixed (decimals : Nat) (x : ℚ) : List Char :=
  if x < 0 then '-' :: fixedNat decimals (units decimals x)
  else fixedNat decimals (units decimals x)

def rounded (decimals : Nat) (x : ℚ) : ℚ :=
  if x < 0 then -(units decimals x / 10 ^ decimals) else units decimals x / 10 ^ decimals

def readExponent : List Char → Int
  | e :: rest =>
      if e = 'e' ∨ e = 'E' then
        let (minus, rest) := takeSign rest
        let magnitude : Int := value (readDigits rest).1
        if minus then -magnitude else magnitude
      else 0
  | [] => 0

/-- The number a text without a sign starts with, if it starts with one. -/
def readMagnitude (text : List Char) : Option ℚ :=
  let (whole, text) := readDigits text
  let (fraction, text) :=
    match text with
    | '.' :: rest => readDigits rest
    | rest => ([], rest)
  if whole = [] ∧ fraction = [] then none
  else some (value (whole ++ fraction) / 10 ^ fraction.length * 10 ^ readExponent text)

def readDecimal (text : List Char) : Option ℚ :=
  let (minus, text) := readSign text
  (readMagnitude text).map fun magnitude => if minus then -magnitude else magnitude

theorem value_append (whole fraction : List Char) :
    value (whole ++ fraction) = 10 ^ fraction.length * value whole + value fraction := by
  rw [value, Nat.ofDigitChars_append, Nat.ofDigitChars_eq_ofDigitChars_zero]
  rfl

theorem readMagnitude_fixedNat (decimals n : Nat) :
    readMagnitude (fixedNat decimals n) = some ((n : ℚ) / 10 ^ decimals) := by
  have whole := toDigits_isDigit (n / 10 ^ decimals)
  by_cases none : decimals = 0
  · subst none
    have digits := readDigits_append (toDigits_isDigit n) stops_nil
    rw [List.append_nil] at digits
    simp [readMagnitude, fixedNat, digits, readExponent]
  · have small : n % 10 ^ decimals < 10 ^ decimals := Nat.mod_lt n (by positivity)
    have length := padded_length (Nat.pos_of_ne_zero none) small
    have digits := readDigits_append (padded_isDigit decimals (n % 10 ^ decimals)) stops_nil
    rw [List.append_nil] at digits
    have parts : 10 ^ decimals * (n / 10 ^ decimals) + n % 10 ^ decimals = n :=
      Nat.div_add_mod n (10 ^ decimals)
    simp only [readMagnitude, fixedNat, if_neg none]
    rw [readDigits_append whole (stops_cons.mpr (by decide))]
    simp only [digits, value_append, length, value_toDigits, value_padded, parts]
    simp [readExponent]

/-- Printed digits start neither with a blank nor with a sign. -/
theorem readSign_fixedNat (decimals n : Nat) :
    readSign (fixedNat decimals n) = (false, fixedNat decimals n) :=
  readSign_toDigits _ _

/-- Reading a printed number gives the rounded number. -/
theorem readDecimal_fixed (decimals : Nat) (x : ℚ) :
    readDecimal (fixed decimals x) = some (rounded decimals x) := by
  by_cases negative : x < 0
  · have sign : readSign ('-' :: fixedNat decimals (units decimals x)) =
        (true, fixedNat decimals (units decimals x)) := rfl
    simp [readDecimal, fixed, rounded, negative, sign, readMagnitude_fixedNat]
  · simp [readDecimal, fixed, rounded, negative, readSign_fixedNat, readMagnitude_fixedNat]

theorem fixed_ne_nil (decimals : Nat) (x : ℚ) : fixed decimals x ≠ [] := by
  intro empty
  have read := readDecimal_fixed decimals x
  rw [empty] at read
  cases read

theorem fixed_chars (decimals : Nat) (x : ℚ) :
    ∀ c ∈ fixed decimals x, c.isDigit = true ∨ c = '.' ∨ c = '-' := by
  have magnitude : ∀ c ∈ fixedNat decimals (units decimals x), c.isDigit = true ∨ c = '.' := by
    intro c member
    rcases List.mem_append.mp member with whole | rest
    · exact .inl (toDigits_isDigit _ c whole)
    · split at rest
      · cases rest
      · rcases List.mem_cons.mp rest with point | fraction
        · exact .inr point
        · exact .inl (padded_isDigit _ _ c fraction)
  intro c member
  unfold fixed at member
  split at member
  · rcases List.mem_cons.mp member with minus | digits
    · exact .inr (.inr minus)
    · exact (magnitude c digits).imp_right .inl
  · exact (magnitude c member).imp_right .inl

end Lib.Decimal
