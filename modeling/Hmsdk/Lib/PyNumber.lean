import Hmsdk.Lib.Binary
import Hmsdk.Lib.Grouped

/-! # Numbers as Python reads them

`int` and `float` want the whole text to be a numeral. Blanks may stand around
it, and single underscores between its digits. Digits and blanks of other
scripts count like those of ASCII; which characters these are is taken from a
character database. A double is a rational here. Numbers below the normal range
keep all their digits, infinities and NaN are no numbers.
-/

namespace Lib.PyNumber

open Lib.Numeral Lib.Grouped Lib.Binary

/-- What Python takes from its character database. -/
class CharData where
  decimal : Char → Option (Fin 10)
  isSpace : Char → Bool
  lower : List Char → List Char

/-- The part of it that ASCII needs. -/
abbrev asciiData : CharData where
  decimal c := if c.isDigit then some (Fin.ofNat 10 (c.toNat - '0'.toNat)) else none
  isSpace := isBlank
  lower text := text.map Char.toLower

namespace CharData

variable (data : CharData)

/-- Take blanks off both ends. -/
def strip (text : List Char) : List Char :=
  ((text.dropWhile data.isSpace).reverse.dropWhile data.isSpace).reverse

/-- The character that the readers of numbers see. -/
def seen (c : Char) : Char :=
  if c.toNat < 128 then c
  else if data.isSpace c then ' '
  else
    match data.decimal c with
    | some digit => Nat.digitChar digit
    | none => '?'

end CharData

/-- Take C's blanks off both ends. -/
def trim (text : List Char) : List Char :=
  ((text.dropWhile Numeral.isSpace).reverse.dropWhile Numeral.isSpace).reverse

/-- Underscores are left out where they stand between digits and not allowed
    elsewhere. `digit` says whether the character before was a digit. -/
def dropUnderscores (digit : Bool) : List Char → Option (List Char)
  | [] => some []
  | c :: rest =>
      if c = '_' then
        if digit ∧ rest.head?.any Char.isDigit then dropUnderscores false rest else none
      else (dropUnderscores c.isDigit rest).map (c :: ·)

/-- `int` of a text. -/
def readInt (data : CharData) (text : List Char) : Option Int :=
  let (minus, rest) := takeSign (trim (text.map data.seen))
  (readRun false rest).map fun digits => if minus then -value digits else value digits

section

variable {data : CharData} {text digits : List Char}

theorem CharData.map_seen (ascii : ∀ c ∈ text, c.toNat < 128) : text.map data.seen = text := by
  refine (List.map_congr_left fun c member => ?_).trans (List.map_id _)
  rw [CharData.seen, if_pos (ascii c member), id]

theorem trim_inside (first : ∀ c ∈ text.head?, Numeral.isSpace c = false)
    (last : ∀ c ∈ text.getLast?, Numeral.isSpace c = false) : trim text = text := by
  have unspaced {text : List Char} (first : ∀ c ∈ text.head?, Numeral.isSpace c = false) :
      text.dropWhile Numeral.isSpace = text := by
    cases text with
    | nil => rfl
    | cons c rest => simp [first c rfl]
  rw [trim, unspaced first, unspaced, List.reverse_reverse]
  intro c member
  rw [List.head?_reverse] at member
  exact last c member

theorem ascii_digit {c : Char} (digit : c.isDigit = true) : c.toNat < 128 := by
  obtain ⟨-, small⟩ := Char.isDigit_iff_toNat.mp digit
  exact small.trans_lt (by decide)

/-- Digits alone, or after a minus, are read. -/
theorem readInt_digits (nonempty : digits ≠ []) (allDigits : ∀ c ∈ digits, c.isDigit = true) :
    readInt data digits = some (value digits : ℤ) := by
  have seen : digits.map data.seen = digits :=
    data.map_seen fun c member => ascii_digit (allDigits c member)
  have trimmed : trim digits = digits :=
    trim_inside (fun c member => isSpace_digit (allDigits c (List.mem_of_head? member)))
      fun c member => isSpace_digit (allDigits c (List.mem_of_getLast? member))
  have sign : takeSign digits = (false, digits) := by
    cases digits with
    | nil => rfl
    | cons c rest => exact takeSign_digit (allDigits c List.mem_cons_self)
  rw [readInt, seen, trimmed, sign]
  simp [readRun_digits nonempty allDigits]

theorem readInt_minus (nonempty : digits ≠ []) (allDigits : ∀ c ∈ digits, c.isDigit = true) :
    readInt data ('-' :: digits) = some (-value digits : ℤ) := by
  have seen : ('-' :: digits).map data.seen = '-' :: digits := by
    refine data.map_seen fun c member => ?_
    rcases List.mem_cons.mp member with rfl | inside
    · decide
    · exact ascii_digit (allDigits c inside)
  have trimmed : trim ('-' :: digits) = '-' :: digits := by
    apply trim_inside
    · rintro c ⟨⟩
      decide
    · intro c member
      rw [List.getLast?_cons_of_ne_nil nonempty] at member
      exact isSpace_digit (allDigits c (List.mem_of_getLast? member))
  rw [readInt, seen, trimmed]
  simp [takeSign, readRun_digits nonempty allDigits]

/-- A number printed plainly is read back. -/
theorem readInt_signed (z : Int) : readInt data (signed z) = some z := by
  have allDigits := toDigits_isDigit z.natAbs
  have nonempty : Nat.toDigits 10 z.natAbs ≠ [] := Nat.toDigits_ne_nil
  unfold signed
  split
  · rw [readInt_minus nonempty allDigits, value_toDigits]
    congr 1
    omega
  · rw [readInt_digits nonempty allDigits, value_toDigits]
    congr 1
    omega

end

/-- What may follow the digits of a `float`, up to the end of the text. -/
def readExponent : List Char → Option Int
  | [] => some 0
  | e :: rest =>
      let (minus, rest) := takeSign rest
      let (digits, rest) := readDigits rest
      if (e = 'e' ∨ e = 'E') ∧ digits ≠ [] ∧ rest = [] then
        some (if minus then -value digits else value digits)
      else none

def readMagnitude (text : List Char) : Option ℚ :=
  let (whole, text) := readDigits text
  let (fraction, text) :=
    match text with
    | '.' :: rest => readDigits rest
    | rest => ([], rest)
  if whole = [] ∧ fraction = [] then none
  else (readExponent text).map fun exponent =>
    value (whole ++ fraction) / 10 ^ fraction.length * 10 ^ exponent

/-- The nearest double, unless that is infinite. -/
def double (x : ℚ) : Option ℚ :=
  let magnitude := roundTo 53 |x|
  if magnitude < 2 ^ 1024 then some (if x < 0 then -magnitude else magnitude) else none

/-- `float` of a text, where the result is finite. -/
def readFloat (data : CharData) (text : List Char) : Option ℚ := do
  let text ← dropUnderscores false (trim (text.map data.seen))
  let (minus, text) := takeSign text
  let magnitude ← readMagnitude text
  double (if minus then -magnitude else magnitude)

/-- The nearest double, as if there were no largest one. -/
def nearest (x : ℚ) : ℚ := roundSigned 53 x

/-- The number that a text of `float` says, before it is rounded. -/
def decimalValue (data : CharData) (text : List Char) : Option ℚ := do
  let text ← dropUnderscores false (trim (text.map data.seen))
  let (minus, text) := takeSign text
  let magnitude ← readMagnitude text
  return if minus then -magnitude else magnitude

theorem double_eq (x : ℚ) :
    double x = if roundTo 53 |x| < 2 ^ 1024 then some (nearest x) else none := rfl

theorem readFloat_eq (data : CharData) (text : List Char) :
    readFloat data text = (decimalValue data text).bind double := by
  unfold readFloat decimalValue
  cases dropUnderscores false (trim (text.map data.seen)) with
  | none => rfl
  | some text =>
      simp only [Option.bind_eq_bind, Option.bind_some]
      cases readMagnitude (takeSign text).2 <;> rfl

/-- `int` of a number: its fraction is cut off. -/
def truncate (x : ℚ) : Int := if x < 0 then -⌊|x|⌋ else ⌊x⌋

@[simp] theorem truncate_intCast (z : Int) : truncate z = z := by
  unfold truncate
  split
  · rename_i negative
    rw [abs_of_neg negative, ← Int.cast_neg, Int.floor_intCast, neg_neg]
  · exact Int.floor_intCast z

theorem abs_truncate_le (x : ℚ) : |(truncate x : ℚ)| ≤ |x| := by
  have floor := Int.floor_le |x|
  have nonneg : (0 : ℚ) ≤ ⌊|x|⌋ := by exact_mod_cast Int.floor_nonneg.mpr (abs_nonneg x)
  unfold truncate
  split
  · rwa [Int.cast_neg, abs_neg, abs_of_nonneg nonneg]
  · rename_i negative
    rw [abs_of_nonneg (not_lt.mp negative)] at floor nonneg ⊢
    rwa [abs_of_nonneg nonneg]

/-- A finite double is below the power of two that the exponent cannot reach. -/
theorem double_lt {x y : ℚ} (finite : double x = some y) : |y| < 2 ^ 1024 := by
  rw [double_eq] at finite
  split at finite
  · rename_i small
    have size : |nearest x| = roundTo 53 |x| := abs_roundSigned 53 x
    obtain rfl := Option.some.inj finite
    exact size.trans_lt small
  · cases finite

/-- What is left is positive when the number was at least one. -/
theorem truncate_pos {x : ℚ} : 0 < truncate x ↔ 1 ≤ x := by
  unfold truncate
  split
  · rename_i negative
    have nonneg : 0 ≤ ⌊|x|⌋ := Int.floor_nonneg.mpr (abs_nonneg x)
    constructor
    · intro positive
      omega
    · intro large
      linarith
  · rw [Int.floor_pos]

theorem truncate_neg {x : ℚ} (nonneg : 0 ≤ x) : truncate (-x) = -truncate x := by
  rcases nonneg.eq_or_lt with rfl | pos
  · simp [truncate]
  · rw [truncate, truncate, if_pos (neg_neg_of_pos pos), if_neg nonneg.not_gt, abs_neg,
      abs_of_pos pos]

/-- A number of at most 15 digits, and some of 16, keeps its integer part. -/
theorem truncate_nearest {x : ℚ} {m d : ℕ} (digits : |x| = m / 10 ^ d) (few : m < 2 ^ 53) :
    truncate (nearest x) = truncate x := by
  have kept : ⌊roundTo 53 |x|⌋ = ⌊|x|⌋ := by
    have nonneg := abs_nonneg x
    have scale : (0 : ℚ) < 10 ^ d := by positivity
    have few' : (m : ℚ) < 2 ^ 53 := by exact_mod_cast few
    have scaled : (m : ℚ) = |x| * 10 ^ d := by rw [digits, div_mul_cancel₀ _ scale.ne']
    refine floor_roundTo (by norm_num) nonneg ?_ ?_
    · have le : |x| ≤ m := by
        rw [scaled]
        exact le_mul_of_one_le_right nonneg (one_le_pow₀ (by norm_num))
      have bound := (Int.floor_le |x|).trans_lt (le.trans_lt few')
      exact_mod_cast bound
    · -- In units of the last decimal the numbers are whole.
      have next : (m : ℚ) < (⌊|x|⌋ + 1) * 10 ^ d := by
        rw [scaled]
        exact mul_lt_mul_of_pos_right (Int.lt_floor_add_one |x|) scale
      have whole : (m : ℚ) + 1 ≤ (⌊|x|⌋ + 1) * 10 ^ d := by exact_mod_cast next
      have error : (m : ℚ) / 2 ^ 53 < 1 := (div_lt_one (by norm_num)).mpr few'
      refine lt_of_mul_lt_mul_right ?_ scale.le
      calc
        (|x| + |x| / 2 ^ 53) * 10 ^ d = (m : ℚ) + m / 2 ^ 53 := by
          rw [scaled]
          ring
        _ < (m : ℚ) + 1 := by linarith
        _ ≤ (⌊|x|⌋ + 1) * 10 ^ d := whole
  have rounded : 0 ≤ roundTo 53 |x| := roundTo_nonneg (abs_nonneg x)
  have same : truncate (roundTo 53 |x|) = truncate |x| := by
    rw [truncate, truncate, if_neg rounded.not_gt, if_neg (abs_nonneg x).not_gt, kept]
  rcases lt_or_ge x 0 with negative | nonneg
  · rw [nearest, roundSigned, if_pos negative, truncate_neg rounded, same,
      ← truncate_neg (abs_nonneg x), abs_of_neg negative, neg_neg]
  · rw [nearest, roundSigned, if_neg nonneg.not_gt, same, abs_of_nonneg nonneg]

end Lib.PyNumber
