import Hmsdk.Lib.Numeral

/-! # Numerals with separators

Long numerals are printed with a comma after every three digits, counted from
the right. The commas are taken out again before the numeral is read. In a
numeral of Python single underscores may stand between the digits as well.
-/

namespace Lib.Grouped

open Lib.Numeral

/-- A comma after each digit that a positive multiple of three others follows. -/
def insertCommas : List Char → List Char
  | [] => []
  | d :: rest =>
      if rest ≠ [] ∧ rest.length % 3 = 0 then d :: ',' :: insertCommas rest
      else d :: insertCommas rest

def dropCommas (text : List Char) : List Char := text.filter (· ≠ ',')

theorem dropCommas_insertCommas {digits : List Char} (plain : ',' ∉ digits) :
    dropCommas (insertCommas digits) = digits := by
  induction digits with
  | nil => rfl
  | cons d rest ih =>
      obtain ⟨other, later⟩ := List.ne_and_not_mem_of_not_mem_cons plain
      have visible : (d ≠ ',') := Ne.symm other
      rw [insertCommas]
      split
      · rw [dropCommas, List.filter_cons_of_pos (by simpa using visible),
          List.filter_cons_of_neg (by simp)]
        exact congrArg (d :: ·) (ih later)
      · rw [dropCommas, List.filter_cons_of_pos (by simpa using visible)]
        exact congrArg (d :: ·) (ih later)

/-- The digits of a run in which single underscores may stand between digits.
    `digit` says whether the character before was a digit. -/
def readRun (digit : Bool) : List Char → Option (List Char)
  | [] => if digit then some [] else none
  | c :: rest =>
      if c = '_' then if digit then readRun false rest else none
      else if c.isDigit then (readRun true rest).map (c :: ·)
      else none

theorem readRun_digits {digits : List Char} (nonempty : digits ≠ [])
    (allDigits : ∀ c ∈ digits, c.isDigit = true) : readRun false digits = some digits := by
  have inside (digit : Bool) (ended : digits = [] → digit = true) :
      readRun digit digits = some digits := by
    clear nonempty
    induction digits generalizing digit with
    | nil => simp [readRun, ended rfl]
    | cons c rest ih =>
        have here : c.isDigit = true := allDigits c List.mem_cons_self
        have notUnderscore : c ≠ '_' := by
          rintro rfl
          exact absurd here (by decide)
        rw [readRun, if_neg notUnderscore, if_pos here,
          ih (fun d member => allDigits d (List.mem_cons_of_mem c member)) true fun _ => rfl]
        rfl
  exact inside false fun empty => absurd empty nonempty

/-- The blanks that may stand around a numeral. -/
def isBlank (c : Char) : Bool :=
  isSpace c || ['\x1c', '\x1d', '\x1e', '\x1f'].contains c

theorem isBlank_digit {c : Char} (digit : c.isDigit = true) : isBlank c = false := by
  rw [isBlank, isSpace_digit digit, Bool.false_or, Bool.eq_false_iff]
  intro blank
  simp only [List.contains_eq_mem, decide_eq_true_eq] at blank
  revert digit
  fin_cases blank <;> decide

/-- A whole number as `{:,}` prints it. -/
def grouped (z : Int) : List Char :=
  if z < 0 then '-' :: insertCommas (Nat.toDigits 10 z.natAbs)
  else insertCommas (Nat.toDigits 10 z.natAbs)

theorem dropCommas_grouped (z : Int) : dropCommas (grouped z) = signed z := by
  have plain : ',' ∉ Nat.toDigits 10 z.natAbs := by
    intro member
    exact absurd (toDigits_isDigit z.natAbs ',' member) (by decide)
  unfold grouped signed
  split
  · rw [dropCommas, List.filter_cons_of_pos (by decide)]
    exact congrArg ('-' :: ·) (dropCommas_insertCommas plain)
  · exact dropCommas_insertCommas plain

end Lib.Grouped
