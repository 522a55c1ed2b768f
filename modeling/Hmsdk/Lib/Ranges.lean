import Mathlib.Data.List.Range

/-! # Ranges of numbers

A list of numbers written as ranges, each of which holds its first and its last
number. A new range starts where a number does not follow the one before.
-/

namespace Lib.Ranges

/-- The numbers from a first one to a last one that is not below it. -/
structure Range where
  first : Nat
  last : Nat
  ordered : first ≤ last
  deriving DecidableEq

namespace Range

def values (range : Range) : List Nat := List.range' range.first (range.last + 1 - range.first)

def single (x : Nat) : Range := ⟨x, x, le_rfl⟩

/-- The range with the number before its first one. -/
def extend (range : Range) (x : Nat) (next : x + 1 = range.first) : Range :=
  ⟨x, range.last, by have := range.ordered; omega⟩

variable {range : Range} {x : Nat}

@[simp] theorem values_single : (single x).values = [x] := by simp [values, single]

theorem values_extend (next : x + 1 = range.first) :
    (range.extend x next).values = x :: range.values := by
  have ordered := range.ordered
  have count : range.last + 1 - x = range.last + 1 - range.first + 1 := by omega
  rw [values, extend, count, List.range'_succ, values, next]

end Range

/-- Put a number before the ranges. -/
def enter (x : Nat) : List Range → List Range
  | [] => [.single x]
  | range :: rest =>
      if next : x + 1 = range.first then range.extend x next :: rest
      else .single x :: range :: rest

/-- The ranges that the numbers run through, as few as possible. -/
def runs (numbers : List Nat) : List Range := numbers.foldr enter []

theorem enter_values (x : Nat) (ranges : List Range) :
    (enter x ranges).flatMap Range.values = x :: ranges.flatMap Range.values := by
  cases ranges with
  | nil => simp [enter]
  | cons range rest =>
      rw [enter]
      split
      · rename_i next
        rw [List.flatMap_cons, Range.values_extend next, List.flatMap_cons, List.cons_append]
      · simp

/-- Nothing is lost. -/
theorem runs_values (numbers : List Nat) : (runs numbers).flatMap Range.values = numbers := by
  induction numbers with
  | nil => rfl
  | cons x rest ih => rw [runs, List.foldr_cons, enter_values, ← runs, ih]

theorem runs_ne_nil {numbers : List Nat} (nonempty : numbers ≠ []) : runs numbers ≠ [] := by
  intro none
  have values := runs_values numbers
  rw [none] at values
  exact nonempty values.symm

end Lib.Ranges
