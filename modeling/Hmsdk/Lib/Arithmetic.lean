import Hmsdk.Lib.Binary

/-! # Rounded arithmetic

A program computes with the numbers of some format: each operation gives the exact
result, rounded to the format. Arithmetic without rounding is exact. Doubles are
the numbers of 53 bits; a program that comes near neither end of their range does
not see that their exponents are bounded.
-/

namespace Lib

open Lib.Decimal

/-- What becomes of the exact result of an operation. -/
class Arithmetic where
  nearest : ℚ → ℚ

namespace Arithmetic

abbrev exact : Arithmetic := ⟨id⟩

/-- What programs compute with unless something else is said. -/
instance double : Arithmetic := ⟨Binary.roundSigned 53⟩

section

variable [Arithmetic]

def add (x y : ℚ) : ℚ := nearest (x + y)

def sub (x y : ℚ) : ℚ := nearest (x - y)

def mul (x y : ℚ) : ℚ := nearest (x * y)

def div (x y : ℚ) : ℚ := nearest (x / y)

def ofNat (n : ℕ) : ℚ := nearest n

/-- The sum as a loop works it out. -/
def total (values : List ℚ) : ℚ := values.foldl add 0

def average (values : List ℚ) : ℚ := div (total values) (ofNat values.length)

end

variable {x y : ℚ} {values : List ℚ}

@[simp] theorem exact_add : @add exact x y = x + y := rfl

@[simp] theorem exact_div : @div exact x y = x / y := rfl

@[simp] theorem exact_total : @total exact values = values.sum := by
  have fold (start : ℚ) : values.foldl (@add exact) start = start + values.sum := by
    induction values generalizing start with
    | nil => simp
    | cons value values ih =>
        rw [List.foldl_cons, ih, exact_add, List.sum_cons, ← add_assoc]
  exact (fold 0).trans (zero_add _)

@[simp] theorem exact_average : @average exact values = values.sum / (values.length : ℚ) :=
  congrArg (· / (values.length : ℚ)) exact_total

/-- A double that is not negative. -/
structure Double (x : ℚ) : Prop where
  nonneg : 0 ≤ x
  short : Binary.Short 53 x

theorem double_nearest (nonneg : 0 ≤ x) : Double (nearest x) := by
  have unsigned : nearest x = Binary.roundTo 53 x := Binary.roundSigned_of_nonneg nonneg
  rw [unsigned]
  exact ⟨Binary.roundTo_nonneg nonneg, Binary.short_roundTo (by norm_num) nonneg⟩

theorem double_zero : Double 0 := ⟨le_rfl, 0, 0, by norm_num, by simp⟩

theorem double_ofNat (n : ℕ) : Double (ofNat n) := double_nearest (Nat.cast_nonneg n)

theorem double_add (left : 0 ≤ x) (right : 0 ≤ y) : Double (add x y) :=
  double_nearest (add_nonneg left right)

theorem double_mul (left : 0 ≤ x) (right : 0 ≤ y) : Double (mul x y) :=
  double_nearest (mul_nonneg left right)

theorem double_div (left : 0 ≤ x) (right : 0 ≤ y) : Double (div x y) :=
  double_nearest (div_nonneg left right)

theorem abs_sub_sub_le (x y : ℚ) : |sub x y - (x - y)| ≤ |x - y| / 2 ^ 53 :=
  Binary.abs_roundSigned_sub_le 53 (x - y)

namespace Double

variable (double : Double x) (decimals : ℕ)

include double

theorem nearest_rounded : nearest (rounded decimals x) = Binary.roundTo 53 (rounded decimals x) :=
  Binary.roundSigned_of_nonneg (rounded_nonneg decimals double.nonneg)

theorem read : Double (nearest (rounded decimals x)) :=
  double_nearest (rounded_nonneg decimals double.nonneg)

/-- What is read need not be the double that was printed, but is printed alike. -/
theorem fixed_read : fixed decimals (nearest (rounded decimals x)) = fixed decimals x := by
  rw [double.nearest_rounded]
  exact double.short.fixed_roundTo (by norm_num) double.nonneg decimals

theorem abs_read_sub_le : |nearest (rounded decimals x) - x| ≤ 1 / 10 ^ decimals := by
  rw [double.nearest_rounded]
  exact double.short.abs_read_sub_le (by norm_num) double.nonneg decimals

end Double

end Arithmetic

end Lib
