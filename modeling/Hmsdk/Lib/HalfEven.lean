import Hmsdk.Lib.Decimal

/-! # Rounding to the nearest whole number

Ties go to the even neighbour. Rounding is monotone, leaves whole numbers alone
and is off by at most one half; most uses need no more than that.
-/

namespace Lib.Decimal

variable {x y : ℚ}

theorem floor_le_roundHalfEven (x : ℚ) : ⌊x⌋ ≤ roundHalfEven x := by
  unfold roundHalfEven
  dsimp only
  split_ifs <;> omega

theorem roundHalfEven_le_floor_succ (x : ℚ) : roundHalfEven x ≤ ⌊x⌋ + 1 := by
  unfold roundHalfEven
  dsimp only
  split_ifs <;> omega

@[simp] theorem roundHalfEven_intCast (z : ℤ) : roundHalfEven z = z := by
  simp [roundHalfEven]

@[simp] theorem roundHalfEven_natCast (n : ℕ) : roundHalfEven n = n := by
  exact_mod_cast roundHalfEven_intCast n

theorem roundHalfEven_mono (ordered : x ≤ y) : roundHalfEven x ≤ roundHalfEven y := by
  rcases (Int.floor_mono ordered).eq_or_lt with same | below
  · -- Within one unit the fractions are compared with one half.
    have fractions : x - ⌊x⌋ ≤ y - ⌊y⌋ := by
      rw [same]
      linarith
    simp only [roundHalfEven, ← same] at fractions ⊢
    split_ifs <;> first | omega | linarith
  · calc
      roundHalfEven x ≤ ⌊x⌋ + 1 := roundHalfEven_le_floor_succ x
      _ ≤ ⌊y⌋ := below
      _ ≤ roundHalfEven y := floor_le_roundHalfEven y

theorem abs_roundHalfEven_sub_le (x : ℚ) : |roundHalfEven x - x| ≤ 1 / 2 := by
  have below : (⌊x⌋ : ℚ) ≤ x := Int.floor_le x
  have above : x < ⌊x⌋ + 1 := Int.lt_floor_add_one x
  unfold roundHalfEven
  dsimp only
  rw [abs_le]
  split_ifs <;> push_cast <;> constructor <;> linarith

/-- No whole number is nearer. -/
theorem abs_roundHalfEven_sub_le_int (x : ℚ) (z : ℤ) : |roundHalfEven x - x| ≤ |z - x| := by
  rcases eq_or_ne z (roundHalfEven x) with rfl | other
  · exact le_rfl
  · have half := abs_roundHalfEven_sub_le x
    have apart : (1 : ℚ) ≤ |(z : ℚ) - roundHalfEven x| := by
      exact_mod_cast Int.one_le_abs (sub_ne_zero.mpr other)
    have triangle : |(z : ℚ) - roundHalfEven x| ≤ |z - x| + |roundHalfEven x - x| := by
      rw [abs_sub_comm (roundHalfEven x : ℚ) x]
      exact abs_sub_le _ _ _
    linarith

/-- Half way between two whole numbers rounding goes to the even one. -/
theorem roundHalfEven_even (tie : |roundHalfEven x - x| = 1 / 2) : roundHalfEven x % 2 = 0 := by
  have below : (⌊x⌋ : ℚ) ≤ x := Int.floor_le x
  have above : x < ⌊x⌋ + 1 := Int.lt_floor_add_one x
  unfold roundHalfEven at tie ⊢
  dsimp only at tie ⊢
  split_ifs at tie ⊢ with lower upper even
  · rw [abs_of_nonpos (by linarith)] at tie
    linarith
  · push_cast at tie
    rw [abs_of_pos (by linarith)] at tie
    linarith
  · exact even
  · omega

/-- What is at least as near to the rounded number is rounded to it too. -/
theorem roundHalfEven_of_close (close : |y - roundHalfEven x| ≤ |x - roundHalfEven x|) :
    roundHalfEven y = roundHalfEven x := by
  have half := abs_roundHalfEven_sub_le x
  rw [abs_sub_comm] at half
  by_contra other
  have apart : (1 : ℚ) ≤ |(roundHalfEven y : ℚ) - roundHalfEven x| := by
    exact_mod_cast Int.one_le_abs (sub_ne_zero.mpr other)
  have triangle : |(roundHalfEven y : ℚ) - roundHalfEven x| ≤
      |roundHalfEven y - y| + |y - roundHalfEven x| := abs_sub_le _ _ _
  have nearest := abs_roundHalfEven_sub_le y
  -- All of it is tight: both are ties, and the neighbours are one apart.
  have tieX : |roundHalfEven x - x| = 1 / 2 := by
    rw [abs_sub_comm]
    linarith
  have tieY : |roundHalfEven y - y| = 1 / 2 := by linarith
  have evenX := roundHalfEven_even tieX
  have evenY := roundHalfEven_even tieY
  have near : |(roundHalfEven y : ℚ) - roundHalfEven x| ≤ 1 := by linarith
  have one : |roundHalfEven y - roundHalfEven x| ≤ 1 := by exact_mod_cast near
  rw [abs_le] at one
  omega

theorem le_roundHalfEven {z : ℤ} (above : z ≤ x) : z ≤ roundHalfEven x := by
  rw [← roundHalfEven_intCast z]
  exact roundHalfEven_mono above

theorem roundHalfEven_le {z : ℤ} (below : x ≤ z) : roundHalfEven x ≤ z := by
  rw [← roundHalfEven_intCast z]
  exact roundHalfEven_mono below

theorem roundHalfEven_nonneg (nonneg : 0 ≤ x) : 0 ≤ roundHalfEven x :=
  le_roundHalfEven (by exact_mod_cast nonneg)

/-- Rounding moves a number by at most half a unit of the last decimal. -/
theorem abs_rounded_sub_le (decimals : ℕ) (x : ℚ) :
    |rounded decimals x - x| ≤ 1 / 2 / 10 ^ decimals := by
  have scale : (0 : ℚ) < 10 ^ decimals := by positivity
  have magnitude : |(units decimals x : ℚ) / 10 ^ decimals - (|x|)| ≤ 1 / 2 / 10 ^ decimals := by
    have close := abs_roundHalfEven_sub_le (|x| * 10 ^ decimals)
    have whole : (units decimals x : ℚ) = roundHalfEven (|x| * 10 ^ decimals) := by
      rw [units]
      exact_mod_cast Int.toNat_of_nonneg (roundHalfEven_nonneg (by positivity))
    have scaled : (units decimals x : ℚ) / 10 ^ decimals - |x| =
        (roundHalfEven (|x| * 10 ^ decimals) - |x| * 10 ^ decimals) / 10 ^ decimals := by
      rw [whole, sub_div, mul_div_cancel_right₀ _ scale.ne']
    rw [scaled, abs_div, abs_of_pos scale]
    exact div_le_div_of_nonneg_right close scale.le
  by_cases negative : x < 0
  · rw [rounded, if_pos negative]
    rw [abs_of_neg negative] at magnitude
    rw [← abs_neg]
    convert magnitude using 2
    ring
  · rw [rounded, if_neg negative]
    rwa [abs_of_nonneg (not_lt.mp negative)] at magnitude

theorem rounded_nonneg (decimals : ℕ) (nonneg : 0 ≤ x) : 0 ≤ rounded decimals x := by
  rw [rounded, if_neg nonneg.not_gt]
  positivity

end Lib.Decimal
