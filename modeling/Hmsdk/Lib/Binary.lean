import Hmsdk.Lib.HalfEven

/-! # Binary floating point numbers

A number is short when its significand has at most `p` bits; the exponent is not
bounded. Rounding goes to the nearest short number, ties to the even one. All
numbers are rationals that are not negative.
-/

namespace Lib.Binary

open Lib.Decimal

/-- A significand of at most `p` bits, scaled by a power of two. -/
def Short (p : ℕ) (q : ℚ) : Prop := ∃ (m : ℕ) (e : ℤ), m < 2 ^ p ∧ q = m * 2 ^ e

/-- The distance of the short numbers next to `q`. -/
def ulp (p : ℕ) (q : ℚ) : ℚ := 2 ^ (Int.log 2 q + 1 - p)

def roundTo (p : ℕ) (q : ℚ) : ℚ := roundHalfEven (q / ulp p q) * ulp p q

variable {p : ℕ} {q r : ℚ}

theorem ulp_pos (p : ℕ) (q : ℚ) : 0 < ulp p q := zpow_pos (by norm_num) _

@[simp] theorem roundTo_zero (p : ℕ) : roundTo p 0 = 0 := by
  have zero : roundHalfEven 0 = 0 := by exact_mod_cast roundHalfEven_intCast 0
  simp [roundTo, zero]

theorem roundTo_nonneg (nonneg : 0 ≤ q) : 0 ≤ roundTo p q := by
  have rounded : (0 : ℚ) ≤ roundHalfEven (q / ulp p q) := by
    exact_mod_cast roundHalfEven_nonneg (div_nonneg nonneg (ulp_pos p q).le)
  exact mul_nonneg rounded (ulp_pos p q).le

theorem log_lt_iff (pos : 0 < q) (z : ℤ) : Int.log 2 q < z ↔ q < 2 ^ z := by
  have below := Int.lt_zpow_iff_log_lt (b := 2) (x := z) (by norm_num) pos
  rw [Nat.cast_ofNat] at below
  exact below.symm

theorem le_log_iff (pos : 0 < q) (z : ℤ) : z ≤ Int.log 2 q ↔ 2 ^ z ≤ q := by
  rw [← not_lt, log_lt_iff pos, not_lt]

theorem log_mul_zpow (pos : 0 < q) (z : ℤ) : Int.log 2 (q * 2 ^ z) = Int.log 2 q + z := by
  have scaled : 0 < q * 2 ^ z := by positivity
  have sameLevel (x : ℤ) : x ≤ Int.log 2 (q * 2 ^ z) ↔ x ≤ Int.log 2 q + z := by
    rw [le_log_iff scaled, ← sub_le_iff_le_add, le_log_iff pos, zpow_sub₀ (by norm_num),
      div_le_iff₀ (by positivity)]
  exact le_antisymm ((sameLevel _).mp le_rfl) ((sameLevel _).mpr le_rfl)

/-- A short number is left alone. -/
theorem Short.roundTo_eq (short : Short p q) : roundTo p q = q := by
  obtain ⟨m, e, small, rfl⟩ := short
  rcases Nat.eq_zero_or_pos m with rfl | positive
  · simp
  · have pos : (0 : ℚ) < m * 2 ^ e := by positivity
    have below : (m : ℚ) * 2 ^ e < 2 ^ ((p : ℤ) + e) := by
      rw [zpow_add₀ (by norm_num), zpow_natCast]
      have : (m : ℚ) < 2 ^ p := by exact_mod_cast small
      gcongr
    have log : Int.log 2 ((m : ℚ) * 2 ^ e) < p + e := (log_lt_iff pos _).mpr below
    obtain ⟨d, exponent⟩ : ∃ d : ℕ, e = d + (Int.log 2 ((m : ℚ) * 2 ^ e) + 1 - p) :=
      ⟨(e - (Int.log 2 ((m : ℚ) * 2 ^ e) + 1 - p)).toNat, by omega⟩
    -- In units of the last place the number is a whole number.
    have units : (m : ℚ) * 2 ^ e = (m * 2 ^ d : ℕ) * ulp p (m * 2 ^ e) := by
      rw [ulp, Nat.cast_mul, Nat.cast_pow, Nat.cast_ofNat, mul_assoc, ← zpow_natCast,
        ← zpow_add₀ (by norm_num), ← exponent]
    have whole : (m : ℚ) * 2 ^ e / ulp p (m * 2 ^ e) = (m * 2 ^ d : ℕ) :=
      (div_eq_iff (ulp_pos p _).ne').mpr units
    calc
      roundTo p (m * 2 ^ e) = (m * 2 ^ d : ℕ) * ulp p (m * 2 ^ e) := by
        rw [roundTo, whole, roundHalfEven_natCast, Int.cast_natCast]
      _ = m * 2 ^ e := units.symm

/-- Rounding commutes with a change of the exponent. -/
theorem roundTo_mul_zpow (nonneg : 0 ≤ q) (z : ℤ) :
    roundTo p (q * 2 ^ z) = roundTo p q * 2 ^ z := by
  rcases nonneg.eq_or_lt with rfl | pos
  · simp
  · have scaled : ulp p (q * 2 ^ z) = ulp p q * 2 ^ z := by
      rw [ulp, ulp, log_mul_zpow pos, ← zpow_add₀ (by norm_num)]
      congr 1
      ring
    rw [roundTo, roundTo, scaled, mul_div_mul_right _ _ (by positivity), mul_assoc]

theorem Short.mul_zpow (short : Short p q) (z : ℤ) : Short p (q * 2 ^ z) := by
  obtain ⟨m, e, small, rfl⟩ := short
  exact ⟨m, e + z, small, by rw [mul_assoc, ← zpow_add₀ (by norm_num)]⟩

theorem short_zpow (positive : 0 < p) (z : ℤ) : Short p (2 ^ z) :=
  ⟨1, z, Nat.one_lt_two_pow positive.ne', by simp⟩

theorem div_ulp_lt (pos : 0 < q) : q / ulp p q < 2 ^ p := by
  have below : q < 2 ^ (Int.log 2 q + 1) := (log_lt_iff pos _).mp (by omega)
  rw [div_lt_iff₀ (ulp_pos p q), ulp, ← zpow_natCast, ← zpow_add₀ (by norm_num)]
  simpa using below

theorem short_roundTo (positive : 0 < p) (nonneg : 0 ≤ q) : Short p (roundTo p q) := by
  rcases nonneg.eq_or_lt with rfl | pos
  · exact ⟨0, 0, by positivity, by simp⟩
  · have above : 0 ≤ roundHalfEven (q / ulp p q) :=
      roundHalfEven_nonneg (div_nonneg nonneg (ulp_pos p q).le)
    have below : roundHalfEven (q / ulp p q) ≤ (2 ^ p : ℕ) :=
      roundHalfEven_le (by exact_mod_cast (div_ulp_lt pos).le)
    obtain ⟨m, units⟩ := Int.eq_ofNat_of_zero_le above
    rw [units] at below
    have bounded : m ≤ 2 ^ p := by exact_mod_cast below
    have value : roundTo p q = m * ulp p q := by
      rw [roundTo, units]
      norm_cast
    rcases bounded.eq_or_lt with carry | small
    · -- The significand has become a power of two.
      rw [value, carry]
      push_cast
      rw [← zpow_natCast, ulp, ← zpow_add₀ (by norm_num)]
      exact short_zpow positive _
    · exact ⟨m, _, small, value⟩

theorem roundTo_le_zpow (pos : 0 < q) : roundTo p q ≤ 2 ^ (Int.log 2 q + 1) := by
  have carry : roundHalfEven (q / ulp p q) ≤ (2 ^ p : ℕ) :=
    roundHalfEven_le (by exact_mod_cast (div_ulp_lt pos).le)
  have bound : (roundHalfEven (q / ulp p q) : ℚ) ≤ 2 ^ p := by exact_mod_cast carry
  calc
    roundTo p q ≤ 2 ^ p * ulp p q := mul_le_mul_of_nonneg_right bound (ulp_pos p q).le
    _ = 2 ^ (Int.log 2 q + 1) := by
      rw [ulp, ← zpow_natCast, ← zpow_add₀ (by norm_num)]
      congr 1
      ring

theorem zpow_le_roundTo (positive : 0 < p) (pos : 0 < q) : 2 ^ Int.log 2 q ≤ roundTo p q := by
  have grid : (2 : ℚ) ^ Int.log 2 q = (2 ^ (p - 1) : ℕ) * ulp p q := by
    rw [ulp, Nat.cast_pow, Nat.cast_ofNat, ← zpow_natCast, ← zpow_add₀ (by norm_num)]
    congr 1
    omega
  have units : ((2 ^ (p - 1) : ℕ) : ℚ) ≤ q / ulp p q := by
    rw [le_div_iff₀ (ulp_pos p q), ← grid]
    exact (le_log_iff pos _).mp le_rfl
  have rounded : ((2 ^ (p - 1) : ℕ) : ℚ) ≤ roundHalfEven (q / ulp p q) := by
    exact_mod_cast le_roundHalfEven (z := (2 ^ (p - 1) : ℕ)) (by exact_mod_cast units)
  rw [grid, roundTo]
  exact mul_le_mul_of_nonneg_right rounded (ulp_pos p q).le

theorem roundTo_mono (positive : 0 < p) (nonneg : 0 ≤ q) (ordered : q ≤ r) :
    roundTo p q ≤ roundTo p r := by
  rcases nonneg.eq_or_lt with rfl | pos
  · rw [roundTo_zero]
    exact roundTo_nonneg ordered
  · have posR : 0 < r := pos.trans_le ordered
    have logs : Int.log 2 q ≤ Int.log 2 r := Int.log_mono_right pos ordered
    rcases logs.eq_or_lt with same | below
    · have grid : ulp p q = ulp p r := by rw [ulp, ulp, same]
      rw [roundTo, roundTo, grid]
      apply mul_le_mul_of_nonneg_right _ (ulp_pos p r).le
      have units := div_le_div_of_nonneg_right ordered (ulp_pos p r).le
      exact_mod_cast roundHalfEven_mono units
    · -- A power of two lies between the two numbers.
      calc
        roundTo p q ≤ 2 ^ (Int.log 2 q + 1) := roundTo_le_zpow pos
        _ ≤ 2 ^ Int.log 2 r := zpow_le_zpow_right₀ (by norm_num) below
        _ ≤ roundTo p r := zpow_le_roundTo positive posR

/-- Rounding does not pass a short number. -/
theorem Short.roundTo_le (positive : 0 < p) (short : Short p r) (nonneg : 0 ≤ q)
    (below : q ≤ r) : roundTo p q ≤ r := by
  rw [← short.roundTo_eq]
  exact roundTo_mono positive nonneg below

theorem Short.le_roundTo (positive : 0 < p) (short : Short p q) (nonneg : 0 ≤ q)
    (below : q ≤ r) : q ≤ roundTo p r := by
  rw [← short.roundTo_eq]
  exact roundTo_mono positive nonneg below

theorem short_natCast {n : ℕ} (small : n < 2 ^ p) : Short p n := ⟨n, 0, small, by simp⟩

/-- Rounding is off by at most half a unit in the last of `p` bits. -/
theorem abs_roundTo_sub_le (p : ℕ) (nonneg : 0 ≤ q) : |roundTo p q - q| ≤ q / 2 ^ p := by
  rcases nonneg.eq_or_lt with rfl | pos
  · simp
  · have units : roundTo p q - q = (roundHalfEven (q / ulp p q) - q / ulp p q) * ulp p q := by
      rw [roundTo, sub_mul, div_mul_cancel₀ _ (ulp_pos p q).ne']
    have level : 2 ^ Int.log 2 q ≤ q := (le_log_iff pos _).mp le_rfl
    calc
      |roundTo p q - q| = |roundHalfEven (q / ulp p q) - q / ulp p q| * ulp p q := by
        rw [units, abs_mul, abs_of_pos (ulp_pos p q)]
      _ ≤ 1 / 2 * ulp p q :=
        mul_le_mul_of_nonneg_right (abs_roundHalfEven_sub_le _) (ulp_pos p q).le
      _ = 2 ^ Int.log 2 q / 2 ^ p := by
        rw [ulp, zpow_sub₀ (by norm_num), zpow_add₀ (by norm_num), zpow_one, zpow_natCast]
        ring
      _ ≤ q / 2 ^ p := by gcongr

/-- Short numbers from the level of `q` on are whole in its units. -/
theorem Short.on_grid (short : Short p r) (level : 2 ^ Int.log 2 q ≤ r) :
    ∃ k : ℤ, r = k * ulp p q := by
  obtain ⟨m, e, small, rfl⟩ := short
  have exponent : Int.log 2 q + 1 - p ≤ e := by
    by_contra finer
    have fits : (m : ℚ) * 2 ^ e < 2 ^ (p : ℤ) * 2 ^ e := by
      have bound : (m : ℚ) < 2 ^ p := by exact_mod_cast small
      rw [zpow_natCast]
      gcongr
    rw [← zpow_add₀ (by norm_num)] at fits
    have power := level.trans_lt fits
    have exponents : Int.log 2 q < p + e := (zpow_lt_zpow_iff_right₀ (by norm_num)).mp power
    omega
  obtain ⟨d, shift⟩ : ∃ d : ℕ, e = d + (Int.log 2 q + 1 - p) :=
    ⟨(e - (Int.log 2 q + 1 - p)).toNat, by omega⟩
  refine ⟨(m * 2 ^ d : ℕ), ?_⟩
  rw [ulp, shift, zpow_add₀ (by norm_num), zpow_natCast]
  push_cast
  ring

/-- No short number is nearer. -/
theorem Short.abs_roundTo_sub_le (positive : 0 < p) (short : Short p r) (nonneg : 0 ≤ q) :
    |roundTo p q - q| ≤ |r - q| := by
  rcases nonneg.eq_or_lt with rfl | pos
  · simp
  have unit := ulp_pos p q
  have nearest (k : ℤ) : |roundTo p q - q| ≤ |k * ulp p q - q| := by
    have scaled (z : ℤ) : |z * ulp p q - q| = |z - q / ulp p q| * ulp p q := by
      rw [← abs_of_pos unit, ← abs_mul, abs_of_pos unit, sub_mul, div_mul_cancel₀ _ unit.ne']
    rw [roundTo, scaled, scaled]
    exact mul_le_mul_of_nonneg_right (abs_roundHalfEven_sub_le_int _ k) unit.le
  rcases le_or_gt (2 ^ Int.log 2 q) r with above | below
  · obtain ⟨k, rfl⟩ := short.on_grid above
    exact nearest k
  · -- A power of two lies between.
    obtain ⟨k, grid⟩ := (short_zpow positive (Int.log 2 q)).on_grid (q := q) le_rfl
    have level : 2 ^ Int.log 2 q ≤ q := (le_log_iff pos _).mp le_rfl
    refine (nearest k).trans ?_
    rw [← grid, abs_of_nonpos (by linarith), abs_of_nonpos (by linarith)]
    linarith

/-- A short number that is printed, read and printed again. -/
theorem Short.fixed_roundTo (positive : 0 < p) (short : Short p q) (nonneg : 0 ≤ q) (decimals : ℕ) :
    fixed decimals (roundTo p (rounded decimals q)) = fixed decimals q := by
  have printed := rounded_nonneg decimals nonneg
  have close := short.abs_roundTo_sub_le positive printed
  have read := roundTo_nonneg (p := p) printed
  have scale : (0 : ℚ) < 10 ^ decimals := by positivity
  have whole : rounded decimals q * 10 ^ decimals =
      Lib.Decimal.roundHalfEven (q * 10 ^ decimals) := by
    rw [rounded, if_neg nonneg.not_gt, div_mul_cancel₀ _ scale.ne', units, abs_of_nonneg nonneg]
    exact_mod_cast Int.toNat_of_nonneg (roundHalfEven_nonneg (by positivity))
  have same : Lib.Decimal.roundHalfEven (roundTo p (rounded decimals q) * 10 ^ decimals) =
      Lib.Decimal.roundHalfEven (q * 10 ^ decimals) := by
    apply roundHalfEven_of_close
    rw [← whole, ← sub_mul, ← sub_mul, abs_mul, abs_mul]
    exact mul_le_mul_of_nonneg_right close (abs_nonneg _)
  rw [fixed, fixed, if_neg read.not_gt, if_neg nonneg.not_gt, units, units, abs_of_nonneg read,
    abs_of_nonneg nonneg, same]

/-- What is read is off by at most one unit of the last decimal. -/
theorem Short.abs_read_sub_le (positive : 0 < p) (short : Short p q) (nonneg : 0 ≤ q)
    (decimals : ℕ) : |roundTo p (rounded decimals q) - q| ≤ 1 / 10 ^ decimals := by
  have close := short.abs_roundTo_sub_le positive (rounded_nonneg decimals nonneg)
  have printed := abs_rounded_sub_le decimals q
  rw [abs_sub_comm] at printed
  have triangle := abs_sub_le (roundTo p (rounded decimals q)) (rounded decimals q) q
  rw [abs_sub_comm (rounded decimals q) q] at triangle
  have halves : (1 : ℚ) / 2 / 10 ^ decimals + 1 / 2 / 10 ^ decimals = 1 / 10 ^ decimals := by ring
  linarith

/-- Rounding of any number, with the sign kept apart. -/
def roundSigned (p : ℕ) (q : ℚ) : ℚ := if q < 0 then -roundTo p |q| else roundTo p |q|

theorem roundSigned_of_nonneg (nonneg : 0 ≤ q) : roundSigned p q = roundTo p q := by
  rw [roundSigned, if_neg nonneg.not_gt, abs_of_nonneg nonneg]

theorem abs_roundSigned (p : ℕ) (q : ℚ) : |roundSigned p q| = roundTo p |q| := by
  have nonneg : 0 ≤ roundTo p |q| := roundTo_nonneg (abs_nonneg q)
  unfold roundSigned
  split
  · rw [abs_neg, abs_of_nonneg nonneg]
  · exact abs_of_nonneg nonneg

theorem abs_roundSigned_sub_le (p : ℕ) (q : ℚ) : |roundSigned p q - q| ≤ |q| / 2 ^ p := by
  rcases lt_or_ge q 0 with negative | nonneg
  · have magnitude := abs_roundTo_sub_le p (neg_nonneg.mpr negative.le)
    rw [roundSigned, if_pos negative, abs_of_neg negative, ← abs_neg]
    convert magnitude using 2
    ring
  · rw [roundSigned_of_nonneg nonneg, abs_of_nonneg nonneg]
    exact abs_roundTo_sub_le p nonneg

/-- Rounding keeps the integer part where it cannot reach the next integer. -/
theorem floor_roundTo (positive : 0 < p) (nonneg : 0 ≤ q) (small : ⌊q⌋ < 2 ^ p)
    (room : q + q / 2 ^ p < ⌊q⌋ + 1) : ⌊roundTo p q⌋ = ⌊q⌋ := by
  obtain ⟨n, floor⟩ := Int.eq_ofNat_of_zero_le (Int.floor_nonneg.mpr nonneg)
  have below : (n : ℚ) ≤ q := by
    have le := Int.floor_le q
    rwa [floor, Int.cast_natCast] at le
  rw [floor] at small room ⊢
  have short : Short p n := short_natCast (by exact_mod_cast small)
  have error := le_of_abs_le (abs_roundTo_sub_le p nonneg)
  rw [Int.floor_eq_iff]
  push_cast at room ⊢
  exact ⟨short.le_roundTo positive (Nat.cast_nonneg n) below, by linarith⟩

/-- The exponent of a short whole number need not be negative. -/
theorem Short.of_nat {n : ℕ} (short : Short p n) : ∃ m a : ℕ, m < 2 ^ p ∧ n = m * 2 ^ a := by
  obtain ⟨m, e, small, value⟩ := short
  obtain ⟨a, rfl | rfl⟩ := e.eq_nat_or_neg
  · exact ⟨m, a, small, by exact_mod_cast value⟩
  · have scaled : (n : ℚ) * 2 ^ a = m := by
      rw [value, zpow_neg, zpow_natCast]
      field_simp
    have whole : n * 2 ^ a = m := by exact_mod_cast scaled
    have le : n ≤ m := whole ▸ Nat.le_mul_of_pos_right n (by positivity)
    exact ⟨n, 0, le.trans_lt small, by simp⟩

/-- The divisors of a short whole number are short. -/
theorem Short.of_dvd {n d : ℕ} (short : Short p n) (divides : d ∣ n) (nonzero : n ≠ 0) :
    Short p d := by
  obtain ⟨m, a, small, rfl⟩ := short.of_nat
  obtain ⟨m', power, left, right, rfl⟩ := (Nat.dvd_mul).mp divides
  obtain ⟨b, -, rfl⟩ := (Nat.dvd_prime_pow Nat.prime_two).mp right
  have positive : 0 < m := Nat.pos_of_ne_zero fun zero => nonzero (by simp [zero])
  exact ⟨m', b, (Nat.le_of_dvd positive left).trans_lt small, by push_cast; rfl⟩

theorem roundTo_nat (p n : ℕ) : ∃ k : ℕ, roundTo p n = k := by
  rcases lt_or_ge n (2 ^ p) with small | large
  · exact ⟨n, (short_natCast small).roundTo_eq⟩
  · have pos : (0 : ℚ) < n := by exact_mod_cast (Nat.two_pow_pos p).trans_le large
    have level : (p : ℤ) ≤ Int.log 2 (n : ℚ) := by
      rw [le_log_iff pos, zpow_natCast]
      exact_mod_cast large
    obtain ⟨a, exponent⟩ : ∃ a : ℕ, Int.log 2 (n : ℚ) + 1 - p = a :=
      ⟨(Int.log 2 (n : ℚ) + 1 - p).toNat, by omega⟩
    have above : 0 ≤ roundHalfEven (n / ulp p n) :=
      roundHalfEven_nonneg (div_nonneg pos.le (ulp_pos p _).le)
    obtain ⟨m, units⟩ := Int.eq_ofNat_of_zero_le above
    refine ⟨m * 2 ^ a, ?_⟩
    rw [roundTo, units, ulp, exponent]
    push_cast
    rfl

/-- Rounding a short number to a whole number gives a short one. -/
theorem Short.roundHalfEven (short : Short p q) : Short p (roundHalfEven q) := by
  obtain ⟨m, e, small, value⟩ := short
  obtain ⟨a, rfl | rfl⟩ := e.eq_nat_or_neg
  · have whole : q = ((m * 2 ^ a : ℕ) : ℚ) := by
      rw [value]
      push_cast
      rfl
    rw [whole, roundHalfEven_natCast]
    exact ⟨m, a, small, by push_cast; rfl⟩
  · have below : q ≤ m := by
      rw [value, zpow_neg, zpow_natCast]
      have fraction : ((2 : ℚ) ^ a)⁻¹ ≤ 1 := inv_le_one_of_one_le₀ (one_le_pow₀ (by norm_num))
      exact mul_le_of_le_one_right (by positivity) fraction
    have nonneg : 0 ≤ q := by
      rw [value]
      positivity
    have bound : Lib.Decimal.roundHalfEven q ≤ (m : ℤ) :=
      roundHalfEven_le (by exact_mod_cast below)
    obtain ⟨k, rounded⟩ := Int.eq_ofNat_of_zero_le (roundHalfEven_nonneg nonneg)
    rw [rounded] at bound ⊢
    have le : k ≤ m := by exact_mod_cast bound
    exact_mod_cast short_natCast (le.trans_lt small)

end Lib.Binary
