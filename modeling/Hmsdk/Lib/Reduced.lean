import Mathlib

/-! # Ratios in lowest terms

A family of natural numbers over a finite set is brought to lowest terms by
dividing it by the greatest common divisor. Two families have the same lowest
terms when they are zero at the same places and proportional.
-/

namespace Lib.Reduced

variable {ι : Type*} {s : Finset ι} {f g : ι → ℕ} {i j : ι}

def reduced (s : Finset ι) (f : ι → ℕ) (i : ι) : ℕ := f i / s.gcd f

theorem reduced_mul_gcd (member : i ∈ s) : reduced s f i * s.gcd f = f i :=
  Nat.div_mul_cancel (Finset.gcd_dvd member)

theorem reduced_le (i : ι) : reduced s f i ≤ f i := Nat.div_le_self _ _

theorem reduced_mono (ordered : f i ≤ f j) : reduced s f i ≤ reduced s f j :=
  Nat.div_le_div_right ordered

theorem reduced_eq_zero_iff (member : i ∈ s) : reduced s f i = 0 ↔ f i = 0 := by
  constructor
  · intro zero
    rw [← reduced_mul_gcd (f := f) member, zero, Nat.zero_mul]
  · intro zero
    rw [reduced, zero, Nat.zero_div]

/-- Numbers in lowest terms have no common divisor. -/
theorem gcd_reduced (member : i ∈ s) (nonzero : f i ≠ 0) : s.gcd (reduced s f) = 1 :=
  Finset.gcd_div_eq_one member nonzero

/-- A common factor does not change the lowest terms. -/
theorem reduced_of_mul {c : ℕ} (positive : 0 < c) (scaled : ∀ i ∈ s, f i * c = g i)
    (member : i ∈ s) : reduced s f i = reduced s g i := by
  have gcd : s.gcd g = s.gcd f * c := by
    rw [← Finset.gcd_congr rfl scaled, Finset.gcd_mul_right, normalize_eq]
  rw [reduced, reduced, gcd, ← scaled i member, Nat.mul_div_mul_right _ _ positive]

/-- Same lowest terms are the same as proportional. -/
theorem reduced_eq_iff (zeros : ∀ i ∈ s, f i = 0 ↔ g i = 0) :
    (∀ i ∈ s, reduced s f i = reduced s g i) ↔ ∀ i ∈ s, ∀ j ∈ s, f i * g j = f j * g i := by
  constructor
  · intro same i memberI j memberJ
    rw [← reduced_mul_gcd (f := f) memberI, ← reduced_mul_gcd (f := f) memberJ,
      ← reduced_mul_gcd (f := g) memberI, ← reduced_mul_gcd (f := g) memberJ,
      same i memberI, same j memberJ]
    ring
  · intro proportional i member
    by_cases zero : f i = 0
    · rw [reduced, reduced, zero, (zeros i member).mp zero, Nat.zero_div, Nat.zero_div]
    · -- Both families, each scaled by the other's value at `i`, are one family.
      have nonzero : g i ≠ 0 := fun zeroG => zero ((zeros i member).mpr zeroG)
      calc
        reduced s f i = reduced s (fun j => f j * g i) i :=
          reduced_of_mul (Nat.pos_of_ne_zero nonzero) (fun _ _ => rfl) member
        _ = reduced s g i := by
          symm
          apply reduced_of_mul (Nat.pos_of_ne_zero zero) _ member
          intro j memberJ
          rw [proportional j memberJ i member, mul_comm]

end Lib.Reduced
