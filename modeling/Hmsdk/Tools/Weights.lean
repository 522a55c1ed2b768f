import Hmsdk.Tools.Bwactl

/-! # What the weights say about the bandwidths

The loop stops before it brings a positive bandwidth down to one, so no node is
starved by rounding. What is published are the bandwidths over one power of two,
rounded, and in lowest terms. How large that gets depends on why the loop
stopped.
-/

namespace Hmsdk.Tools

open Lib.Binary Lib.Decimal Lib.Reduced

variable {n : ℕ}

section

variable {bw : Row n} {pack : Finset (Fin n)} {i j : Fin n} {k : ℕ}

/-- Every halving that was made kept all positive bandwidths above one. -/
theorem Final.keeps (final : Final bw pack k) {m : ℕ} (made : m < k) :
    Keeps bw pack (m + 1) := by
  by_contra lost
  exact final.before m made (.inr lost)

theorem halved_zero (zero : bw i = 0) : halved bw k i = 0 := by
  simp [halved, zero, float, round, roundHalfEven]

theorem halved_mono (ordered : bw i ≤ bw j) : halved bw k i ≤ halved bw k j := by
  apply round_mono
  have := float_mono ordered
  gcongr

theorem le_round {m : ℕ} {x : ℚ} (above : m ≤ x) : m ≤ round x := by
  rw [← round_natCast m]
  exact round_mono above

theorem round_le {m : ℕ} {x : ℚ} (below : x ≤ m) : round x ≤ m := by
  rw [← round_natCast m]
  exact round_mono below

/-- No node is starved. -/
theorem Final.halved_pos (final : Final bw pack k) (member : i ∈ pack) (positive : bw i ≠ 0) :
    1 ≤ halved bw k i := by
  apply le_round
  cases k with
  | zero =>
      have one : (1 : ℚ) ≤ float (bw i) := by
        exact_mod_cast (le_float_iff (m := 1) (by decide)).mpr (Nat.one_le_iff_ne_zero.mpr positive)
      simpa using one
  | succ k => exact_mod_cast (final.keeps (Nat.lt_succ_self k) i member positive).le

theorem Final.halved_eq_zero_iff (final : Final bw pack k) (member : i ∈ pack) :
    halved bw k i = 0 ↔ bw i = 0 := by
  constructor
  · intro zero
    by_contra positive
    have := final.halved_pos member positive
    omega
  · exact halved_zero

/-- When the loop stops at the soft maximum, the halved numbers are within it. -/
theorem halved_le_ten (small : ∀ i, scaled bw pack k i ≤ SOFT_MAX_RATIO_VAL) (member : i ∈ pack) :
    halved bw k i ≤ 10 := by
  have bound : scaled bw pack k i ≤ 10 := small i
  rcases Nat.eq_zero_or_pos k with rfl | positive
  · have cast : (bw i : ℚ) ≤ 10 := bound
    have low : bw i ≤ 10 := by exact_mod_cast cast
    rwa [halved_start low (by decide)]
  · rw [scaled, if_neg positive.ne', if_pos member] at bound
    apply round_le
    exact_mod_cast bound

/-- When it quits, some positive bandwidth is at most twice the power of two. -/
theorem exists_low (quits : ¬ Keeps bw pack (k + 1)) :
    ∃ j ∈ pack, bw j ≠ 0 ∧ float (bw j) ≤ 2 ^ (k + 1) := by
  simp only [Keeps, not_forall, not_lt] at quits
  obtain ⟨j, member, positive, low⟩ := quits
  rw [div_le_iff₀ (by positivity), one_mul] at low
  exact ⟨j, member, positive, low⟩

end

/-- What a package's weights keep of its bandwidths. -/
structure Faithful (bw : Row n) (pack : Finset (Fin n)) (weight : Fin n → ℕ) : Prop where
  zero : ∀ i ∈ pack, weight i = 0 ↔ bw i = 0
  order : ∀ i ∈ pack, ∀ j ∈ pack, bw i ≤ bw j → weight i ≤ weight j
  lowest : (∃ i ∈ pack, bw i ≠ 0) → pack.gcd weight = 1
  close : ∃ k g : ℕ, 1 ≤ g ∧ ∀ i ∈ pack, |(g * weight i : ℚ) - bw i / 2 ^ k| ≤ 1 / 2
  bounded : ∀ lo ∈ pack, ∀ hi ∈ pack, bw lo ≠ 0 →
    (∀ j ∈ pack, bw j ≠ 0 → bw lo ≤ bw j) → (∀ j ∈ pack, bw j ≤ bw hi) →
      ∀ i ∈ pack, weight i ≤ max 10 (round (2 * bw hi / bw lo))

section

variable {bw : Row n} {pack : Finset (Fin n)} {k : ℕ}

/-- Below the precision of a double the halved bandwidth is within one half. -/
theorem abs_halved_sub_le {i : Fin n} (small : bw i < 2 ^ 53) :
    |(halved bw k i : ℚ) - bw i / 2 ^ k| ≤ 1 / 2 := by
  have exact : float (bw i) = bw i := (short_natCast small).roundTo_eq
  rw [halved, exact, round_cast (by positivity)]
  exact abs_roundHalfEven_sub_le _

theorem Final.halved_bounded (final : Final bw pack k) (small : ∀ i ∈ pack, bw i < 2 ^ 53)
    {lo hi i : Fin n} (member : i ∈ pack) (positive : bw lo ≠ 0)
    (lowest : ∀ j ∈ pack, bw j ≠ 0 → bw lo ≤ bw j) (highest : bw i ≤ bw hi) :
    halved bw k i ≤ max 10 (round (2 * bw hi / bw lo)) := by
  rcases final.stops with soft | quits
  · exact (halved_le_ten soft member).trans (le_max_left _ _)
  · apply le_max_of_le_right
    obtain ⟨j, inside, jPositive, low⟩ := exists_low quits
    have exactly {j : Fin n} (inside : j ∈ pack) : float (bw j) = bw j :=
      (short_natCast (small j inside)).roundTo_eq
    rw [exactly inside] at low
    have loLow : (bw lo : ℚ) ≤ 2 ^ (k + 1) := by
      have : (bw lo : ℚ) ≤ bw j := by exact_mod_cast lowest j inside jPositive
      linarith
    have loPositive : (0 : ℚ) < bw lo := by exact_mod_cast Nat.pos_of_ne_zero positive
    have ordered : (bw i : ℚ) ≤ bw hi := by exact_mod_cast highest
    apply round_mono
    rw [exactly member, div_le_div_iff₀ (by positivity) loPositive]
    calc
      (bw i : ℚ) * bw lo ≤ bw hi * 2 ^ (k + 1) := by gcongr
      _ = 2 * bw hi * 2 ^ k := by ring

end

/-- The weights for one node with processors are faithful to its bandwidths. -/
theorem getIwRatio_faithful (bw : Row n) (nodes : Nodes n) (nid : Fin n)
    (small : ∀ i, bw i < 2 ^ 53) :
    ∃ row weight, getIwRatio bw nodes nid SOFT_MAX_RATIO_VAL = some row ∧
      rowWeights (some nodes) row nid =
        (packageNids (some nodes) nid).map (fun i => (i, weight i)) ∧
      Faithful bw (package nodes nid) weight := by
  obtain ⟨row, k, returned, final, weights⟩ := getIwRatio_weights bw nodes nid
  refine ⟨row, _, returned, weights, ?_⟩
  constructor
  · intro i member
    rw [reduced_eq_zero_iff member, final.halved_eq_zero_iff member]
  · intro i _ j _ ordered
    exact reduced_mono (halved_mono ordered)
  · rintro ⟨i, member, positive⟩
    have nonzero : halved bw k i ≠ 0 := fun zero =>
      positive ((final.halved_eq_zero_iff member).mp zero)
    exact gcd_reduced member nonzero
  · by_cases nothing : (package nodes nid).gcd (halved bw k) = 0
    · -- All bandwidths of the package are zero.
      refine ⟨k, 1, le_rfl, fun i member => ?_⟩
      have zero : bw i = 0 :=
        (final.halved_eq_zero_iff member).mp (Finset.gcd_eq_zero_iff.mp nothing i member)
      simp [reduced, nothing, zero]
    · refine ⟨k, _, Nat.one_le_iff_ne_zero.mpr nothing, fun i member => ?_⟩
      have whole := reduced_mul_gcd (f := halved bw k) member
      have product : (((package nodes nid).gcd (halved bw k) : ℕ) : ℚ) *
          (reduced (package nodes nid) (halved bw k) i : ℕ) = (halved bw k i : ℕ) := by
        rw [mul_comm]
        exact_mod_cast whole
      rw [product]
      exact abs_halved_sub_le (small i)
  · intro lo _ hi _ positive lowest highest i member
    exact (reduced_le i).trans (final.halved_bounded (fun i _ => small i) member positive lowest
      (highest i member))

theorem getIwRatio_faithful_three :
    ∃ row weight, getIwRatio ![9, 4, 100] ![some 0, some 0, some 1] 0 SOFT_MAX_RATIO_VAL =
        some row ∧
      rowWeights (some ![some 0, some 0, some 1]) row 0 =
        (packageNids (some ![some 0, some 0, some 1]) 0).map (fun i => (i, weight i)) ∧
      Faithful ![9, 4, 100] (package ![some 0, some 0, some 1] 0) weight :=
  getIwRatio_faithful ![9, 4, 100] ![some 0, some 0, some 1] 0 (by decide)

end Hmsdk.Tools
