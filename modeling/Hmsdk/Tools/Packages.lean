import Hmsdk.Tools.Coherent
import Hmsdk.Tools.KernelRange

/-! # Other packages

Bandwidths towards other packages are not halved, but they take part in the
first test of the loop. A package whose numbers are all within the soft maximum
is halved once when another package's number is beyond it, and not otherwise.
-/

namespace Hmsdk.Tools

open Lib.Binary Lib.Decimal Lib.Reduced

variable {n : ℕ}

/-- The rows `bw` and `bw'` agree on the package; what they have elsewhere makes
    no difference for it. -/
def Unaffected (bw bw' : Row n) (pack : Finset (Fin n)) : Prop :=
  (∃ i ∈ pack, 10 < bw i) ∨
    ((∃ i ∉ pack, 10 < bw i) ↔ ∃ i ∉ pack, 10 < bw' i) ∨
    (∃ i ∈ pack, bw i ≠ 0 ∧ bw i ≤ 2) ∨
    (∀ i ∈ pack, Even (bw i)) ∨
    ∀ i ∈ pack, ∀ j ∈ pack, bw i ≠ 0 → bw j ≠ 0 → bw i = bw j

section

variable {bw bw' : Row n} {pack : Finset (Fin n)} {i : Fin n} {k k' : ℕ}

theorem Keeps.congr (agree : ∀ i ∈ pack, bw i = bw' i) (keeps : Keeps bw pack k) :
    Keeps bw' pack k := by
  intro i member positive
  rw [← agree i member] at positive ⊢
  exact keeps i member positive

theorem keeps_iff (agree : ∀ i ∈ pack, bw i = bw' i) : Keeps bw pack k ↔ Keeps bw' pack k :=
  ⟨Keeps.congr agree, Keeps.congr fun i member => (agree i member).symm⟩

theorem halved_congr (agree : ∀ i ∈ pack, bw i = bw' i) (member : i ∈ pack) :
    halved bw k i = halved bw' k i := by
  rw [halved, halved, agree i member]

/-- From the first halving on only the package counts. -/
theorem stops_iff (agree : ∀ i ∈ pack, bw i = bw' i)
    (zero : Stops bw pack 0 ↔ Stops bw' pack 0) (k : ℕ) : Stops bw pack k ↔ Stops bw' pack k := by
  rcases Nat.eq_zero_or_pos k with rfl | positive
  · exact zero
  · have same : scaled bw pack k = scaled bw' pack k := by
      funext i
      by_cases member : i ∈ pack
      · simp [scaled, positive.ne', member, agree i member]
      · simp [scaled, positive.ne', member]
    rw [Stops, Stops, same, keeps_iff agree]

theorem Final.unique (one : Final bw pack k) (two : Final bw pack k') : k = k' := by
  rcases Nat.lt_trichotomy k k' with below | same | above
  · exact absurd one.stops (two.before k below)
  · exact same
  · exact absurd two.stops (one.before k' above)

theorem Final.congr (agree : ∀ i ∈ pack, bw i = bw' i)
    (zero : Stops bw pack 0 ↔ Stops bw' pack 0) (final : Final bw pack k) :
    Final bw' pack k where
  stops := (stops_iff agree zero k).mp final.stops
  before j below stops := final.before j below ((stops_iff agree zero j).mpr stops)

theorem stops_zero_iff : Stops bw pack 0 ↔
    ((∀ i ∈ pack, bw i ≤ 10) ∧ ¬ ∃ i ∉ pack, 10 < bw i) ∨ ¬ Keeps bw pack 1 := by
  have small (i : Fin n) : scaled bw pack 0 i ≤ SOFT_MAX_RATIO_VAL ↔ bw i ≤ 10 := by
    rw [scaled, if_pos rfl, SOFT_MAX_RATIO_VAL]
    exact_mod_cast Iff.rfl
  rw [Stops]
  apply or_congr_left
  simp only [small, not_exists, not_and, not_lt]
  constructor
  · exact fun all => ⟨fun i _ => all i, fun i _ => all i⟩
  · intro both i
    by_cases member : i ∈ pack
    · exact both.1 i member
    · exact both.2 i member

/-- A package survives the first halving when its positive numbers are at least
    three. -/
theorem keeps_one_iff : Keeps bw pack 1 ↔ ¬ ∃ i ∈ pack, bw i ≠ 0 ∧ bw i ≤ 2 := by
  simp only [not_exists, not_and, not_le]
  apply forall₂_congr
  intro i _
  apply imp_congr_right
  intro _
  rw [pow_one, lt_div_iff₀ (by norm_num), one_mul]
  constructor
  · intro above
    by_contra low
    rw [float_of_le (Nat.not_lt.mp low) (by decide)] at above
    exact low (by exact_mod_cast above)
  · intro three
    have large : ((3 : ℕ) : ℚ) ≤ float (bw i) := (le_float_iff (by decide)).mpr three
    push_cast at large
    linarith

/-- Halving two small numbers once keeps their ratio only if it rounds neither,
    or the numbers are the same. -/
theorem halves_proportional : ∀ b : Fin 11, ∀ c : Fin 11,
    (b.val = 0 ∨ 3 ≤ b.val) → (c.val = 0 ∨ 3 ≤ c.val) →
      (b.val * round (c.val / 2) = c.val * round (b.val / 2) ↔
        b.val = 0 ∨ c.val = 0 ∨ b.val = c.val ∨ Even b.val ∧ Even c.val) := by
  decide +kernel

/-- One row is left alone and the other one is halved once. -/
theorem halvedOnce_iff (low : ∀ i ∈ pack, bw i ≤ 10) (three : ∀ i ∈ pack, bw i ≠ 0 → 3 ≤ bw i) :
    (∀ i ∈ pack, ∀ j ∈ pack, bw i * round (bw j / 2) = bw j * round (bw i / 2)) ↔
      (∀ i ∈ pack, Even (bw i)) ∨
        ∀ i ∈ pack, ∀ j ∈ pack, bw i ≠ 0 → bw j ≠ 0 → bw i = bw j := by
  have pair : ∀ i ∈ pack, ∀ j ∈ pack, (bw i * round (bw j / 2) = bw j * round (bw i / 2) ↔
      bw i = 0 ∨ bw j = 0 ∨ bw i = bw j ∨ Even (bw i) ∧ Even (bw j)) := by
    intro i memberI j memberJ
    exact halves_proportional ⟨bw i, Nat.lt_succ_of_le (low i memberI)⟩
      ⟨bw j, Nat.lt_succ_of_le (low j memberJ)⟩
      (or_iff_not_imp_left.mpr (three i memberI)) (or_iff_not_imp_left.mpr (three j memberJ))
  constructor
  · intro proportional
    by_contra neither
    simp only [not_or, not_forall] at neither
    obtain ⟨⟨o, memberO, odd⟩, i, memberI, j, memberJ, positiveI, positiveJ, differ⟩ := neither
    -- Every positive number of the package equals the odd one.
    have oddPositive : bw o ≠ 0 := fun zero => odd (by simp [zero])
    have equal : ∀ j ∈ pack, bw j ≠ 0 → bw o = bw j := by
      intro j memberJ positive
      rcases (pair o memberO j memberJ).mp (proportional o memberO j memberJ) with
        zero | zero | same | ⟨even, -⟩
      · exact absurd zero oddPositive
      · exact absurd zero positive
      · exact same
      · exact absurd even odd
    exact differ ((equal i memberI positiveI).symm.trans (equal j memberJ positiveJ))
  · intro either i memberI j memberJ
    apply (pair i memberI j memberJ).mpr
    rcases either with even | equal
    · exact .inr (.inr (.inr ⟨even i memberI, even j memberJ⟩))
    · by_cases zeroI : bw i = 0
      · exact .inl zeroI
      · by_cases zeroJ : bw j = 0
        · exact .inr (.inl zeroJ)
        · exact .inr (.inr (.inl (equal i memberI j memberJ zeroI zeroJ)))

theorem Unaffected.symm (agree : ∀ i ∈ pack, bw i = bw' i) (unaffected : Unaffected bw bw' pack) :
    Unaffected bw' bw pack := by
  rcases unaffected with ⟨i, member, large⟩ | same | ⟨i, member, low⟩ | even | equal
  · exact .inl ⟨i, member, agree i member ▸ large⟩
  · exact .inr (.inl same.symm)
  · exact .inr (.inr (.inl ⟨i, member, agree i member ▸ low⟩))
  · exact .inr (.inr (.inr (.inl fun i member => agree i member ▸ even i member)))
  · refine .inr (.inr (.inr (.inr fun i memberI j memberJ => ?_)))
    rw [← agree i memberI, ← agree j memberJ]
    exact equal i memberI j memberJ

theorem unaffected_of_stops (agree : ∀ i ∈ pack, bw i = bw' i)
    (zero : Stops bw pack 0 ↔ Stops bw' pack 0) : Unaffected bw bw' pack := by
  by_cases large : ∃ i ∈ pack, 10 < bw i
  · exact .inl large
  · by_cases keeps : Keeps bw pack 1
    · have keeps' : Keeps bw' pack 1 := keeps.congr agree
      have low : ∀ i ∈ pack, bw i ≤ 10 := fun i member =>
        Nat.not_lt.mp fun above => large ⟨i, member, above⟩
      have low' : ∀ i ∈ pack, bw' i ≤ 10 := fun i member => agree i member ▸ low i member
      rw [stops_zero_iff, stops_zero_iff] at zero
      simp only [keeps, keeps', not_true, or_false, and_iff_right low, and_iff_right low'] at zero
      exact .inr (.inl (not_iff_not.mp zero))
    · exact .inr (.inr (.inl (not_not.mp (mt keeps_one_iff.mpr keeps))))

/-- After one halving a package within the soft maximum still is, and the other
    numbers are gone. -/
theorem stops_one (low : ∀ i ∈ pack, bw i ≤ 10) : Stops bw pack 1 := by
  refine .inl fun i => ?_
  unfold scaled SOFT_MAX_RATIO_VAL
  rw [if_neg Nat.one_ne_zero]
  split
  · rename_i member
    have bound : (bw i : ℚ) ≤ 10 := by exact_mod_cast low i member
    rw [float_of_le (low i member) (by decide)]
    linarith
  · norm_num

/-- The row `bw` is left alone, and `bw'` is not because of a number outside the
    package. -/
theorem lowest_eq_iff_of_stops (agree : ∀ i ∈ pack, bw i = bw' i) (final : Final bw pack k)
    (final' : Final bw' pack k') (stops : Stops bw pack 0) (goesOn : ¬ Stops bw' pack 0) :
    (∀ i ∈ pack, reduced pack (halved bw k) i = reduced pack (halved bw' k') i) ↔
      Unaffected bw bw' pack := by
  have keeps' : Keeps bw' pack 1 := by
    by_contra quits
    exact goesOn (.inr quits)
  have keeps : Keeps bw pack 1 := (keeps_iff agree).mpr keeps'
  obtain ⟨low, noneLarge⟩ := (stops_zero_iff.mp stops).resolve_right (not_not.mpr keeps)
  have low' : ∀ i ∈ pack, bw' i ≤ 10 := fun i member => agree i member ▸ low i member
  have someLarge : ∃ i ∉ pack, 10 < bw' i := by
    by_contra noneLarge'
    exact goesOn (stops_zero_iff.mpr (.inl ⟨low', noneLarge'⟩))
  have three : ∀ i ∈ pack, bw i ≠ 0 → 3 ≤ bw i := by
    intro i member positive
    by_contra below
    exact keeps_one_iff.mp keeps ⟨i, member, positive, by omega⟩
  -- One run makes no halving, the other one makes one.
  obtain rfl : k = 0 := final.unique ⟨stops, fun j below => absurd below (Nat.not_lt_zero j)⟩
  obtain rfl : k' = 1 := by
    apply final'.unique ⟨stops_one low', _⟩
    intro j below
    rwa [Nat.lt_one_iff.mp below]
  have value : ∀ i ∈ pack, halved bw 0 i = bw i := fun i member =>
    halved_start (low i member) (by decide)
  have value' : ∀ i ∈ pack, halved bw' 1 i = round (bw i / 2) := by
    intro i member
    rw [halved, float_of_le (low' i member) (by decide), pow_one, agree i member]
  have zeros : ∀ i ∈ pack, halved bw 0 i = 0 ↔ halved bw' 1 i = 0 := by
    intro i member
    rw [final.halved_eq_zero_iff member, final'.halved_eq_zero_iff member, agree i member]
  have products : (∀ i ∈ pack, ∀ j ∈ pack,
      halved bw 0 i * halved bw' 1 j = halved bw 0 j * halved bw' 1 i) ↔
      ∀ i ∈ pack, ∀ j ∈ pack, bw i * round (bw j / 2) = bw j * round (bw i / 2) := by
    apply forall₂_congr
    intro i memberI
    apply forall₂_congr
    intro j memberJ
    rw [value i memberI, value j memberJ, value' i memberI, value' j memberJ]
  rw [reduced_eq_iff zeros, products, halvedOnce_iff low three]
  have notLarge : ¬ ∃ i ∈ pack, 10 < bw i := by
    intro large
    obtain ⟨i, member, above⟩ := large
    exact above.not_ge (low i member)
  have outside : ¬ ((∃ i ∉ pack, 10 < bw i) ↔ ∃ i ∉ pack, 10 < bw' i) := fun same =>
    noneLarge (same.mpr someLarge)
  rw [Unaffected, or_iff_right notLarge, or_iff_right outside,
    or_iff_right (keeps_one_iff.mp keeps)]

/-- Two rows that agree on the package give it the same weights exactly when the
    rest of the row makes no difference. -/
theorem lowest_eq_iff (agree : ∀ i ∈ pack, bw i = bw' i) (final : Final bw pack k)
    (final' : Final bw' pack k') :
    (∀ i ∈ pack, reduced pack (halved bw k) i = reduced pack (halved bw' k') i) ↔
      Unaffected bw bw' pack := by
  by_cases zero : Stops bw pack 0 ↔ Stops bw' pack 0
  · -- Both runs make the same number of halvings.
    obtain rfl := final'.unique (final.congr agree zero)
    refine iff_of_true (fun i member => ?_) (unaffected_of_stops agree zero)
    have family : ∀ j ∈ pack, halved bw k' j * 1 = halved bw' k' j := fun j inside => by
      rw [mul_one, halved_congr agree inside]
    exact reduced_of_mul Nat.one_pos family member
  · by_cases stops : Stops bw pack 0
    · have goesOn : ¬ Stops bw' pack 0 := fun stops' => zero (iff_of_true stops stops')
      exact lowest_eq_iff_of_stops agree final final' stops goesOn
    · have stops' : Stops bw' pack 0 := by
        by_contra goesOn
        exact zero (iff_of_false stops goesOn)
      have agree' : ∀ i ∈ pack, bw' i = bw i := fun i member => (agree i member).symm
      have swapped := lowest_eq_iff_of_stops agree' final' final stops' stops
      constructor
      · intro same
        exact (swapped.mp fun i member => (same i member).symm).symm agree'
      · intro unaffected i member
        exact (swapped.mpr (unaffected.symm agree) i member).symm

end

/-- Every row gives every node of its package the same weight. -/
def SameWeights (matrix matrix' : Fin n → Row n) (nodes : Nodes n) (possible : List (Fin n)) :
    Prop :=
  ∀ nid ∈ possible,
    rowWeights (some nodes) (matrix nid) nid = rowWeights (some nodes) (matrix' nid) nid

/-- What is written, and how the tool ends, follows from the weights. -/
theorem SameWeights.display {matrix matrix' : Fin n → Row n} {nodes : Nodes n}
    {possible : List (Fin n)} (same : SameWeights matrix matrix' nodes possible)
    (accepts : Accepts n) (sysfs : Sysfs n) :
    displayMultiRatio accepts matrix (some nodes) possible sysfs =
      displayMultiRatio accepts matrix' (some nodes) possible sysfs := by
  rw [displayMultiRatio_eq, displayMultiRatio_eq, plan, plan]
  rw [List.flatMap_congr same]

section

variable {matrix matrix' : Fin n → Row n} {nodes : Nodes n} {possible : List (Fin n)}
  {accepts : Accepts n} {files : Fin n → ℕ}

/-- Two updates that are carried out leave the same files exactly when the last row of
    each package gives the same weights. -/
theorem files_eq_iff
    (finished : (displayMultiRatio accepts matrix (some nodes) possible ⟨files, []⟩).1 = true)
    (finished' : (displayMultiRatio accepts matrix' (some nodes) possible ⟨files, []⟩).1 = true) :
    (displayMultiRatio accepts matrix (some nodes) possible ⟨files, []⟩).2.files =
        (displayMultiRatio accepts matrix' (some nodes) possible ⟨files, []⟩).2.files ↔
      ∀ nid, DecidesPackage nodes possible nid →
        rowWeights (some nodes) (matrix nid) nid = rowWeights (some nodes) (matrix' nid) nid := by
  constructor
  · intro same nid decides
    rw [rowWeights_eq, rowWeights_eq, List.map_inj_left]
    intro i inside
    have member : nodes i = nodes nid := mem_package.mp (mem_packageNids.mp inside)
    have shown := congrFun same i
    rw [displayMultiRatio_decided finished decides member,
      displayMultiRatio_decided finished' decides member] at shown
    rw [shown]
  · intro same
    funext i
    by_cases concerned : ∃ nid ∈ possible, nodes i = nodes nid
    · obtain ⟨nid, asked, member⟩ := concerned
      obtain ⟨last, decides, package⟩ := decidesPackage_exists nodes asked
      have here : nodes i = nodes last := member.trans package.symm
      have weights := same last decides
      rw [rowWeights_eq, rowWeights_eq, List.map_inj_left] at weights
      have weight := weights i (mem_packageNids.mpr (mem_package.mpr here))
      rw [displayMultiRatio_decided finished decides here,
        displayMultiRatio_decided finished' decides here]
      exact (Prod.mk.inj weight).2
    · have outside : ∀ nid ∈ possible, nodes i ≠ nodes nid :=
        fun nid asked member => concerned ⟨nid, asked, member⟩
      rw [displayMultiRatio_outside finished outside, displayMultiRatio_outside finished' outside]

/-- With one row for each package that is so for all rows. -/
theorem sameWeights_files
    (apart : ∀ nid ∈ possible, DecidesPackage nodes possible nid)
    (finished : (displayMultiRatio accepts matrix (some nodes) possible ⟨files, []⟩).1 = true)
    (finished' : (displayMultiRatio accepts matrix' (some nodes) possible ⟨files, []⟩).1 = true) :
    SameWeights matrix matrix' nodes possible ↔
      (displayMultiRatio accepts matrix (some nodes) possible ⟨files, []⟩).2.files =
        (displayMultiRatio accepts matrix' (some nodes) possible ⟨files, []⟩).2.files := by
  rw [files_eq_iff finished finished', SameWeights]
  constructor
  · rintro same nid ⟨earlier, later, rfl, last⟩
    exact same nid (by simp)
  · exact fun same nid asked => same nid (apart nid asked)

end

/-- Bandwidths towards other packages are without influence exactly when no row
    is affected by them. -/
theorem sameWeights_iff (bwMatrix bwMatrix' : Fin n → Row n) (nodes : Nodes n)
    (possible : List (Fin n))
    (agree : ∀ r ∈ possible, ∀ c ∈ package nodes r, bwMatrix r c = bwMatrix' r c) :
    ∃ matrix matrix', getIwRatioMatrix bwMatrix possible nodes = some matrix ∧
      getIwRatioMatrix bwMatrix' possible nodes = some matrix' ∧
      (SameWeights matrix matrix' nodes possible ↔
        ∀ nid ∈ possible, Unaffected (bwMatrix nid) (bwMatrix' nid) (package nodes nid)) := by
  obtain ⟨matrix, computed, rows⟩ := getIwRatioMatrix_rows bwMatrix possible nodes
  obtain ⟨matrix', computed', rows'⟩ := getIwRatioMatrix_rows bwMatrix' possible nodes
  refine ⟨matrix, matrix', computed, computed', ?_⟩
  apply forall₂_congr
  intro nid asked
  obtain ⟨row, k, returned, final, weights⟩ := getIwRatio_weights (bwMatrix nid) nodes nid
  obtain ⟨row', k', returned', final', weights'⟩ := getIwRatio_weights (bwMatrix' nid) nodes nid
  obtain rfl := Option.some.inj ((rows nid asked).symm.trans returned)
  obtain rfl := Option.some.inj ((rows' nid asked).symm.trans returned')
  rw [weights, weights', ← lowest_eq_iff (agree nid asked) final final', List.map_inj_left]
  apply forall_congr'
  intro i
  rw [mem_packageNids, Prod.mk.injEq, and_iff_right rfl]

theorem sameWeights_beyond : ∃ matrix matrix',
    getIwRatioMatrix (fun _ => ![20, 8, 3]) [0, 2] ![some 0, some 0, some 1] = some matrix ∧
      getIwRatioMatrix ![![20, 8, 900], 0, ![7, 7, 3]] [0, 2] ![some 0, some 0, some 1] =
        some matrix' ∧
      (SameWeights matrix matrix' ![some 0, some 0, some 1] [0, 2] ↔
        ∀ nid ∈ [0, 2], Unaffected ((fun _ => ![20, 8, 3] : Fin 3 → Row 3) nid)
          ((![![20, 8, 900], 0, ![7, 7, 3]] : Fin 3 → Row 3) nid)
          (package ![some 0, some 0, some 1] nid)) :=
  sameWeights_iff (fun _ => ![20, 8, 3]) ![![20, 8, 900], 0, ![7, 7, 3]]
    ![some 0, some 0, some 1] [0, 2] (by decide)

/-- A bandwidth of 100 towards the other package: the file of the first node
    gets 2, where it gets 9 without. -/
theorem sameWeights_hundred :
    (∀ r ∈ [0], ∀ c ∈ package ![some 0, some 0, some 1] r,
      (![9, 4, 5] : Row 3) c = (![9, 4, 100] : Row 3) c) ∧
    ∃ matrix matrix',
      getIwRatioMatrix (fun _ => ![9, 4, 5]) [0] ![some 0, some 0, some 1] = some matrix ∧
      getIwRatioMatrix (fun _ => ![9, 4, 100]) [0] ![some 0, some 0, some 1] = some matrix' ∧
      ¬ SameWeights matrix matrix' ![some 0, some 0, some 1] [0] := by
  refine ⟨by decide, ![![9, 4, 5], 0, 0], ![![2, 1, 0], 0, 0], by decide +kernel,
    by decide +kernel, ?_⟩
  intro same
  have written := congrArg (fun run => run.2.files 0) (same.display (fun _ _ _ => true) ⟨0, []⟩)
  exact absurd written (by decide +kernel)

end Hmsdk.Tools
