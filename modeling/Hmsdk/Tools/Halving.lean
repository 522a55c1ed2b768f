import Hmsdk.Tools.Indexing

/-! # The halvings of a row

What `get_iw_ratio` returns for the lists and the map of packages that it is
given, as long as all numbers in them are doubles: the numbers of the package
over the power of two at which the loop has a reason to stop. The unit that the
numbers are given in drops out with the greatest common divisor.
-/

namespace Hmsdk.Tools

open Lib.Binary Lib.Decimal Indexing

/-- The row after so many halvings; those of other packages are dropped by the
    first one. -/
def halvings (data : List ℕ) (nodes : NodeMap) (nid k : ℕ) : List ℚ :=
  data.mapIdx fun i (b : ℕ) =>
    if k = 0 then (b : ℚ) else if nodes i = nodes nid then (b : ℚ) / 2 ^ k else 0

/-- The reasons to stop: all numbers are small, or one of the package would get
    down to one. -/
def HaltsAt (softMax : ℚ) (data : List ℕ) (nodes : NodeMap) (nid k : ℕ) : Prop :=
  (∀ x ∈ halvings data nodes nid k, x ≤ softMax) ∨
    ∃ i, ∃ b : ℕ, data[i]? = some b ∧ nodes i = nodes nid ∧
      0 < (b : ℚ) / 2 ^ (k + 1) ∧ (b : ℚ) / 2 ^ (k + 1) ≤ 1

/-- A row of zeros stays as it is. -/
def lowestTerms (row : List ℕ) : List ℕ := row.map (· / row.foldr Nat.gcd 0)

section

variable {n : ℕ} {bw : Row n} {nodes : NodeMap} {total : Nodes n} {nid : Fin n} {k : ℕ}
variable {softMax : ℚ}

theorem mem_package_iff (covers : Covers nodes total) (i : Fin n) :
    i ∈ package total nid ↔ nodes i = nodes nid := by
  rw [mem_package, covers i, covers nid, Option.some_inj]

theorem halvings_ofFn (covers : Covers nodes total) (exact : ∀ i, bw i < 2 ^ 53) :
    halvings (List.ofFn bw) nodes nid k = List.ofFn (scaled bw (package total nid) k) := by
  apply List.ext_getElem
  · simp [halvings]
  · intro i before _
    have inside : i < n := by simpa [halvings] using before
    have here : ⟨i, inside⟩ ∈ package total nid ↔ _ := mem_package_iff covers _
    simp [halvings, scaled, here, float_of_le le_rfl (exact _)]

theorem keeps_exact (covers : Covers nodes total) (exact : ∀ i, bw i < 2 ^ 53) :
    ¬ Keeps bw (package total nid) (k + 1) ↔
      ∃ i, ∃ b : ℕ, (List.ofFn bw)[i]? = some b ∧ nodes i = nodes nid ∧
        0 < (b : ℚ) / 2 ^ (k + 1) ∧ (b : ℚ) / 2 ^ (k + 1) ≤ 1 := by
  simp only [Keeps, not_forall, not_lt, exists_prop]
  constructor
  · rintro ⟨i, member, nonzero, low⟩
    rw [float_of_le le_rfl (exact i)] at low
    have positive : (0 : ℚ) < bw i := by exact_mod_cast Nat.pos_of_ne_zero nonzero
    exact ⟨i, bw i, by simp, (mem_package_iff covers i).mp member, by positivity, low⟩
  · rintro ⟨i, b, at_i, same, positive, low⟩
    obtain ⟨inside, rfl⟩ := List.getElem?_eq_some_iff.mp at_i
    rw [List.length_ofFn] at inside
    rw [List.getElem_ofFn] at positive low
    refine ⟨⟨i, inside⟩, (mem_package_iff covers _).mpr same, ?_, ?_⟩
    · intro zero
      simp [zero] at positive
    · rwa [float_of_le le_rfl (exact _)]

theorem haltsAt_iff (covers : Covers nodes total) (exact : ∀ i, bw i < 2 ^ 53) :
    HaltsAt softMax (List.ofFn bw) nodes nid k ↔ StopsAt softMax bw (package total nid) k := by
  rw [HaltsAt, StopsAt, halvings_ofFn covers exact, keeps_exact covers exact,
    List.forall_mem_ofFn_iff]

theorem listGcd_eq_foldr (row : List ℕ) : Tools.listGcd row = row.foldr Nat.gcd 0 := by
  cases row with
  | nil => rfl
  | cons first rest =>
      rw [← List.foldl_eq_foldr, List.foldl_cons, Nat.gcd_zero_left]
      rfl

/-- The quotients are computed exactly, so nothing is lost by rounding them. -/
theorem normalize_exact {data : Fin n → ℚ} (short : ∀ i, Short 53 (round (data i))) :
    List.ofFn (Tools.normalize data) = lowestTerms ((List.ofFn data).map round) := by
  have divisor : rowGcd data = ((List.ofFn data).map round).foldr Nat.gcd 0 := by
    rw [rowGcd, listGcd_eq_foldr, List.map_ofFn, List.ofFn_eq_map]
    rfl
  rw [lowestTerms, ← divisor, List.map_ofFn, List.map_ofFn]
  congr 1
  funext i
  show Tools.normalize data i = round (data i) / rowGcd data
  by_cases zero : rowGcd data = 0
  · have nothing : round (data i) = 0 := Nat.eq_zero_of_zero_dvd (zero ▸ rowGcd_dvd data i)
    rw [normalize_zero zero, nothing, Nat.zero_div]
  · rw [normalize_nonzero zero, trueDiv_exact (short i) (rowGcd_dvd data i) zero, round_natCast]

theorem short_scaled (exact : ∀ i, bw i < 2 ^ 53) (pack : Finset (Fin n)) (i : Fin n) :
    Short 53 (round (scaled bw pack k i)) := by
  rw [scaled]
  split_ifs
  · rw [round_natCast]
    exact short_natCast (exact i)
  · exact short_halved bw k i
  · rw [← Nat.cast_zero, round_natCast]
    exact short_natCast (by decide)

end

/-- The result is the row of the first halving at which there is a reason to stop,
    rounded and in lowest terms. -/
theorem getIwRatio_halvings {data : List ℕ} {nodes : NodeMap} {nid : ℕ} {softMax : ℚ}
    (exact : ∀ b ∈ data, b < 2 ^ 53) (total : ∀ i < data.length, (nodes i).isSome)
    (inside : nid < data.length) (atLeastOne : 1 ≤ softMax) :
    ∃ k, IsLeast {k | HaltsAt softMax data nodes nid k} k ∧
      Indexing.getIwRatio data nodes nid softMax =
        .ok (lowestTerms ((halvings data nodes nid k).map round)) := by
  obtain ⟨n, bw, rfl⟩ : ∃ n, ∃ bw : Row n, data = List.ofFn bw :=
    ⟨data.length, data.get, (List.ofFn_get data).symm⟩
  rw [List.length_ofFn] at total inside
  obtain ⟨nid, rfl⟩ : ∃ i : Fin n, nid = i := ⟨⟨nid, inside⟩, rfl⟩
  have exact' : ∀ i, bw i < 2 ^ 53 := fun i => exact _ (List.mem_ofFn.mpr ⟨i, rfl⟩)
  have found : ∀ i : Fin n, ∃ pack, nodes i = some pack :=
    fun i => Option.isSome_iff_exists.mp (total i i.isLt)
  choose packs covers using found
  have nonneg : 0 ≤ softMax := zero_le_one.trans atLeastOne
  obtain ⟨k, least, returned⟩ := getIwRatio_least nonneg bw packs nid
  have halts : {k | HaltsAt softMax (List.ofFn bw) nodes nid k} =
      {k | StopsAt softMax bw (package packs nid) k} :=
    Set.ext fun _ => haltsAt_iff covers exact'
  refine ⟨k, halts ▸ least, ?_⟩
  rw [getIwRatio_ofFn covers returned, normalize_exact (short_scaled exact' _),
    ← halvings_ofFn covers exact']

/-- Two packages of which the first one has three of the four nodes. -/
def threeAndOne : NodeMap := fun nid => if nid < 3 then some (some 0) else some (some 1)

theorem getIwRatio_halvings_four :
    ∃ k, IsLeast {k | HaltsAt 10 [1000, 400, 300, 7] threeAndOne 0 k} k ∧
      Indexing.getIwRatio [1000, 400, 300, 7] threeAndOne 0 10 =
        .ok (lowestTerms ((halvings [1000, 400, 300, 7] threeAndOne 0 k).map round)) :=
  getIwRatio_halvings (by decide) (by decide) (by decide) (by norm_num)

section

variable {d : List ℕ} {nodes : NodeMap} {nid own k m : ℕ} {softMax : ℚ}

theorem halvings_same (same : ∀ i < d.length, nodes i = nodes nid) :
    halvings d nodes nid k = d.map fun (b : ℕ) => (b : ℚ) / 2 ^ k := by
  apply List.ext_getElem
  · simp [halvings]
  · intro i before _
    have inside : i < d.length := by simpa [halvings] using before
    rcases Nat.eq_zero_or_pos k with rfl | positive
    · simp [halvings]
    · simp [halvings, same i inside, positive.ne']

theorem haltsAt_same (same : ∀ i < d.length, nodes i = nodes nid) :
    HaltsAt softMax d nodes nid k ↔
      (∀ b ∈ d, (b : ℚ) / 2 ^ k ≤ softMax) ∨
        ∃ b ∈ d, 0 < (b : ℚ) / 2 ^ (k + 1) ∧ (b : ℚ) / 2 ^ (k + 1) ≤ 1 := by
  rw [HaltsAt, halvings_same same, List.forall_mem_map]
  refine or_congr_right ⟨?_, ?_⟩
  · rintro ⟨i, b, at_i, -, low⟩
    exact ⟨b, List.mem_of_getElem? at_i, low⟩
  · rintro ⟨b, member, low⟩
    obtain ⟨i, at_i⟩ := List.mem_iff_getElem?.mp member
    obtain ⟨inside, -⟩ := List.getElem?_eq_some_iff.mp at_i
    exact ⟨i, b, at_i, same i inside, low⟩

/-- The factor is halved away by as many rounds as it has twos. -/
theorem mul_div_pow (b m k : ℕ) : ((2 ^ m * b : ℕ) : ℚ) / 2 ^ (m + k) = b / 2 ^ k := by
  rw [Nat.cast_mul, Nat.cast_pow, Nat.cast_two, pow_add]
  exact mul_div_mul_left _ _ (by positivity)

theorem halvings_mul (same : ∀ i < d.length, nodes i = nodes nid) :
    halvings (d.map (2 ^ m * ·)) nodes nid (m + k) = halvings d nodes nid k := by
  rw [halvings_same (by simpa using same), halvings_same same, List.map_map]
  exact List.map_congr_left fun b _ => mul_div_pow b m k

theorem haltsAt_mul (same : ∀ i < d.length, nodes i = nodes nid) :
    HaltsAt softMax (d.map (2 ^ m * ·)) nodes nid (m + k) ↔ HaltsAt softMax d nodes nid k := by
  rw [haltsAt_same (by simpa using same), haltsAt_same same]
  simp only [List.mem_map, exists_exists_and_eq_and, forall_exists_index, and_imp,
    forall_apply_eq_imp_iff₂, mul_div_pow, add_assoc m k 1]

/-- Where the loop stops before the factor is gone, it stops at once without it. -/
theorem haltsAt_zero (same : ∀ i < d.length, nodes i = nodes nid) (early : k < m)
    (halts : HaltsAt softMax (d.map (2 ^ m * ·)) nodes nid k) :
    HaltsAt softMax d nodes nid 0 := by
  obtain ⟨c, rfl⟩ := Nat.exists_eq_add_of_lt early
  rw [haltsAt_same (by simpa using same), List.forall_mem_map] at halts
  rw [haltsAt_same same]
  have quotient (b : ℕ) : ((2 ^ (k + c + 1) * b : ℕ) : ℚ) / 2 ^ (k + 1) = (2 ^ c * b : ℕ) := by
    rw [div_eq_iff (by positivity)]
    push_cast
    ring
  rcases halts with small | ⟨_, scaled, positive, low⟩
  · refine .inl fun b member => ?_
    have bound := small b member
    have grows : (b : ℚ) ≤ ((2 ^ (k + c + 1) * b : ℕ) : ℚ) / 2 ^ k := by
      rw [le_div_iff₀ (by positivity)]
      exact_mod_cast show b * 2 ^ k ≤ 2 ^ (k + c + 1) * b by
        rw [mul_comm]
        exact Nat.mul_le_mul_right b (Nat.pow_le_pow_right (by decide) (by omega))
    rw [pow_zero, div_one]
    exact grows.trans bound
  · obtain ⟨b, member, rfl⟩ := List.mem_map.mp scaled
    rw [quotient] at positive low
    have nonzero : 0 < 2 ^ c * b := by exact_mod_cast positive
    have one : 2 ^ c * b ≤ 1 := by exact_mod_cast low
    have b_pos : 0 < b := Nat.pos_of_mul_pos_left nonzero
    have b_le : b ≤ 1 := (Nat.le_mul_of_pos_left b (by positivity)).trans one
    obtain rfl : b = 1 := by omega
    exact .inr ⟨1, member, by norm_num, by norm_num⟩

theorem lowestTerms_mul {c : ℕ} (positive : 0 < c) (row : List ℕ) :
    lowestTerms (row.map (c * ·)) = lowestTerms row := by
  have divisor : (row.map (c * ·)).foldr Nat.gcd 0 = c * row.foldr Nat.gcd 0 := by
    induction row with
    | nil => simp
    | cons b rest ih => rw [List.map_cons, List.foldr_cons, ih, Nat.gcd_mul_left, List.foldr_cons]
  rw [lowestTerms, divisor, List.map_map, lowestTerms]
  exact List.map_congr_left fun b _ => Nat.mul_div_mul_left b _ positive

/-- The two runs stop at rows with the same lowest terms. -/
theorem lowestTerms_unit {K : ℕ} (same : ∀ i < d.length, nodes i = nodes nid)
    (scaled : IsLeast {k | HaltsAt softMax (d.map (2 ^ m * ·)) nodes nid k} K)
    (plain : IsLeast {k | HaltsAt softMax d nodes nid k} k) :
    lowestTerms ((halvings (d.map (2 ^ m * ·)) nodes nid K).map round) =
      lowestTerms ((halvings d nodes nid k).map round) := by
  rcases Nat.lt_or_ge K m with early | late
  · obtain rfl : k = 0 := Nat.le_zero.mp (plain.2 (haltsAt_zero same early scaled.1))
    obtain ⟨c, rfl⟩ := Nat.exists_eq_add_of_lt early
    have left : (halvings (d.map (2 ^ (K + c + 1) * ·)) nodes nid K).map round =
        d.map (2 ^ (c + 1) * ·) := by
      rw [halvings_same (by simpa using same), List.map_map, List.map_map]
      refine List.map_congr_left fun b _ => ?_
      have whole : ((2 ^ (K + c + 1) * b : ℕ) : ℚ) / 2 ^ K = (2 ^ (c + 1) * b : ℕ) := by
        rw [div_eq_iff (by positivity)]
        push_cast
        ring
      exact (congrArg round whole).trans (round_natCast _)
    have right : (halvings d nodes nid 0).map round = d := by
      rw [halvings_same same, List.map_map]
      refine (List.map_congr_left fun b _ => ?_).trans d.map_id
      simp
    rw [left, right, lowestTerms_mul (by positivity)]
  · obtain ⟨j, rfl⟩ := Nat.exists_eq_add_of_le late
    have least : IsLeast {k | HaltsAt softMax d nodes nid k} j := by
      refine ⟨(haltsAt_mul same).mp scaled.1, fun i halts => ?_⟩
      exact Nat.le_of_add_le_add_left (scaled.2 ((haltsAt_mul same).mpr halts))
    rw [halvings_mul same, least.unique plain]

theorem halveLoop_own (item : nodes.item nid = nodes.item own) (data : List ℚ) (l : List ℕ)
    (newData : List ℚ) :
    Indexing.halveLoop nodes nid data l newData = Indexing.halveLoop nodes own data l newData := by
  induction l generalizing newData with
  | nil => rfl
  | cons i rest ih => simp only [Indexing.halveLoop, item, ih]

/-- The loops use the node for its package only. -/
theorem getIwRatio_own (item : nodes.item nid = nodes.item own) (data : List ℕ) :
    Indexing.getIwRatio data nodes nid softMax = Indexing.getIwRatio data nodes own softMax := by
  have loop (rounds : ℕ) (ratios newData : List ℚ) :
      Indexing.ratioLoop softMax nodes nid rounds ratios newData =
        Indexing.ratioLoop softMax nodes own rounds ratios newData := by
    induction rounds generalizing ratios newData with
    | zero => rfl
    | succ rounds ih => simp only [Indexing.ratioLoop, halveLoop_own item, ih]
  rw [Indexing.getIwRatio, Indexing.getIwRatio, loop]

end

/-- Within one package a power of two in the unit changes nothing. Only an empty
    row has no ratio. -/
theorem getIwRatio_unit {d : List ℕ} {nodes : NodeMap} {nid m : ℕ} (known : (nodes nid).isSome)
    (same : ∀ i < d.length, nodes i = nodes nid) (exact : ∀ b ∈ d, 2 ^ m * b < 2 ^ 53) :
    Indexing.getIwRatio (d.map (2 ^ m * ·)) nodes nid SOFT_MAX_RATIO_VAL =
        Indexing.getIwRatio d nodes nid SOFT_MAX_RATIO_VAL ∧
      (d ≠ [] → ∃ row, Indexing.getIwRatio d nodes nid SOFT_MAX_RATIO_VAL = .ok row) := by
  by_cases empty : d = []
  · subst empty
    exact ⟨rfl, fun nonempty => absurd rfl nonempty⟩
  · have inside : 0 < d.length := List.length_pos_iff.mpr empty
    obtain ⟨pack, found⟩ := Option.isSome_iff_exists.mp known
    -- Any node of the package has the same ratios, and one of them is in the row.
    have item : nodes.item nid = nodes.item 0 := by
      simp [NodeMap.item, same 0 inside, found]
    have same' : ∀ i < d.length, nodes i = nodes 0 :=
      fun i before => (same i before).trans (same 0 inside).symm
    have total : ∀ i < d.length, (nodes i).isSome := fun i before => same i before ▸ known
    have exact_plain : ∀ b ∈ d, b < 2 ^ 53 := fun b member =>
      (Nat.le_mul_of_pos_left b (by positivity)).trans_lt (exact b member)
    have exact_scaled : ∀ b ∈ d.map (2 ^ m * ·), b < 2 ^ 53 := by simpa using exact
    have atLeastOne : 1 ≤ SOFT_MAX_RATIO_VAL := by norm_num [SOFT_MAX_RATIO_VAL]
    obtain ⟨k, plain, returned⟩ := getIwRatio_halvings exact_plain total inside atLeastOne
    obtain ⟨K, scaled, returned'⟩ := getIwRatio_halvings exact_scaled
      (by simpa using total) (by simpa using inside) atLeastOne
    rw [getIwRatio_own item, getIwRatio_own item, returned, returned',
      lowestTerms_unit same' scaled plain]
    exact ⟨rfl, fun _ => ⟨_, rfl⟩⟩

/-- The numbers are small as they are; a thousand times as large they are halved
    until one of them would get down to one. -/
theorem getIwRatio_unit_small :
    Indexing.getIwRatio ([1, 9, 4].map (2 ^ 10 * ·)) (fun _ => some (some 0)) 1
        SOFT_MAX_RATIO_VAL =
      Indexing.getIwRatio [1, 9, 4] (fun _ => some (some 0)) 1 SOFT_MAX_RATIO_VAL ∧
      ([1, 9, 4] ≠ [] → ∃ row, Indexing.getIwRatio [1, 9, 4] (fun _ => some (some 0)) 1
        SOFT_MAX_RATIO_VAL = .ok row) :=
  getIwRatio_unit rfl (fun _ _ => rfl) (by decide)

end Hmsdk.Tools
