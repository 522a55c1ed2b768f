import Hmsdk.Lib.Binary
import Hmsdk.Lib.Reduced

/-! # Interleave ratios

`iw_ratio.py`: the bandwidths seen from one node are halved together until they
are small, and brought to lowest terms. A row is a function of the node; its
entries are numbers that are not negative. A quotient in Python is the nearest
double. Its exponent is not bounded here: the bandwidths are read from doubles,
and no quotient below is larger than they are.
-/

namespace Hmsdk.Tools

open Lib.Binary Lib.Decimal Lib.Reduced

variable {n : ℕ}

abbrev Row (n : ℕ) := Fin n → ℕ

/-- Packages by node; a node with memory only may be in none. -/
abbrev Nodes (n : ℕ) := Fin n → Option ℕ

def float (q : ℚ) : ℚ := roundTo 53 q

/-- Python's `/` where it raises nothing. There is no largest number here, and for
    quotients beyond the largest double Python raises; bandwidths stay below. -/
def trueDiv (x y : ℚ) : ℚ := float (x / y)

/-- Python's `round`. -/
def round (x : ℚ) : ℕ := (roundHalfEven x).toNat

def SOFT_MAX_RATIO_VAL : ℚ := 10

def listGcd : List ℕ → ℕ
  | [] => 0
  | first :: rest => rest.foldl Nat.gcd first

/-- The loop over the nodes; `none` when it quits. -/
def halveLoop (nodes : Nodes n) (nid : Fin n) (data : Fin n → ℚ) :
    List (Fin n) → (Fin n → ℚ) → Option (Fin n → ℚ)
  | [], newData => some newData
  | i :: rest, newData =>
      -- Calculate ratio when they are in the same package.
      if nodes i = nodes nid then
        let half := trueDiv (data i) 2
        if half ≠ 0 ∧ half ≤ 1 then none
        else halveLoop nodes nid data rest (Function.update newData i half)
      else halveLoop nodes nid data rest newData

/-- The loop around it, for at most so many rounds. `new_data` is the one list
    that all rounds write to. -/
def ratioLoop (softMax : ℚ) (nodes : Nodes n) (nid : Fin n) :
    ℕ → (Fin n → ℚ) → (Fin n → ℚ) → Option (Fin n → ℚ)
  | 0, _, _ => none
  | rounds + 1, data, newData =>
      if ∀ i, data i ≤ softMax then some data
      else
        match halveLoop nodes nid data (List.finRange n) newData with
        | none => some data
        | some newData => ratioLoop softMax nodes nid rounds newData newData

/-- Rounding and the division by the greatest common divisor. -/
def normalize (data : Fin n → ℚ) : Row n :=
  let data := fun i => round (data i)
  let lgcd := listGcd ((List.finRange n).map data)
  if lgcd ≠ 0 then fun i => round (trueDiv (data i) lgcd) else data

/-- A round halves the numbers, so two rounds more than the largest of them has
    binary digits are enough. -/
def getIwRatio (data : Row n) (nodes : Nodes n) (nid : Fin n) (softMax : ℚ) : Option (Row n) :=
  (ratioLoop softMax nodes nid ((∑ i, data i).size + 2) (fun i => data i) fun _ => 0).map normalize

def getIwRatioMatrix (bwMatrix : Fin n → Row n) (possible : List (Fin n)) (nodes : Nodes n) :
    Option (Fin n → Row n) :=
  possible.foldlM
    (fun ratioMatrix nid =>
      (getIwRatio (bwMatrix nid) nodes nid SOFT_MAX_RATIO_VAL).map
        (Function.update ratioMatrix nid))
    fun _ _ => 0

example : getIwRatio ![1000, 400, 300, 7] ![some 0, some 0, some 0, some 1] 0 10 =
    some ![8, 3, 2, 0] := by decide +kernel

/-- The nodes whose bandwidths are halved. -/
def package (nodes : Nodes n) (nid : Fin n) : Finset (Fin n) :=
  Finset.univ.filter fun i => nodes i = nodes nid

/-- The row after so many rounds: from the first one on, the numbers of other
    packages are gone and those of the package are doubles. -/
def scaled (bw : Row n) (pack : Finset (Fin n)) (k : ℕ) (i : Fin n) : ℚ :=
  if k = 0 then bw i else if i ∈ pack then float (bw i) / 2 ^ k else 0

/-- No positive bandwidth of the package is brought down to one by the `k`-th
    halving. -/
def Keeps (bw : Row n) (pack : Finset (Fin n)) (k : ℕ) : Prop :=
  ∀ i ∈ pack, bw i ≠ 0 → 1 < float (bw i) / 2 ^ k

def StopsAt (softMax : ℚ) (bw : Row n) (pack : Finset (Fin n)) (k : ℕ) : Prop :=
  (∀ i, scaled bw pack k i ≤ softMax) ∨ ¬ Keeps bw pack (k + 1)

def Stops (bw : Row n) (pack : Finset (Fin n)) (k : ℕ) : Prop :=
  (∀ i, scaled bw pack k i ≤ SOFT_MAX_RATIO_VAL) ∨ ¬ Keeps bw pack (k + 1)

/-- The loop ends after the `k`-th halving. -/
structure Final (bw : Row n) (pack : Finset (Fin n)) (k : ℕ) : Prop where
  stops : Stops bw pack k
  before : ∀ j < k, ¬ Stops bw pack j

section

variable {bw : Row n} {pack : Finset (Fin n)} {nodes : Nodes n} {nid i : Fin n} {k : ℕ}

theorem mem_package : i ∈ package nodes nid ↔ nodes i = nodes nid := by simp [package]

theorem short_float (b : ℕ) : Short 53 (float b) := short_roundTo (by decide) (by positivity)

theorem float_nonneg (b : ℕ) : 0 ≤ float b := roundTo_nonneg (by positivity)

theorem float_mono {b c : ℕ} (ordered : b ≤ c) : float b ≤ float c :=
  roundTo_mono (by decide) (by positivity) (by exact_mod_cast ordered)

theorem le_float_iff {b m : ℕ} (small : m < 2 ^ 53) : (m : ℚ) ≤ float b ↔ m ≤ b := by
  constructor
  · intro le
    by_contra below
    have exact : float b = b := (short_natCast (show b < 2 ^ 53 by omega)).roundTo_eq
    rw [exact] at le
    exact below (by exact_mod_cast le)
  · intro le
    exact (short_natCast small).le_roundTo (by decide) (by positivity) (by exact_mod_cast le)

/-- Dividing by a power of two loses nothing. -/
theorem short_shifted (b k : ℕ) : Short 53 (float b / 2 ^ k) := by
  rw [div_eq_mul_inv, ← zpow_natCast, ← zpow_neg]
  exact (short_float b).mul_zpow _

/-- Halving a scaled number is the next scaled number. -/
theorem trueDiv_scaled (member : i ∈ pack) :
    trueDiv (scaled bw pack k i) 2 = float (bw i) / 2 ^ (k + 1) := by
  rcases Nat.eq_zero_or_pos k with rfl | positive
  · have halved := roundTo_mul_zpow (p := 53) (q := bw i) (by positivity) (-1)
    simpa [scaled, trueDiv, float, div_eq_mul_inv] using halved
  · rw [trueDiv, scaled, if_neg positive.ne', if_pos member, div_div, ← pow_succ]
    exact (short_shifted (bw i) (k + 1)).roundTo_eq

theorem halveLoop_quits {data newData : Fin n → ℚ} {l : List (Fin n)} (member : i ∈ l)
    (same : nodes i = nodes nid) (low : trueDiv (data i) 2 ≠ 0 ∧ trueDiv (data i) 2 ≤ 1) :
    halveLoop nodes nid data l newData = none := by
  induction l generalizing newData with
  | nil => cases member
  | cons j rest ih =>
      rw [halveLoop]
      rcases List.mem_cons.mp member with rfl | later
      · simp only [if_pos same, if_pos low]
      · split
        · dsimp only
          split
          · rfl
          · exact ih later
        · exact ih later

theorem halveLoop_completes (data newData : Fin n → ℚ) {l : List (Fin n)}
    (high : ∀ i ∈ l, nodes i = nodes nid →
      ¬ (trueDiv (data i) 2 ≠ 0 ∧ trueDiv (data i) 2 ≤ 1)) :
    halveLoop nodes nid data l newData =
      some fun i => if i ∈ l ∧ nodes i = nodes nid then trueDiv (data i) 2 else newData i := by
  induction l generalizing newData with
  | nil => simp [halveLoop]
  | cons j rest ih =>
      have later := fun updated => ih updated fun i member => high i (List.mem_cons_of_mem j member)
      rw [halveLoop]
      by_cases same : nodes j = nodes nid
      · simp only [if_pos same, if_neg (high j List.mem_cons_self same), later]
        congr 1
        funext i
        by_cases here : i = j
        · subst here
          simp [same]
        · simp [here]
      · simp only [if_neg same, later]
        congr 1
        funext i
        by_cases here : i = j
        · subst here
          simp [same]
        · simp [here]

/-- One round: all numbers of the package are halved, or the loop quits. -/
theorem halveLoop_scaled {newData : Fin n → ℚ} (dropped : ∀ i ∉ package nodes nid, newData i = 0) :
    (Keeps bw (package nodes nid) (k + 1) ∧
      halveLoop nodes nid (scaled bw (package nodes nid) k) (List.finRange n) newData =
        some (scaled bw (package nodes nid) (k + 1))) ∨
    (¬ Keeps bw (package nodes nid) (k + 1) ∧
      halveLoop nodes nid (scaled bw (package nodes nid) k) (List.finRange n) newData = none) := by
  by_cases keeps : Keeps bw (package nodes nid) (k + 1)
  · refine .inl ⟨keeps, ?_⟩
    rw [halveLoop_completes]
    · congr 1
      funext i
      by_cases same : nodes i = nodes nid
      · have member := mem_package.mpr same
        rw [if_pos ⟨List.mem_finRange i, same⟩, trueDiv_scaled member, scaled,
          if_neg (Nat.succ_ne_zero k), if_pos member]
      · have outside : i ∉ package nodes nid := fun member => same (mem_package.mp member)
        simp [scaled, outside, same, dropped i outside]
    · rintro i - same ⟨nonzero, low⟩
      have member := mem_package.mpr same
      rw [trueDiv_scaled member] at nonzero low
      have positive : bw i ≠ 0 := by
        intro zero
        simp [zero, float] at nonzero
      exact absurd (keeps i member positive) low.not_gt
  · refine .inr ⟨keeps, ?_⟩
    simp only [Keeps, not_forall, not_lt] at keeps
    obtain ⟨i, member, positive, low⟩ := keeps
    apply halveLoop_quits (List.mem_finRange i) (mem_package.mp member)
    rw [trueDiv_scaled member]
    have one : (1 : ℚ) ≤ float (bw i) := by
      exact_mod_cast (le_float_iff (m := 1) (by decide)).mpr (Nat.one_le_iff_ne_zero.mpr positive)
    exact ⟨by positivity, low⟩

/-- The loop returns the row of the first round at which it has reason to stop,
    if it is given enough rounds. -/
theorem ratioLoop_least {softMax : ℚ} {rounds stop : ℕ} {newData : Fin n → ℚ}
    (dropped : ∀ i ∉ package nodes nid, newData i = 0)
    (stops : StopsAt softMax bw (package nodes nid) stop) (from_k : k ≤ stop)
    (enough : stop < k + rounds) (before : ∀ j < k, ¬ StopsAt softMax bw (package nodes nid) j) :
    ∃ final, IsLeast {k | StopsAt softMax bw (package nodes nid) k} final ∧
      ratioLoop softMax nodes nid rounds (scaled bw (package nodes nid) k) newData =
        some (scaled bw (package nodes nid) final) := by
  induction rounds generalizing k newData with
  | zero => omega
  | succ rounds ih =>
      have first : ∀ j, StopsAt softMax bw (package nodes nid) j → k ≤ j :=
        fun j stops => not_lt.mp fun earlier => before j earlier stops
      rw [ratioLoop]
      by_cases small : ∀ i, scaled bw (package nodes nid) k i ≤ softMax
      · exact ⟨k, ⟨.inl small, first⟩, if_pos small⟩
      · rw [if_neg small]
        rcases halveLoop_scaled dropped with ⟨keeps, halved⟩ | ⟨quits, ended⟩
        · have goesOn : ¬ StopsAt softMax bw (package nodes nid) k :=
            fun either => either.elim small (absurd keeps)
          have further : k ≠ stop := fun same => goesOn (same ▸ stops)
          have dropped' : ∀ i ∉ package nodes nid, scaled bw (package nodes nid) (k + 1) i = 0 := by
            intro i outside
            simp [scaled, outside]
          simp only [halved]
          apply ih dropped' (by omega) (by omega)
          intro j below
          rcases Nat.lt_succ_iff_lt_or_eq.mp below with earlier | rfl
          · exact before j earlier
          · exact goesOn
        · simp only [ended]
          exact ⟨k, ⟨.inr quits, first⟩, rfl⟩

/-- A positive bandwidth cannot be halved more often than it has digits, and
    without one there is nothing left after the first round. -/
theorem exists_stop {softMax : ℚ} (nonneg : 0 ≤ softMax) (bw : Row n) (pack : Finset (Fin n)) :
    ∃ stop, StopsAt softMax bw pack stop ∧ stop < 0 + ((∑ i, bw i).size + 2) := by
  by_cases some_positive : ∃ i ∈ pack, bw i ≠ 0
  · obtain ⟨i, member, positive⟩ := some_positive
    refine ⟨(∑ i, bw i).size, .inr fun keeps => ?_, by omega⟩
    have below : bw i < 2 ^ (∑ i, bw i).size :=
      (Finset.single_le_sum (fun _ _ => Nat.zero_le _) (Finset.mem_univ i)).trans_lt
        (Nat.lt_size_self _)
    have bounded : float (bw i) ≤ 2 ^ (∑ i, bw i).size := by
      have power : Short 53 ((2 : ℚ) ^ (∑ i, bw i).size) := by
        simpa using short_zpow (p := 53) (by decide) ((∑ i, bw i).size : ℤ)
      exact power.roundTo_le (by decide) (by positivity) (by exact_mod_cast below.le)
    have above := keeps i member positive
    rw [lt_div_iff₀ (by positivity), one_mul, pow_succ] at above
    have grows : (0 : ℚ) < 2 ^ (∑ i, bw i).size := by positivity
    linarith
  · refine ⟨1, .inl fun i => ?_, by omega⟩
    have gone : scaled bw pack 1 i = 0 := by
      by_cases member : i ∈ pack
      · have zero : bw i = 0 := by
          by_contra positive
          exact some_positive ⟨i, member, positive⟩
        simp [scaled, zero, float]
      · simp [scaled, member]
    rw [gone]
    exact nonneg

/-- `get_iw_ratio` returns, with the row of the final round brought to lowest
    terms. -/
theorem getIwRatio_least {softMax : ℚ} (nonneg : 0 ≤ softMax) (bw : Row n) (nodes : Nodes n)
    (nid : Fin n) :
    ∃ k, IsLeast {k | StopsAt softMax bw (package nodes nid) k} k ∧
      getIwRatio bw nodes nid softMax =
        some (normalize (scaled bw (package nodes nid) k)) := by
  obtain ⟨stop, stops, enough⟩ := exists_stop nonneg bw (package nodes nid)
  have fresh : ∀ i ∉ package nodes nid, (fun _ => (0 : ℚ)) i = 0 := fun _ _ => rfl
  obtain ⟨k, least, returned⟩ := ratioLoop_least fresh stops (Nat.zero_le stop) enough
    fun j below => absurd below (Nat.not_lt_zero j)
  refine ⟨k, least, ?_⟩
  have start : (fun i => (bw i : ℚ)) = scaled bw (package nodes nid) 0 := rfl
  rw [getIwRatio, start, returned, Option.map_some]

theorem getIwRatio_final (bw : Row n) (nodes : Nodes n) (nid : Fin n) :
    ∃ k, Final bw (package nodes nid) k ∧
      getIwRatio bw nodes nid SOFT_MAX_RATIO_VAL =
        some (normalize (scaled bw (package nodes nid) k)) := by
  have nonneg : 0 ≤ SOFT_MAX_RATIO_VAL := by norm_num [SOFT_MAX_RATIO_VAL]
  obtain ⟨k, ⟨stops, least⟩, returned⟩ := getIwRatio_least nonneg bw nodes nid
  exact ⟨k, ⟨stops, fun j earlier stops' => absurd (least stops') (not_le.mpr earlier)⟩, returned⟩

/-- The matrix has the ratios of every node asked for, however often it is. -/
theorem getIwRatioMatrix_rows (bwMatrix : Fin n → Row n) (possible : List (Fin n))
    (nodes : Nodes n) :
    ∃ matrix, getIwRatioMatrix bwMatrix possible nodes = some matrix ∧
      ∀ nid ∈ possible,
        getIwRatio (bwMatrix nid) nodes nid SOFT_MAX_RATIO_VAL = some (matrix nid) := by
  have fill (start : Fin n → Row n) : ∃ matrix,
      possible.foldlM (fun ratioMatrix nid =>
        (getIwRatio (bwMatrix nid) nodes nid SOFT_MAX_RATIO_VAL).map
          (Function.update ratioMatrix nid)) start = some matrix ∧
        (∀ nid ∈ possible,
          getIwRatio (bwMatrix nid) nodes nid SOFT_MAX_RATIO_VAL = some (matrix nid)) ∧
        ∀ nid ∉ possible, matrix nid = start nid := by
    induction possible generalizing start with
    | nil => exact ⟨start, rfl, fun nid member => absurd member List.not_mem_nil, fun _ _ => rfl⟩
    | cons first rest ih =>
        obtain ⟨k, -, returned⟩ := getIwRatio_final (bwMatrix first) nodes first
        obtain ⟨matrix, filled, rows, others⟩ := ih (Function.update start first
          (normalize (scaled (bwMatrix first) (package nodes first) k)))
        refine ⟨matrix, ?_, ?_, ?_⟩
        · simp [List.foldlM_cons, returned, filled]
        · intro nid member
          by_cases later : nid ∈ rest
          · exact rows nid later
          · obtain rfl : nid = first := (List.mem_cons.mp member).resolve_right later
            rw [others nid later, Function.update_self, returned]
        · intro nid outside
          have other : nid ≠ first := by
            rintro rfl
            exact outside List.mem_cons_self
          rw [others nid fun later => outside (List.mem_cons_of_mem first later),
            Function.update_of_ne other]
  obtain ⟨matrix, filled, rows, -⟩ := fill fun _ _ => 0
  exact ⟨matrix, filled, rows⟩

/-- The whole numbers whose ratio is published. -/
def halved (bw : Row n) (k : ℕ) (i : Fin n) : ℕ := round (float (bw i) / 2 ^ k)

theorem foldl_gcd_dvd_iff (d first : ℕ) (rest : List ℕ) :
    d ∣ rest.foldl Nat.gcd first ↔ d ∣ first ∧ ∀ x ∈ rest, d ∣ x := by
  induction rest generalizing first with
  | nil => simp
  | cons x rest ih => simp [ih, Nat.dvd_gcd_iff, and_assoc]

theorem dvd_listGcd_iff (d : ℕ) (l : List ℕ) : d ∣ listGcd l ↔ ∀ x ∈ l, d ∣ x := by
  cases l with
  | nil => simp [listGcd]
  | cons first rest => simp [listGcd, foldl_gcd_dvd_iff]

/-- `list_gcd` over the nodes of a set. -/
theorem listGcd_map {l : List (Fin n)} {s : Finset (Fin n)} (same : ∀ i, i ∈ l ↔ i ∈ s)
    (f : Fin n → ℕ) : listGcd (l.map f) = s.gcd f := by
  have divisors (d : ℕ) : d ∣ listGcd (l.map f) ↔ d ∣ s.gcd f := by
    simp [dvd_listGcd_iff, Finset.dvd_gcd_iff, same]
  exact Nat.dvd_antisymm ((divisors _).mp dvd_rfl) ((divisors _).mpr dvd_rfl)

@[simp] theorem round_natCast (m : ℕ) : round m = m := by simp [round]

theorem round_cast {x : ℚ} (nonneg : 0 ≤ x) : (round x : ℚ) = roundHalfEven x := by
  rw [round]
  exact_mod_cast Int.toNat_of_nonneg (roundHalfEven_nonneg nonneg)

theorem round_mono {x y : ℚ} (ordered : x ≤ y) : round x ≤ round y :=
  Int.toNat_le_toNat (roundHalfEven_mono ordered)

/-- A quotient that is a short whole number is computed exactly. -/
theorem trueDiv_exact {m d : ℕ} (short : Short 53 m) (divides : d ∣ m) (nonzero : d ≠ 0) :
    trueDiv m d = (m / d : ℕ) := by
  have quotient : (m : ℚ) / d = (m / d : ℕ) :=
    (Nat.cast_div divides (by exact_mod_cast nonzero)).symm
  rw [trueDiv, quotient]
  rcases Nat.eq_zero_or_pos m with rfl | positive
  · simp [float]
  · exact (short.of_dvd (Nat.div_dvd_of_dvd divides) positive.ne').roundTo_eq

theorem short_halved (bw : Row n) (k : ℕ) (i : Fin n) : Short 53 (halved bw k i) := by
  rw [halved, round_cast (div_nonneg (float_nonneg _) (by positivity))]
  exact (short_shifted (bw i) k).roundHalfEven

/-- The divisor that `normalize` finds. -/
def rowGcd (data : Fin n → ℚ) : ℕ := listGcd ((List.finRange n).map fun i => round (data i))

theorem rowGcd_dvd (data : Fin n → ℚ) (i : Fin n) : rowGcd data ∣ round (data i) :=
  (dvd_listGcd_iff _ _).mp dvd_rfl _ (List.mem_map_of_mem (List.mem_finRange i))

theorem normalize_zero {data : Fin n → ℚ} (zero : rowGcd data = 0) (i : Fin n) :
    normalize data i = round (data i) :=
  congrFun (if_neg (not_not.mpr zero)) i

theorem normalize_nonzero {data : Fin n → ℚ} (nonzero : rowGcd data ≠ 0) (i : Fin n) :
    normalize data i = round (trueDiv (round (data i)) (rowGcd data)) :=
  congrFun (if_pos nonzero) i

/-- Short whole numbers are divided exactly. -/
theorem normalize_mul_exact (data : Fin n → ℚ) :
    ∃ c, 0 < c ∧ ∀ i, Short 53 (round (data i)) → normalize data i * c = round (data i) := by
  by_cases zero : rowGcd data = 0
  · exact ⟨1, Nat.one_pos, fun i _ => by rw [normalize_zero zero, mul_one]⟩
  · refine ⟨rowGcd data, Nat.pos_of_ne_zero zero, fun i short => ?_⟩
    rw [normalize_nonzero zero, trueDiv_exact short (rowGcd_dvd data i) zero, round_natCast]
    exact Nat.div_mul_cancel (rowGcd_dvd data i)

/-- Dividing the original numbers by one or two commutes with rounding them to
    doubles. -/
theorem normalize_mul_two {c : ℕ} (divisor : rowGcd (fun i => (bw i : ℚ)) = c) (two : c ∣ 2)
    (i : Fin n) : normalize (fun i => (bw i : ℚ)) i * c = halved bw 0 i := by
  have nonzero : c ≠ 0 := fun zero => by simp [zero] at two
  obtain ⟨q, whole⟩ : c ∣ bw i := by
    simpa [divisor] using rowGcd_dvd (fun i => (bw i : ℚ)) i
  obtain ⟨r, rounded⟩ := roundTo_nat 53 q
  have quotient : trueDiv (bw i) c = r := by
    rw [trueDiv, whole, Nat.cast_mul, mul_div_cancel_left₀ _ (by exact_mod_cast nonzero)]
    exact rounded
  have double : float (bw i) = (r * c : ℕ) := by
    rcases (Nat.dvd_prime Nat.prime_two).mp two with rfl | rfl
    · rw [whole, one_mul, mul_one]
      exact rounded
    · have scaled := roundTo_mul_zpow (p := 53) (q := q) (by positivity) 1
      rw [zpow_one, rounded] at scaled
      rw [whole, float, mul_comm, Nat.cast_mul, Nat.cast_mul]
      exact scaled
  rw [normalize_nonzero (divisor ▸ nonzero), round_natCast, divisor, quotient, round_natCast,
    halved, double, pow_zero, div_one, round_natCast]

theorem float_of_le {b m : ℕ} (below : b ≤ m) (small : m < 2 ^ 53) : float b = b :=
  (short_natCast (below.trans_lt small)).roundTo_eq

theorem halved_start {m : ℕ} (below : bw i ≤ m) (small : m < 2 ^ 53) : halved bw 0 i = bw i := by
  rw [halved, float_of_le below small, pow_zero, div_one, round_natCast]

/-- Whatever the row's own divisor was, the numbers of the package are the
    halved ones over a common divisor. -/
theorem normalize_mul (final : Final bw pack k) :
    ∃ c, 0 < c ∧ ∀ i ∈ pack, normalize (scaled bw pack k) i * c = halved bw k i := by
  have exact_suffices (same : ∀ i ∈ pack, round (scaled bw pack k i) = halved bw k i) :
      ∃ c, 0 < c ∧ ∀ i ∈ pack, normalize (scaled bw pack k) i * c = halved bw k i := by
    obtain ⟨c, positive, exactly⟩ := normalize_mul_exact (scaled bw pack k)
    refine ⟨c, positive, fun i member => ?_⟩
    have short := short_halved bw k i
    rw [← same i member] at short ⊢
    exact exactly i short
  rcases Nat.eq_zero_or_pos k with rfl | positive
  · rcases final.stops with small | quits
    · -- All numbers are small, so they are doubles already.
      apply exact_suffices
      intro i _
      have bound : (bw i : ℚ) ≤ 10 := small i
      have low : bw i ≤ 10 := by exact_mod_cast bound
      rw [halved_start low (by decide)]
      exact round_natCast (bw i)
    · -- The smallest number of the package is one or two, and so is the divisor.
      simp only [Keeps, not_forall, not_lt] at quits
      obtain ⟨i, member, nonzero, low⟩ := quits
      have atMostTwo : ¬ 3 ≤ bw i := by
        intro three
        have large : (3 : ℚ) ≤ float (bw i) := by
          exact_mod_cast (le_float_iff (m := 3) (by decide)).mpr three
        rw [pow_one, div_le_iff₀ (by norm_num)] at low
        linarith
      have divides : rowGcd (fun i => (bw i : ℚ)) ∣ bw i := by
        simpa using rowGcd_dvd (fun i => (bw i : ℚ)) i
      have two : rowGcd (fun i => (bw i : ℚ)) ∣ 2 := by
        apply divides.trans
        have : bw i = 1 ∨ bw i = 2 := by omega
        rcases this with one | two
        · exact one ▸ one_dvd 2
        · exact two ▸ dvd_rfl
      exact ⟨_, Nat.pos_of_dvd_of_pos two (by decide), fun i _ => normalize_mul_two rfl two i⟩
  · apply exact_suffices
    intro i member
    rw [halved, scaled, if_neg positive.ne', if_pos member]

end

end Hmsdk.Tools
