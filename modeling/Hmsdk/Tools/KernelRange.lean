import Hmsdk.Tools.Weights

/-! # Weights the kernel can store

The kernel keeps a weight in eight bits. The soft maximum does not bound the
weights: where the loop quits before it, they follow the spread of the package.
-/

namespace Hmsdk.Tools

open Lib.Binary Lib.Decimal Lib.Reduced

variable {n : ℕ}

/-- The loop quits at the `p`-th halving at the latest: all positive bandwidths
    of the package stand it, but not one more. -/
structure LastHalving (bw : Row n) (pack : Finset (Fin n)) (p : ℕ) : Prop where
  low : ¬ Keeps bw pack (p + 1)
  above : p = 0 ∨ Keeps bw pack p

/-- After the last halving a bandwidth is at most 255, or at most 510 in a
    package of even numbers. -/
def WithinRange (bw : Row n) (pack : Finset (Fin n)) (i : Fin n) : Prop :=
  ∀ p, LastHalving bw pack p →
    halved bw p i ≤ 255 ∨ (∀ j ∈ pack, Even (halved bw p j)) ∧ halved bw p i ≤ 510

section

variable {bw : Row n} {pack : Finset (Fin n)} {i j : Fin n} {k p : ℕ}

theorem Keeps.mono {m : ℕ} (keeps : Keeps bw pack k) (le : m ≤ k) : Keeps bw pack m := by
  intro i member positive
  have above := keeps i member positive
  rw [lt_div_iff₀ (by positivity), one_mul] at above ⊢
  exact (pow_le_pow_right₀ (by norm_num) le).trans_lt above

theorem LastHalving.unique (one : LastHalving bw pack k) (two : LastHalving bw pack p) : k = p := by
  have notBelow {a b : ℕ} (first : LastHalving bw pack a) (second : LastHalving bw pack b) :
      b ≤ a := by
    by_contra below
    have keeps : Keeps bw pack b := second.above.resolve_left (by omega)
    exact first.low (keeps.mono (by omega))
  exact le_antisymm (notBelow two one) (notBelow one two)

theorem halved_antitone (bw : Row n) (i : Fin n) (le : k ≤ p) : halved bw p i ≤ halved bw k i := by
  apply round_mono
  have nonneg := float_nonneg (bw i)
  have power : (2 : ℚ) ^ k ≤ 2 ^ p := pow_le_pow_right₀ (by norm_num) le
  gcongr

theorem Final.lastHalving (final : Final bw pack k) (quits : ¬ Keeps bw pack (k + 1)) :
    LastHalving bw pack k := by
  refine ⟨quits, ?_⟩
  rcases Nat.eq_zero_or_pos k with zero | positive
  · exact .inl zero
  · have made := final.keeps (Nat.sub_lt positive Nat.one_pos)
    rw [Nat.sub_add_cancel positive] at made
    exact .inr made

/-- Where the loop quits the smallest number is one or two, so nothing larger
    divides them all. -/
theorem gcd_dvd_two (final : Final bw pack k) (quits : ¬ Keeps bw pack (k + 1)) :
    pack.gcd (halved bw k) ∣ 2 := by
  obtain ⟨j, member, positive, low⟩ := exists_low quits
  have atLeast := final.halved_pos member positive
  have atMost : halved bw k j ≤ 2 := by
    apply round_le
    rw [div_le_iff₀ (by positivity), Nat.cast_ofNat, ← pow_succ']
    exact low
  have divides : pack.gcd (halved bw k) ∣ halved bw k j := Finset.gcd_dvd member
  have : halved bw k j = 1 ∨ halved bw k j = 2 := by omega
  rcases this with one | two
  · rw [one] at divides
    exact divides.trans (one_dvd 2)
  · rwa [two] at divides

theorem Final.weight_le_iff (final : Final bw pack k) (member : i ∈ pack) :
    reduced pack (halved bw k) i ≤ 255 ↔ WithinRange bw pack i := by
  rcases final.stops with soft | quits
  · -- At the soft maximum the numbers are small before and after.
    have small := halved_le_ten soft member
    refine iff_of_true ((reduced_le i).trans (by omega)) fun p last => .inl ?_
    have later : k ≤ p := by
      by_contra below
      exact last.low (final.keeps (by omega))
    have := halved_antitone bw i later
    omega
  · have last := final.lastHalving quits
    have only : WithinRange bw pack i ↔ (halved bw k i ≤ 255 ∨
        (∀ j ∈ pack, Even (halved bw k j)) ∧ halved bw k i ≤ 510) := by
      refine ⟨fun range => range k last, fun range p other => ?_⟩
      obtain rfl := last.unique other
      exact range
    have even : (∀ j ∈ pack, Even (halved bw k j)) ↔ 2 ∣ pack.gcd (halved bw k) := by
      simp only [even_iff_two_dvd, Finset.dvd_gcd_iff]
    have product := reduced_mul_gcd (f := halved bw k) member
    rw [only, even]
    rcases (Nat.dvd_prime Nat.prime_two).mp (gcd_dvd_two final quits) with one | two
    · rw [one] at product ⊢
      omega
    · rw [two] at product ⊢
      omega

end

section

variable {accepts : Accepts n} {sysfs : Sysfs n}

/-- Only weights before the first zero are ever handed to a file. -/
theorem mem_written {todo : List (Fin n × ℕ)} {entry : Fin n × ℕ}
    (written : entry ∈ (writeWeights accepts todo sysfs).2.written) :
    entry ∈ sysfs.written ∨ entry ∈ todo.takeWhile fun entry => entry.2 ≠ 0 := by
  induction todo generalizing sysfs with
  | nil => exact .inl written
  | cons first rest ih =>
      obtain ⟨i, weight⟩ := first
      rcases writeWeights_cases accepts sysfs i weight rest with
        ⟨-, ended⟩ | ⟨positive, -, goesOn⟩ | ⟨positive, -, ended⟩
      · rw [ended] at written
        exact .inl written
      · rw [goesOn] at written
        rw [List.takeWhile_cons_of_pos (by simpa using positive), List.mem_cons]
        rcases ih written with before | later
        · rw [List.mem_append, List.mem_singleton] at before
          exact before.imp_right .inl
        · exact .inr (.inr later)
      · rw [ended, List.mem_append, List.mem_singleton] at written
        rw [List.takeWhile_cons_of_pos (by simpa using positive), List.mem_cons]
        exact written.imp_right .inl

/-- The kernel refuses what does not fit into eight bits. -/
def Rejects (accepts : Accepts n) : Prop :=
  ∀ t i weight, accepts t i weight = true → weight ≤ 255

def eightBits (n : ℕ) : Accepts n := fun _ _ weight => decide (weight ≤ 255)

theorem eightBits_rejects : Rejects (eightBits n) :=
  fun _ _ _ accepted => of_decide_eq_true accepted

/-- A kernel that refuses nothing else is handed the first weight that is too
    large. -/
theorem exists_written_large (sysfs : Sysfs n) {todo : List (Fin n × ℕ)} {entry : Fin n × ℕ}
    (member : entry ∈ todo.takeWhile fun entry => entry.2 ≠ 0) (large : 255 < entry.2) :
    ∃ other ∈ (writeWeights (eightBits n) todo sysfs).2.written, 255 < other.2 := by
  induction todo generalizing sysfs with
  | nil => cases member
  | cons first rest ih =>
      obtain ⟨i, weight⟩ := first
      rcases writeWeights_cases (eightBits n) sysfs i weight rest with
        ⟨zero, -⟩ | ⟨positive, accepted, goesOn⟩ | ⟨-, refused, ended⟩
      · subst zero
        cases member
      · rw [List.takeWhile_cons_of_pos (by simpa using positive), List.mem_cons] at member
        rw [goesOn]
        rcases member with rfl | later
        · exact absurd large (of_decide_eq_true accepted).not_gt
        · exact ih _ later
      · rw [ended]
        exact ⟨(i, weight), List.mem_append_right _ List.mem_cons_self,
          Nat.not_le.mp (of_decide_eq_false refused)⟩

end

/-- Whatever the kernel does apart from refusing what is too large, every value
    handed to a file lies between 1 and 255. -/
def WritesInRange (matrix : Fin n → Row n) (nodes : Nodes n) (possible : List (Fin n)) : Prop :=
  ∀ accepts files, Rejects accepts →
    ∀ entry ∈ (displayMultiRatio accepts matrix (some nodes) possible ⟨files, []⟩).2.written,
      1 ≤ entry.2 ∧ entry.2 ≤ 255

theorem writesInRange_iff (matrix : Fin n → Row n) (nodes : Nodes n) (possible : List (Fin n)) :
    WritesInRange matrix nodes possible ↔
      ∀ entry ∈ (plan matrix (some nodes) possible).takeWhile (fun entry => entry.2 ≠ 0),
        entry.2 ≤ 255 := by
  constructor
  · intro inRange entry member
    by_contra large
    obtain ⟨other, written, above⟩ :=
      exists_written_large ⟨fun _ => 0, []⟩ member (Nat.not_le.mp large)
    rw [← displayMultiRatio_eq] at written
    have := (inRange (eightBits n) (fun _ => 0) eightBits_rejects other written).2
    omega
  · intro small accepts files _ entry written
    rw [displayMultiRatio_eq] at written
    have member := (mem_written written).resolve_left List.not_mem_nil
    have nonzero : entry.2 ≠ 0 := by simpa using List.mem_takeWhile_imp member
    exact ⟨Nat.one_le_iff_ne_zero.mpr nonzero, small entry member⟩

theorem takeWhile_congr {α : Type*} {p q : α → Bool} {l : List α} (same : ∀ x ∈ l, p x = q x) :
    l.takeWhile p = l.takeWhile q := by
  induction l with
  | nil => rfl
  | cons x rest ih =>
      rw [List.takeWhile_cons, List.takeWhile_cons, same x List.mem_cons_self,
        ih fun y member => same y (List.mem_cons_of_mem x member)]

/-- The matrix that `get_iw_ratio_matrix` returns, and what is made of it. -/
theorem exists_plan (bwMatrix : Fin n → Row n) (nodes : Nodes n) (possible : List (Fin n)) :
    ∃ matrix, ∃ k : Fin n → ℕ, getIwRatioMatrix bwMatrix possible nodes = some matrix ∧
      (∀ nid ∈ possible, Final (bwMatrix nid) (package nodes nid) (k nid)) ∧
      plan matrix (some nodes) possible = (positions nodes possible).map fun place =>
        (place.2, reduced (package nodes place.1) (halved (bwMatrix place.1) (k place.1))
          place.2) := by
  obtain ⟨matrix, computed, rows⟩ := getIwRatioMatrix_rows bwMatrix possible nodes
  have shares : ∀ nid, ∃ k, nid ∈ possible → Final (bwMatrix nid) (package nodes nid) k ∧
      ∀ i ∈ package nodes nid, share (matrix nid) (package nodes nid) i =
        reduced (package nodes nid) (halved (bwMatrix nid) k) i := by
    intro nid
    obtain ⟨row, k, returned, final, shares⟩ := getIwRatio_shares (bwMatrix nid) nodes nid
    refine ⟨k, fun asked => ⟨final, ?_⟩⟩
    rwa [Option.some.inj ((rows nid asked).symm.trans returned)]
  choose k shares using shares
  refine ⟨matrix, k, computed, fun nid asked => (shares nid asked).1, ?_⟩
  rw [plan_eq]
  apply List.map_congr_left
  intro place member
  obtain ⟨asked, inside⟩ := mem_positions.mp member
  rw [weigh, (shares place.1 asked).2 place.2 inside]

/-- The published weights are in the kernel's range exactly when every node that
    comes before the first one without bandwidth is within range of its package. -/
theorem published_inRange_iff (bwMatrix : Fin n → Row n) (nodes : Nodes n)
    (possible : List (Fin n)) :
    ∃ matrix, getIwRatioMatrix bwMatrix possible nodes = some matrix ∧
      (WritesInRange matrix nodes possible ↔
        ∀ place ∈ (positions nodes possible).takeWhile (fun place => bwMatrix place.1 place.2 ≠ 0),
          WithinRange (bwMatrix place.1) (package nodes place.1) place.2) := by
  obtain ⟨matrix, k, computed, final, planned⟩ := exists_plan bwMatrix nodes possible
  refine ⟨matrix, computed, ?_⟩
  have zeros : (positions nodes possible).takeWhile
        (fun place => decide (reduced (package nodes place.1)
          (halved (bwMatrix place.1) (k place.1)) place.2 ≠ 0)) =
      (positions nodes possible).takeWhile fun place =>
        decide (bwMatrix place.1 place.2 ≠ 0) := by
    apply takeWhile_congr
    intro place member
    obtain ⟨asked, inside⟩ := mem_positions.mp member
    simp only [ne_eq, reduced_eq_zero_iff inside, (final _ asked).halved_eq_zero_iff inside]
  rw [writesInRange_iff, planned, List.takeWhile_map, List.forall_mem_map]
  simp only [Function.comp_def, zeros]
  apply forall₂_congr
  intro place reached
  obtain ⟨asked, inside⟩ := mem_positions.mp ((List.takeWhile_sublist _).subset reached)
  exact (final _ asked).weight_le_iff inside

/-- A package whose slower node cannot be halved at all. -/
theorem published_thousand :
    ∃ matrix, getIwRatioMatrix (fun _ => ![1000, 1]) [0] ![some 0, some 0] = some matrix ∧
      ¬ WritesInRange matrix ![some 0, some 0] [0] := by
  refine ⟨![![1000, 1], 0], by decide +kernel, ?_⟩
  intro inRange
  have written : ((0 : Fin 2), 1000) ∈ (displayMultiRatio (eightBits 2) ![![1000, 1], 0]
      (some ![some 0, some 0]) [0] ⟨0, []⟩).2.written := by decide +kernel
  have bound := (inRange (eightBits 2) 0 eightBits_rejects _ written).2
  exact absurd bound (by decide)

end Hmsdk.Tools
