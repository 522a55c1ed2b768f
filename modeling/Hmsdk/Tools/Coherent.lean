import Hmsdk.Tools.Bwactl

/-! # Packages with several rows

Nodes that share a package each give a row of weights to the same files. The
rows are written one after the other, and the last one of a package stays.
-/

namespace Hmsdk.Tools

open Lib.Binary Lib.Decimal

variable {n : ℕ}

/-- `nid` is the last node of its package among those whose rows are written. -/
def DecidesPackage (nodes : Nodes n) (possible : List (Fin n)) (nid : Fin n) : Prop :=
  ∃ earlier later, possible = earlier ++ nid :: later ∧
    ∀ other ∈ later, nodes other ≠ nodes nid

/-- The files of a package show the row of one node; those of a package that no
    row was written for are as they were. -/
structure Coherent (matrix : Fin n → Row n) (nodes : Nodes n) (possible : List (Fin n))
    (before after : Fin n → ℕ) : Prop where
  decided : ∀ nid ∈ possible, ∃ last, DecidesPackage nodes possible last ∧
    nodes last = nodes nid ∧
    ∀ i, nodes i = nodes nid → after i = share (matrix last) (package nodes last) i
  /-- What is shown is the exact quotient, up to the size of the significand. -/
  whole : ∀ nid, DecidesPackage nodes possible nid → ∀ i, nodes i = nodes nid →
    after i < 2 ^ 53 → after i * (package nodes nid).gcd (matrix nid) = matrix nid i
  unchanged : ∀ i, (∀ nid ∈ possible, nodes i ≠ nodes nid) → after i = before i

section

variable {matrix : Fin n → Row n} {nodes : Nodes n} {possible : List (Fin n)} {nid i : Fin n}
  {row : Row n} {pack : Finset (Fin n)}

/-- A share that is small enough to be a significand was not rounded. -/
theorem share_mul_gcd (member : i ∈ pack) (small : share row pack i < 2 ^ 53) :
    share row pack i * pack.gcd row = row i := by
  obtain ⟨q, entry⟩ := Finset.gcd_dvd (f := row) member
  rcases Nat.eq_zero_or_pos (pack.gcd row) with zero | positive
  · rw [entry, zero, Nat.mul_zero, Nat.zero_mul]
  · have quotient : ((row i : ℕ) : ℚ) / (pack.gcd row : ℕ) = q := by
      have nonzero : ((pack.gcd row : ℕ) : ℚ) ≠ 0 := by exact_mod_cast positive.ne'
      rw [entry, Nat.cast_mul, mul_div_cancel_left₀ _ nonzero]
    have rounded : share row pack i = ⌊roundTo 53 (q : ℚ)⌋₊ := by
      rw [share, trueDiv, quotient, float]
    have below : q < 2 ^ 53 := by
      by_contra above
      have short : Short 53 ((2 ^ 53 : ℕ) : ℚ) := by
        rw [Nat.cast_pow, Nat.cast_ofNat]
        exact_mod_cast short_zpow (by decide) 53
      have ordered : ((2 ^ 53 : ℕ) : ℚ) ≤ q := by exact_mod_cast not_lt.mp above
      have large := short.le_roundTo (by decide) (by positivity) ordered
      rw [rounded, Nat.floor_lt (roundTo_nonneg (by positivity))] at small
      exact absurd large (not_le.mpr (by exact_mod_cast small))
    rw [rounded, (short_natCast below).roundTo_eq, Nat.floor_natCast, entry, Nat.mul_comm]

theorem decidesPackage_exists (nodes : Nodes n) (asked : nid ∈ possible) :
    ∃ last, DecidesPackage nodes possible last ∧ nodes last = nodes nid := by
  induction possible generalizing nid with
  | nil => cases asked
  | cons first rest ih =>
      by_cases again : ∃ other ∈ rest, nodes other = nodes nid
      · obtain ⟨other, member, same⟩ := again
        obtain ⟨last, ⟨earlier, later, split, none⟩, package⟩ := ih member
        exact ⟨last, ⟨first :: earlier, later, congrArg (first :: ·) split, none⟩,
          package.trans same⟩
      · have only : nid = first := by
          apply (List.mem_cons.mp asked).resolve_right
          intro member
          exact again ⟨nid, member, rfl⟩
        subst only
        refine ⟨nid, ⟨[], rest, rfl, ?_⟩, rfl⟩
        intro other member same
        exact again ⟨other, member, same⟩

/-- Among the weights of one row there is one for each file of the package. -/
theorem rowWeights_lookup (member : i ∈ package nodes nid) :
    (rowWeights (some nodes) row nid).reverse.lookup i =
      some (share row (package nodes nid) i) := by
  rw [rowWeights_eq, ← List.map_reverse]
  exact List.lookup_graph _ (List.mem_reverse.mpr (mem_packageNids.mpr member))

theorem plan_lookup_none (outside : ∀ nid ∈ possible, nodes i ≠ nodes nid) :
    (plan matrix (some nodes) possible).reverse.lookup i = none := by
  rw [List.lookup_eq_none_iff, plan_eq]
  intro entry member
  obtain ⟨place, inside, rfl⟩ := List.mem_map.mp (List.mem_reverse.mp member)
  have place := mem_positions.mp inside
  rw [bne_iff_ne]
  rintro rfl
  exact outside _ place.1 (mem_package.mp place.2)

/-- What comes after the row of the last node of a package goes to other files,
    and what came before is overwritten. -/
theorem plan_lookup (decides : DecidesPackage nodes possible nid) (member : nodes i = nodes nid) :
    (plan matrix (some nodes) possible).reverse.lookup i =
      some (share (matrix nid) (package nodes nid) i) := by
  obtain ⟨earlier, later, rfl, none⟩ := decides
  have split : plan matrix (some nodes) (earlier ++ nid :: later) =
      plan matrix (some nodes) earlier ++ (rowWeights (some nodes) (matrix nid) nid ++
        plan matrix (some nodes) later) := by
    simp [plan]
  have after : (plan matrix (some nodes) later).reverse.lookup i = Option.none := by
    apply plan_lookup_none
    intro other asked same
    exact none other asked (same.symm.trans member)
  rw [split, List.reverse_append, List.reverse_append, List.lookup_append, List.lookup_append,
    after, rowWeights_lookup (mem_package.mpr member)]
  rfl

variable {accepts : Accepts n} {files : Fin n → ℕ}

theorem displayMultiRatio_carried
    (finished : (displayMultiRatio accepts matrix (some nodes) possible ⟨files, []⟩).1 = true) :
    (displayMultiRatio accepts matrix (some nodes) possible ⟨files, []⟩).2.files i =
      ((plan matrix (some nodes) possible).reverse.lookup i).getD (files i) := by
  have carried : completed accepts 0 (plan matrix (some nodes) possible) =
      plan matrix (some nodes) possible :=
    unhindered_iff.mpr (displayMultiRatio_finished.mp finished)
  rw [displayMultiRatio_files, carried]

theorem displayMultiRatio_decided
    (finished : (displayMultiRatio accepts matrix (some nodes) possible ⟨files, []⟩).1 = true)
    (decides : DecidesPackage nodes possible nid) (member : nodes i = nodes nid) :
    (displayMultiRatio accepts matrix (some nodes) possible ⟨files, []⟩).2.files i =
      share (matrix nid) (package nodes nid) i := by
  rw [displayMultiRatio_carried finished, plan_lookup decides member]
  rfl

theorem displayMultiRatio_outside
    (finished : (displayMultiRatio accepts matrix (some nodes) possible ⟨files, []⟩).1 = true)
    (outside : ∀ nid ∈ possible, nodes i ≠ nodes nid) :
    (displayMultiRatio accepts matrix (some nodes) possible ⟨files, []⟩).2.files i = files i := by
  rw [displayMultiRatio_carried finished, plan_lookup_none outside]
  rfl

end

/-- Whenever the update is carried out, in whatever order the nodes come. -/
theorem displayMultiRatio_coherent (accepts : Accepts n) (matrix : Fin n → Row n)
    (nodes : Nodes n) (possible : List (Fin n)) (files : Fin n → ℕ)
    (finished : (displayMultiRatio accepts matrix (some nodes) possible ⟨files, []⟩).1 = true) :
    Coherent matrix nodes possible files
      (displayMultiRatio accepts matrix (some nodes) possible ⟨files, []⟩).2.files := by
  constructor
  · intro nid asked
    obtain ⟨last, decides, same⟩ := decidesPackage_exists nodes asked
    refine ⟨last, decides, same, ?_⟩
    intro i member
    exact displayMultiRatio_decided finished decides (member.trans same.symm)
  · intro nid decides i member small
    rw [displayMultiRatio_decided finished decides member] at small ⊢
    exact share_mul_gcd (mem_package.mpr member) small
  · intro i outside
    exact displayMultiRatio_outside finished outside

/-- Two nodes with processors in the first of two packages: the second row
    counts, and the other package keeps its weight. -/
theorem displayMultiRatio_coherent_pair :
    let files : Fin 3 → ℕ := ![5, 5, 5]
    Coherent (fun nid => ![nid.val + 2, 6, 9]) ![some 0, some 0, some 1] [0, 1] files
      (displayMultiRatio (fun _ _ _ => true) (fun nid => ![nid.val + 2, 6, 9])
        (some ![some 0, some 0, some 1]) [0, 1] ⟨files, []⟩).2.files := by
  intro files
  exact displayMultiRatio_coherent _ _ _ _ _ (by decide +kernel)

end Hmsdk.Tools
