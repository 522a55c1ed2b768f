import Mathlib

/-! # Machine words as sets of bit numbers

A mask word stands for the set of the bit numbers set in it; a longer set is
spread over a list of words. What survives cutting a set to its first word,
shifting a one into place or widening a signed word is stated about the sets.
-/

namespace Lib.WordMask

/-- The word has exactly the bits of the set. -/
def Holds {w : Nat} (word : BitVec w) (set : Set Nat) : Prop :=
  ∀ n, word.getLsbD n = true ↔ n ∈ set

theorem Holds.lt {w : Nat} {word : BitVec w} {set : Set Nat} (holds : Holds word set) {n : Nat}
    (member : n ∈ set) : n < w :=
  BitVec.lt_of_getLsbD ((holds n).mpr member)

/-- A word below half its range is one whose top bit is not in the set. -/
theorem Holds.half_iff {w : Nat} {word : BitVec (w + 1)} {set : Set Nat}
    (holds : Holds word set) : word.toNat < 2 ^ w ↔ w ∉ set := by
  have half : word.msb = false ↔ word.toNat < 2 ^ w := by
    rw [BitVec.msb_eq_false_iff_two_mul_lt, pow_succ]
    omega
  rw [← half, ← holds w, BitVec.msb_eq_getLsbD_last, Nat.add_sub_cancel, Bool.not_eq_true]

/-- A one shifted to bit `n` stands for `n` alone. -/
theorem holds_shift {w n : Nat} (inside : n < w) : Holds (1#w <<< n) {n} := by
  intro m
  simp only [BitVec.getLsbD_shiftLeft, BitVec.getLsbD_one, Set.mem_singleton_iff, Bool.and_eq_true,
    decide_eq_true_eq, Bool.not_eq_true', decide_eq_false_iff_not]
  omega

theorem Holds.signExtend {w v : Nat} {word : BitVec (w + 1)} {set : Set Nat} (wider : w + 1 ≤ v)
    (holds : Holds word set) (unsigned : w ∉ set) : Holds (word.signExtend v) set := by
  intro m
  have signBit : word.msb = false := by
    rw [BitVec.msb_eq_getLsbD_last, Nat.add_sub_cancel, Bool.eq_false_iff]
    exact fun top => unsigned ((holds w).mp top)
  rw [BitVec.getLsbD_signExtend, signBit, ← holds m]
  by_cases inside : m < w + 1
  · simp [inside, show m < v by omega]
  · simp [inside, BitVec.getLsbD_of_ge word m (by omega)]

/-- Widening a signed word copies its top bit upwards, so no widened word
    stands for one single number unless that number is below the sign bit. -/
theorem Holds.single_below_sign {w v n : Nat} {word : BitVec (w + 1)} (wider : w + 1 < v)
    (holds : Holds (word.signExtend v) {n}) : n < w := by
  have member : (word.signExtend v).getLsbD n = true := (holds n).mpr rfl
  have inside : n < v := holds.lt rfl
  by_contra notBelow
  have sign : word.msb = true := by
    rw [BitVec.getLsbD_signExtend] at member
    by_cases atSign : n < w + 1
    · obtain rfl : n = w := by omega
      simpa [atSign, inside, BitVec.msb_eq_getLsbD_last] using member
    · simpa [atSign, inside] using member
  -- The sign bit and its copy one place up are two different members.
  have atSign : w ∈ ({n} : Set Nat) := by
    rw [← holds w, BitVec.getLsbD_signExtend]
    simpa [show w < v by omega, BitVec.msb_eq_getLsbD_last] using sign
  have aboveSign : w + 1 ∈ ({n} : Set Nat) := by
    rw [← holds (w + 1), BitVec.getLsbD_signExtend]
    simpa [wider] using sign
  rw [Set.mem_singleton_iff] at atSign aboveSign
  omega

/-- Bit `n` of a set spread over consecutive words, lowest word first. -/
def spreadBit {w : Nat} (words : List (BitVec w)) (n : Nat) : Bool :=
  (words.getD (n / w) 0).getLsbD (n % w)

theorem spreadBit_first {w n : Nat} (first : BitVec w) (rest : List (BitVec w)) (inside : n < w) :
    spreadBit (first :: rest) n = first.getLsbD n := by
  simp [spreadBit, Nat.div_eq_of_lt inside, Nat.mod_eq_of_lt inside]

/-- The first word stands for the whole set exactly when the set fits in it. -/
theorem holds_first_iff {w : Nat} {first : BitVec w} {rest : List (BitVec w)} {set : Set Nat}
    (spread : ∀ n, spreadBit (first :: rest) n = true ↔ n ∈ set) :
    Holds first set ↔ ∀ n ∈ set, n < w := by
  constructor
  · exact fun holds n member => holds.lt member
  · intro fits n
    by_cases inside : n < w
    · rw [← spread n, spreadBit_first first rest inside]
    · rw [BitVec.getLsbD_of_ge first n (by omega)]
      simp only [Bool.false_eq_true, false_iff]
      exact fun member => inside (fits n member)

/-- A set of one number, spread over words of width `w`. -/
def single (w n : Nat) : List (BitVec w) :=
  List.replicate (n / w) 0 ++ [1#w <<< (n % w)]

theorem single_ne_nil (w n : Nat) : single w n ≠ [] := by simp [single]

theorem spreadBit_single {w : Nat} (positive : 0 < w) (n m : Nat) :
    spreadBit (single w n) m = true ↔ m = n := by
  have bit := holds_shift (Nat.mod_lt n positive) (m % w)
  have split := Nat.div_add_mod m w
  have splitN := Nat.div_add_mod n w
  rcases Nat.lt_trichotomy (m / w) (n / w) with below | same | above
  · have zero : (single w n).getD (m / w) 0 = 0 := by
      simp [single, List.getD_eq_getElem?_getD, List.getElem?_append_left, below]
    have different : m ≠ n := fun equal => by simp [equal] at below
    simp only [spreadBit, zero, different, iff_false, Bool.not_eq_true]
    exact BitVec.getLsbD_zero
  · have here : (single w n).getD (m / w) 0 = 1#w <<< (n % w) := by
      simp [single, List.getD_eq_getElem?_getD, same]
    rw [spreadBit, here, bit, Set.mem_singleton_iff]
    constructor
    · intro rest
      rw [← split, ← splitN, same, rest]
    · rintro rfl
      rfl
  · have zero : (single w n).getD (m / w) 0 = 0 := by
      rw [List.getD_eq_getElem?_getD, List.getElem?_eq_none (by simp [single]; omega)]
      rfl
    have different : m ≠ n := fun equal => by simp [equal] at above
    simp only [spreadBit, zero, different, iff_false, Bool.not_eq_true]
    exact BitVec.getLsbD_zero

end Lib.WordMask
