import Mathlib

/-! # Loops over indices

A loop that reaches into a list by index fails where the index is outside the
list. One whose accesses are all inside computes what the total functions on
lists compute.
-/

namespace Lib.Indexed

variable {α β : Type*}

/-- The entries from `i` on, so many of them, read one by one. -/
def readFrom (xs : List α) (i count : Nat) : Option (List α) :=
  (List.range' i count).mapM fun j => xs[j]?

theorem readFrom_eq {xs : List α} {i count : Nat} (inside : count ≤ xs.length - i) :
    readFrom xs i count = some ((xs.drop i).take count) := by
  induction count generalizing i with
  | zero => rfl
  | succ count ih =>
      have here : i < xs.length := by omega
      have later := ih (i := i + 1) (by omega)
      simp only [readFrom, List.range'_succ, List.mapM_cons,
        List.getElem?_eq_getElem here] at later ⊢
      rw [List.drop_eq_getElem_cons here, List.take_succ_cons, later]
      rfl

/-- Rewrite so many entries from `i` on, one by one and in place. -/
def updateFrom (f : Nat → α → Option α) (i count : Nat) (xs : List α) : Option (List α) :=
  (List.range' i count).foldlM (fun xs j => do
    let x ← xs[j]?
    let y ← f j x
    return xs.set j y) xs

theorem updateFrom_eq {f : Nat → α → Option α} {g : Nat → α → α} {i count : Nat} {xs : List α}
    (inside : i + count ≤ xs.length)
    (defined : ∀ j x, j < i + count → f j x = some (g j x)) :
    updateFrom f i count xs =
      some (xs.mapIdx fun j x => if i ≤ j ∧ j < i + count then g j x else x) := by
  induction count generalizing i xs with
  | zero =>
      have same : xs.mapIdx (fun j x => if i ≤ j ∧ j < i + 0 then g j x else x) = xs := by
        apply List.ext_getElem?
        intro j
        have outside : ¬ (i ≤ j ∧ j < i + 0) := by omega
        simp only [List.getElem?_mapIdx, if_neg outside, Option.map_id']
      rw [same]
      rfl
  | succ count ih =>
      have here : i < xs.length := by omega
      have room : i + 1 + count ≤ (xs.set i (g i xs[i])).length := by
        rw [List.length_set]
        omega
      have later := ih room fun j x before => defined j x (by omega)
      simp only [updateFrom, List.range'_succ, List.foldlM_cons, List.getElem?_eq_getElem here,
        Option.bind_eq_bind, Option.bind_some, defined i xs[i] (by omega)] at later ⊢
      refine later.trans (congrArg some ?_)
      apply List.ext_getElem?
      intro j
      rw [List.getElem?_mapIdx, List.getElem?_mapIdx]
      rcases eq_or_ne j i with rfl | other
      · have first : j ≤ j ∧ j < j + (count + 1) := by omega
        simp [here, first]
      · have same : (i + 1 ≤ j ∧ j < i + 1 + count) ↔ (i ≤ j ∧ j < i + (count + 1)) := by omega
        simp only [List.getElem?_set_ne (Ne.symm other), same]

end Lib.Indexed
