import Mathlib

/-! # Ledgers of a partial map

A ledger is a finite set of keys kept next to a partial map by someone who does
not see the map. It agrees with the map when it lists exactly the keys in use.
-/

namespace Lib.Ledger

variable {κ β : Type*} {map : κ → Option β} {ledger : Finset κ} {key : κ}

/-- The ledger lists exactly the keys that the map holds. -/
def Agrees (map : κ → Option β) (ledger : Finset κ) : Prop :=
  ∀ key, (map key).isSome = true ↔ key ∈ ledger

theorem Agrees.absent (agrees : Agrees map ledger) (free : map key = none) : key ∉ ledger := by
  intro member
  simpa [free] using (agrees key).mpr member

variable [DecidableEq κ]

/-- A new key is entered on both sides. -/
theorem Agrees.insert (agrees : Agrees map ledger) (value : β) :
    Agrees (Function.update map key (some value)) (insert key ledger) := by
  intro other
  by_cases same : other = key
  · subst same
    simp
  · simp [same, agrees other]

theorem Agrees.erase (agrees : Agrees map ledger) :
    Agrees (Function.update map key none) (ledger.erase key) := by
  intro other
  by_cases same : other = key
  · subst same
    simp
  · simp [same, agrees other]

/-- A key that only the map learns of breaks the agreement. -/
theorem Agrees.lost (agrees : Agrees map ledger) (free : map key = none) (value : β) :
    ¬ Agrees (Function.update map key (some value)) ledger := by
  intro after
  exact agrees.absent free ((after key).mp (by simp))

end Lib.Ledger
