import Mathlib

/-! # Regions of an address space

A memory is a function from addresses. Mapping, unmapping and filling a region
are one operation, which replaces the values at consecutive addresses. Its users
need what it puts there, and that a second replacement hides the first.
-/

namespace Lib.Region

variable {α : Type*} {base n : Nat} {f g : Nat → α} {m : Nat → α}

/-- Replace the values at the `n` addresses from `base` on. -/
def overlay (base n : Nat) (f m : Nat → α) : Nat → α :=
  fun a => if base ≤ a ∧ a < base + n then f (a - base) else m a

@[simp] theorem overlay_at {i : Nat} (inside : i < n) : overlay base n f m (base + i) = f i := by
  simp [overlay, inside]

theorem overlay_outside {a : Nat} (outside : ¬ (base ≤ a ∧ a < base + n)) :
    overlay base n f m a = m a := if_neg outside

/-- Putting back what is there changes nothing. -/
theorem overlay_same (same : ∀ i < n, f i = m (base + i)) : overlay base n f m = m := by
  funext a
  by_cases inside : base ≤ a ∧ a < base + n
  · obtain ⟨i, rfl⟩ := Nat.exists_eq_add_of_le inside.1
    have here : i < n := by omega
    rw [overlay_at here]
    exact same i here
  · exact overlay_outside inside

theorem overlay_congr (same : ∀ i < n, f i = g i) : overlay base n f m = overlay base n g m := by
  funext a
  by_cases inside : base ≤ a ∧ a < base + n
  · simp only [overlay, if_pos inside]
    exact same (a - base) (by omega)
  · simp only [overlay, if_neg inside]

/-- Of two replacements in one region the later one counts. -/
@[simp] theorem overlay_overlay :
    overlay base n f (overlay base n g m) = overlay base n f m := by
  funext a
  by_cases inside : base ≤ a ∧ a < base + n <;> simp [overlay, inside]

end Lib.Region
