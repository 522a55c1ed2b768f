import Mathlib

/-! # Runs of a deterministic step

A run feeds a list of inputs to a step function. `Each` speaks about every
state met on the way together with the input it meets there, so a property of
all reachable states is stated once and proved by one argument about a step.
-/

namespace Lib.Run

variable {σ ι : Type*} {step : σ → ι → σ} {inv : σ → Prop}
  {p q allowed : σ → ι → Prop}

/-- `p` holds of every state of the run and the input taken there. -/
def Each (step : σ → ι → σ) (p : σ → ι → Prop) : σ → List ι → Prop
  | _, [] => True
  | s, i :: rest => p s i ∧ Each step p (step s i) rest

@[simp] theorem each_nil (s : σ) : Each step p s [] := trivial

@[simp] theorem each_cons (s : σ) (i : ι) (rest : List ι) :
    Each step p s (i :: rest) ↔ p s i ∧ Each step p (step s i) rest := Iff.rfl

instance Each.decidable [∀ s i, Decidable (p s i)] :
    ∀ (s : σ) (inputs : List ι), Decidable (Each step p s inputs)
  | _, [] => .isTrue trivial
  | s, i :: rest =>
      have := Each.decidable (step s i) rest
      inferInstanceAs (Decidable (p s i ∧ Each step p (step s i) rest))

theorem each_of_forall (holds : ∀ s i, p s i) (s : σ) (inputs : List ι) : Each step p s inputs := by
  induction inputs generalizing s with
  | nil => trivial
  | cons i rest ih => exact ⟨holds s i, ih (step s i)⟩

/-- Two conditions agree along a whole run when they agree at every state the
    invariant allows and the first one carries the invariant on. -/
theorem each_congr (start : inv s) (run : Each step allowed s inputs)
    (same : ∀ s i, inv s → allowed s i → (p s i ↔ q s i))
    (kept : ∀ s i, inv s → allowed s i → p s i → inv (step s i)) :
    Each step p s inputs ↔ Each step q s inputs := by
  induction inputs generalizing s with
  | nil => exact Iff.rfl
  | cons i rest ih =>
      obtain ⟨here, later⟩ := run
      rw [each_cons, each_cons, ← same s i start here]
      exact and_congr_right fun holds => ih (kept s i start here holds) later

/-- The invariant rule: what every allowed step keeps and implies holds all
    along the run. -/
theorem Each.of_invariant (start : inv s) (run : Each step allowed s inputs)
    (implied : ∀ s i, inv s → allowed s i → q s i)
    (kept : ∀ s i, inv s → allowed s i → inv (step s i)) : Each step q s inputs := by
  induction inputs generalizing s with
  | nil => trivial
  | cons i rest ih =>
      exact ⟨implied s i start run.1, ih (kept s i start run.1) run.2⟩

/-- A quantity that every step adds to ends up with the sum of what was added. -/
theorem foldl_adds {M : Type*} [AddCommMonoid M] (measure : σ → M) (added : ι → M)
    (adds : ∀ s i, measure (step s i) = measure s + added i) (s : σ) (inputs : List ι) :
    measure (inputs.foldl step s) = measure s + (inputs.map added).sum := by
  induction inputs generalizing s with
  | nil => simp
  | cons i rest ih => rw [List.foldl_cons, ih, adds, List.map_cons, List.sum_cons, add_assoc]

end Lib.Run
