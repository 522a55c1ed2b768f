import Mathlib

/-! # Layers of partial assignments

A layer gives values to some keys and leaves the others to what lies below it.
Layers laid one over the other act as one layer, in which the topmost value of
each key shows.
-/

namespace Lib.Layers

variable {κ α : Type*} {layers : List (κ → Option α)} {key : κ}

def atop (layer base : κ → Option α) : κ → Option α := fun key => (layer key).or (base key)

/-- The first of the layers lies at the bottom. -/
def stacked (base : κ → Option α) (layers : List (κ → Option α)) : κ → Option α :=
  layers.foldl (fun below layer => atop layer below) base

@[simp] theorem stacked_cons (base layer : κ → Option α) (layers : List (κ → Option α)) :
    stacked base (layer :: layers) = stacked (atop layer base) layers := rfl

@[simp] theorem stacked_concat (base : κ → Option α) (layers : List (κ → Option α))
    (layer : κ → Option α) :
    stacked base (layers ++ [layer]) = atop layer (stacked base layers) := by
  simp [stacked]

theorem stacked_absent (absent : ∀ layer ∈ layers, layer key = none) (base : κ → Option α) :
    stacked base layers key = base key := by
  induction layers generalizing base with
  | nil => rfl
  | cons layer rest ih =>
      have here : layer key = none := absent layer List.mem_cons_self
      rw [stacked_cons, ih fun other member => absent other (List.mem_cons_of_mem _ member)]
      simp [atop, here]

/-- A key that one of the layers gives a value to does not show the base. -/
theorem stacked_present (present : ∃ layer ∈ layers, layer key ≠ none) :
    ∃ value, ∀ base, stacked base layers key = some value := by
  induction layers using List.reverseRecOn with
  | nil =>
      obtain ⟨layer, member, -⟩ := present
      cases member
  | append_singleton rest layer ih =>
      cases here : layer key with
      | some value => exact ⟨value, fun base => by simp [atop, here]⟩
      | none =>
          have below : ∃ layer ∈ rest, layer key ≠ none := by
            obtain ⟨other, member, given⟩ := present
            rcases List.mem_append.mp member with member | member
            · exact ⟨other, member, given⟩
            · rw [List.mem_singleton.mp member] at given
              exact absurd here given
          obtain ⟨value, shown⟩ := ih below
          exact ⟨value, fun base => by simp [atop, here, shown]⟩

/-- The topmost layer hides those below it, whatever they lie on, exactly when
    it gives a value to every key that one of them does. -/
theorem hides_iff {top : κ → Option α} :
    (∀ base, atop top (stacked base layers) = atop top base) ↔
      ∀ key, (top key).isSome ∨ ∀ layer ∈ layers, layer key = none := by
  constructor
  · intro hides key
    cases shown : top key with
    | some value => exact .inl rfl
    | none =>
        right
        by_contra given
        push Not at given
        obtain ⟨value, same⟩ := stacked_present given
        have absurdity := congrFun (hides fun _ => none) key
        simp [atop, shown, same] at absurdity
  · intro covered base
    funext key
    rcases covered key with shown | absent
    · obtain ⟨value, shown⟩ := Option.isSome_iff_exists.mp shown
      simp [atop, shown]
    · simp [atop, stacked_absent absent]

end Lib.Layers
