import Mathlib

/-! # Loops that may fail

A loop over a list whose steps may fail, as a map or as a fold. It succeeds
where all of its steps do, and what every step keeps is true at the end.
-/

namespace Lib.Fallible

variable {α β σ : Type*}

/-- A map that succeeds does so entry by entry. -/
theorem mapM_eq_some_iff {f : α → Option β} {xs : List α} {ys : List β} :
    xs.mapM f = some ys ↔ List.Forall₂ (fun x y => f x = some y) xs ys := by
  induction xs generalizing ys with
  | nil =>
      rw [List.mapM_nil, List.forall₂_nil_left_iff]
      exact ⟨fun same => (Option.some.inj same).symm, fun empty => congrArg some empty.symm⟩
  | cons x rest ih =>
      rw [List.mapM_cons]
      constructor
      · intro mapped
        obtain ⟨y, here, mapped⟩ := Option.bind_eq_some_iff.mp mapped
        obtain ⟨others, later, same⟩ := Option.bind_eq_some_iff.mp mapped
        cases same
        exact .cons here (ih.mp later)
      · rintro (_ | ⟨here, below⟩)
        rw [here, ih.mpr below]
        rfl

theorem exists_of_mem_mapM {f : α → Option β} {xs : List α} {ys : List β}
    (mapped : xs.mapM f = some ys) {y : β} (member : y ∈ ys) : ∃ x ∈ xs, f x = some y := by
  induction mapM_eq_some_iff.mp mapped with
  | nil => cases member
  | @cons x first rest others here below ih =>
      rcases List.mem_cons.mp member with rfl | later
      · exact ⟨x, List.mem_cons_self, here⟩
      · obtain ⟨z, inside, found⟩ := ih (mapM_eq_some_iff.mpr below) later
        exact ⟨z, List.mem_cons_of_mem x inside, found⟩

theorem mapM_of_forall {f : α → Option β} {g : α → β} {xs : List α}
    (maps : ∀ x ∈ xs, f x = some (g x)) : xs.mapM f = some (xs.map g) := by
  rw [mapM_eq_some_iff, List.forall₂_map_right_iff, List.forall₂_same]
  exact maps

/-- A map fails where one of its steps does. -/
theorem mapM_eq_none {f : α → Option β} {xs : List α} {x : α} (member : x ∈ xs)
    (fails : f x = none) : xs.mapM f = none := by
  induction xs with
  | nil => cases member
  | cons first rest ih =>
      rw [List.mapM_cons]
      rcases List.mem_cons.mp member with rfl | later
      · rw [fails]
        rfl
      · cases f first with
        | none => rfl
        | some y =>
            rw [ih later]
            rfl

/-- Entries that are all mapped to something related make related lists. -/
theorem mapM_forall₂ {f : α → Option β} {related : α → β → Prop} {xs : List α}
    (maps : ∀ x ∈ xs, ∃ y, f x = some y ∧ related x y) :
    ∃ ys, xs.mapM f = some ys ∧ List.Forall₂ related xs ys := by
  induction xs with
  | nil => exact ⟨[], rfl, .nil⟩
  | cons x rest ih =>
      obtain ⟨ys, mapped, below⟩ :=
        ih fun other member => maps other (List.mem_cons_of_mem x member)
      obtain ⟨y, here, fits⟩ := maps x List.mem_cons_self
      have later := mapM_eq_some_iff.mp mapped
      exact ⟨y :: ys, mapM_eq_some_iff.mpr (.cons here later), .cons fits below⟩

/-- A fold whose steps succeed wherever an invariant holds that they keep. -/
theorem foldlM_some {f : σ → α → Option σ} {g : σ → α → σ} (invariant : σ → Prop)
    (keeps : ∀ s x, invariant s → f s x = some (g s x) ∧ invariant (g s x)) {s : σ}
    (start : invariant s) (xs : List α) :
    xs.foldlM f s = some (xs.foldl g s) := by
  induction xs generalizing s with
  | nil => rfl
  | cons x xs ih =>
      obtain ⟨step, still⟩ := keeps s x start
      rw [List.foldlM_cons, step, List.foldl_cons]
      exact ih still

/-- A fold that succeeds keeps what its steps keep. -/
theorem foldlM_keeps {f : σ → α → Option σ} (invariant : σ → Prop)
    (keeps : ∀ s x t, f s x = some t → invariant s → invariant t) {xs : List α} {s t : σ}
    (done : xs.foldlM f s = some t) (start : invariant s) : invariant t := by
  induction xs generalizing s with
  | nil =>
      cases done
      exact start
  | cons x rest ih =>
      rw [List.foldlM_cons] at done
      obtain ⟨middle, step, done⟩ := Option.bind_eq_some_iff.mp done
      exact ih done (keeps s x middle step start)

end Lib.Fallible
