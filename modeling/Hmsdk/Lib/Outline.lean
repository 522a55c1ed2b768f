import Mathlib

/-! # Outlines

Trees are printed as outlines: an object a line, with the objects below it on the
lines after it, further to the right. What an object inherits from those around it
is handed down the tree, and it does not show in the line.
-/

namespace Lib.Outline

variable {α σ : Type*}

/-- Trees side by side: the first with what is below it, and those after it. -/
inductive Forest (α : Type*)
  | none
  | tree (object : α) (below after : Forest α)
  deriving Repr, DecidableEq

/-- The objects from top to bottom. -/
def objects : Forest α → List α
  | .none => []
  | .tree object below after => object :: (objects below ++ objects after)

/-- The objects from top to bottom, each in the scope that those around it leave. -/
def inherit (enter : σ → α → σ) : σ → Forest α → List (σ × α)
  | _, .none => []
  | scope, .tree object below after =>
      (scope, object) :: (inherit enter (enter scope object) below ++ inherit enter scope after)

/-- The objects from top to bottom, each with its depth. -/
def listed : ℕ → Forest α → List (ℕ × α) := inherit fun depth _ => depth + 1

/-- The first of each tree, with what is below it. -/
def children : Forest α → List (α × Forest α)
  | .none => []
  | .tree object below after => (object, below) :: children after

section

variable {enter : σ → α → σ} {scope : σ} {forest : Forest α}

theorem inherit_objects (enter : σ → α → σ) (scope : σ) (forest : Forest α) :
    (inherit enter scope forest).map Prod.snd = objects forest := by
  induction forest generalizing scope with
  | none => rfl
  | tree object below after ih_below ih_after => simp [inherit, objects, ih_below, ih_after]

/-- A scope that no object changes is that of all. -/
theorem inherit_const (stays : ∀ object ∈ objects forest, enter scope object = scope) :
    inherit enter scope forest = (objects forest).map (Prod.mk scope) := by
  induction forest with
  | none => rfl
  | tree object below after ih_below ih_after =>
      obtain ⟨first, others⟩ := List.forall_mem_cons.mp stays
      obtain ⟨stays_below, stays_after⟩ := List.forall_mem_append.mp others
      rw [inherit, objects, first, ih_below stays_below, ih_after stays_after]
      simp

/-- Every object of a forest has a place in it. -/
theorem exists_mem_inherit (enter : σ → α → σ) (scope : σ) {object : α}
    (member : object ∈ objects forest) : ∃ there, (there, object) ∈ inherit enter scope forest := by
  rw [← inherit_objects enter scope, List.mem_map] at member
  obtain ⟨⟨there, _⟩, member, rfl⟩ := member
  exact ⟨there, member⟩

theorem listed_tree (depth : ℕ) (object : α) (below after : Forest α) :
    listed depth (.tree object below after) =
      (depth, object) :: (listed (depth + 1) below ++ listed depth after) := rfl

/-- No object is printed left of the first. -/
theorem le_depth {depth : ℕ} {place : ℕ × α} (member : place ∈ listed depth forest) :
    depth ≤ place.1 := by
  induction forest generalizing depth with
  | none => exact absurd member List.not_mem_nil
  | tree object below after ih_below ih_after =>
      rw [listed_tree, List.mem_cons, List.mem_append] at member
      rcases member with rfl | member | member
      · exact le_rfl
      · exact (Nat.le_succ depth).trans (ih_below member)
      · exact ih_after member

end

/-- A text with so many blanks in front of it. -/
def indent (blank : α) (width : ℕ) (text : List α) : List α := List.replicate width blank ++ text

section

variable {blank first : α} {word text : List α}

/-- Where the blanks end shows in the text. -/
theorem indent_prefix_iff (plain : first ≠ blank) {width width' : ℕ} :
    indent blank width (first :: word) <+: indent blank width' (first :: text) ↔
      width = width' ∧ word <+: text := by
  induction width generalizing width' with
  | zero =>
      cases width' with
      | zero => simp [indent]
      | succ width' => simp [indent, List.replicate_succ, plain]
  | succ width ih =>
      cases width' with
      | zero => simp [indent, List.replicate_succ, plain.symm]
      | succ width' => simpa [indent, List.replicate_succ] using ih

/-- What is in front of a word and shares nothing with it is no part of it. -/
theorem infix_append_left {front : List α} (apart : ∀ c ∈ front, c ∉ word) :
    word <:+: front ++ text ↔ word <:+: text := by
  induction front with
  | nil => rfl
  | cons c front ih =>
      obtain ⟨outside, apart⟩ := List.forall_mem_cons.mp apart
      rw [List.cons_append, List.infix_cons_iff, ih apart, or_iff_right_iff_imp]
      intro starts
      cases word with
      | nil => exact List.nil_infix
      | cons d word =>
          obtain ⟨rfl, -⟩ := List.cons_prefix_cons.mp starts
          exact absurd List.mem_cons_self outside

/-- A word does not reach beyond a character that it does not have. -/
theorem infix_append_cons {front : List α} {c : α} (outside : c ∉ word) :
    word <:+: front ++ c :: text ↔ word <:+: front ∨ word <:+: text := by
  induction front with
  | nil =>
      have apart : ∀ d ∈ [c], d ∉ word := by simpa using outside
      rw [List.nil_append, ← List.singleton_append, infix_append_left apart, List.infix_nil]
      refine (or_iff_right_of_imp ?_).symm
      rintro rfl
      exact List.nil_infix
  | cons d front ih =>
      rw [List.cons_append, List.infix_cons_iff, ih, List.infix_cons_iff, or_assoc]
      refine or_congr_left' fun _ => ?_
      constructor
      · intro starts
        rcases List.prefix_or_prefix_of_prefix starts
          (List.prefix_append (d :: front) (c :: text)) with inside | beyond
        · exact inside
        · obtain ⟨more, rfl⟩ := beyond
          rw [← List.cons_append, List.prefix_append_right_inj] at starts
          cases more with
          | nil => simp
          | cons e more =>
              obtain ⟨rfl, -⟩ := List.cons_prefix_cons.mp starts
              simp at outside
      · intro starts
        exact starts.trans (List.prefix_append (d :: front) (c :: text))

end

end Lib.Outline
