import Hmsdk.Lib.Region

/-! # Blocks laid over an address space

A list of blocks is laid over a memory, each at its own place. While the blocks
are apart from each other, their order does not matter, taking one away uncovers
what lay below it, and a change elsewhere commutes with all of them.
-/

namespace Lib.Placement

open Lib.Region

structure Block (α : Type*) where
  base : Nat
  size : Nat
  value : Nat → α

variable {α : Type*} {b c : Block α} {blocks others : List (Block α)} {m : Nat → α} {a : Nat}

namespace Block

def range (b : Block α) : Set Nat := Set.Ico b.base (b.base + b.size)

def Apart (b c : Block α) : Prop := Disjoint b.range c.range

theorem Apart.symm (apart : b.Apart c) : c.Apart b := Disjoint.symm apart

theorem mem_range {i : Nat} (inside : i < b.size) : b.base + i ∈ b.range := by
  simp [range, inside]

theorem exists_of_mem_range (covered : a ∈ b.range) : ∃ i < b.size, a = b.base + i := by
  obtain ⟨low, high⟩ := covered
  exact ⟨a - b.base, by omega, by omega⟩

/-- A block that holds the address is not apart from another one that does. -/
theorem Apart.not_mem (apart : b.Apart c) (covered : a ∈ b.range) : a ∉ c.range :=
  Set.disjoint_left.mp apart covered

end Block

/-- Every block in its place. -/
def lay (blocks : List (Block α)) (m : Nat → α) : Nat → α :=
  blocks.foldr (fun b below => overlay b.base b.size b.value below) m

@[simp] theorem lay_nil : lay [] m = m := rfl

@[simp] theorem lay_cons :
    lay (b :: blocks) m = overlay b.base b.size b.value (lay blocks m) := rfl

/-- Outside the blocks the memory shows. -/
theorem lay_of_not_mem (uncovered : ∀ b ∈ blocks, a ∉ b.range) : lay blocks m a = m a := by
  induction blocks with
  | nil => rfl
  | cons b blocks ih =>
      have outside : ¬ (b.base ≤ a ∧ a < b.base + b.size) := uncovered b List.mem_cons_self
      rw [lay_cons, overlay_outside outside]
      exact ih fun c member => uncovered c (List.mem_cons_of_mem b member)

/-- In a block its own values show. -/
theorem lay_of_mem (apart : blocks.Pairwise Block.Apart) (member : b ∈ blocks) {i : Nat}
    (inside : i < b.size) : lay blocks m (b.base + i) = b.value i := by
  induction blocks with
  | nil => cases member
  | cons c blocks ih =>
      obtain ⟨first, rest⟩ := List.pairwise_cons.mp apart
      rw [lay_cons]
      rcases List.mem_cons.mp member with rfl | later
      · exact overlay_at inside
      · have outside : b.base + i ∉ c.range :=
          (first b later).symm.not_mem (Block.mem_range inside)
        rw [overlay_outside outside]
        exact ih rest later

theorem lay_perm (same : blocks.Perm others) (apart : blocks.Pairwise Block.Apart) :
    lay blocks m = lay others m := by
  have apart' : others.Pairwise Block.Apart :=
    (same.pairwise_iff fun together => together.symm).mp apart
  funext a
  by_cases covered : ∃ b ∈ blocks, a ∈ b.range
  · obtain ⟨b, member, holds⟩ := covered
    obtain ⟨i, inside, rfl⟩ := Block.exists_of_mem_range holds
    rw [lay_of_mem apart member inside, lay_of_mem apart' (same.mem_iff.mp member) inside]
  · have uncovered : ∀ b ∈ blocks, a ∉ b.range := fun b member holds => covered ⟨b, member, holds⟩
    rw [lay_of_not_mem uncovered, lay_of_not_mem fun b member => uncovered b
      (same.mem_iff.mpr member)]

/-- Putting back below a block what the memory holds takes the block away. -/
theorem overlay_lay_cons (apart : (b :: blocks).Pairwise Block.Apart) :
    overlay b.base b.size (fun i => m (b.base + i)) (lay (b :: blocks) m) = lay blocks m := by
  obtain ⟨first, -⟩ := List.pairwise_cons.mp apart
  rw [lay_cons, overlay_overlay]
  apply overlay_same
  intro i inside
  exact (lay_of_not_mem fun c member => (first c member).not_mem (Block.mem_range inside)).symm

/-- A change outside the blocks may be made above or below them. -/
theorem lay_overlay (clear : ∀ c ∈ blocks, b.Apart c) :
    lay blocks (overlay b.base b.size b.value m) =
      overlay b.base b.size b.value (lay blocks m) := by
  induction blocks with
  | nil => rfl
  | cons c blocks ih =>
      rw [lay_cons, lay_cons, ih fun d member => clear d (List.mem_cons_of_mem c member)]
      have apart : b.Apart c := clear c List.mem_cons_self
      funext a
      by_cases covered : a ∈ c.range
      · obtain ⟨i, inside, rfl⟩ := Block.exists_of_mem_range covered
        have outside : c.base + i ∉ b.range := apart.symm.not_mem covered
        rw [overlay_at inside, overlay_outside outside, overlay_at inside]
      · rw [overlay_outside covered]
        by_cases changed : a ∈ b.range
        · obtain ⟨i, inside, rfl⟩ := Block.exists_of_mem_range changed
          rw [overlay_at inside, overlay_at inside]
        · rw [overlay_outside changed, overlay_outside changed, overlay_outside covered]

end Lib.Placement
