import Hmsdk.Tools.GenMigpol

/-! # Splitting once is enough

The kdamonds that splitting leaves have regions of at most the maximal size.
Splitting them again, with the same size or a larger one, keeps each of them as
the one copy of itself.
-/

namespace Hmsdk.Tools

open Lib.Fallible Lib.Json Lib.PyNumber

section

variable [CharData] {α : Type} {maxSize larger : MaxSize} {r kdamond : Value String α}
variable {regions : List (Value String α)}

theorem fits_iff : fits maxSize r = true ↔
    ∃ start stop, bounds r = some (start, stop) ∧ stop - start ≤ maxSize.size := by
  cases read : bounds r with
  | none => simp [fits, read]
  | some interval =>
      obtain ⟨start, stop⟩ := interval
      simp [fits, read]

theorem fits_larger (ordered : maxSize.size ≤ larger.size) (fit : fits maxSize r = true) :
    fits larger r = true := by
  obtain ⟨start, stop, read, small⟩ := fits_iff.mp fit
  exact fits_iff.mpr ⟨start, stop, read, small.trans ordered⟩

/-- A list of regions that a kdamond may be left with. -/
def Settled (maxSize : MaxSize) (regions : List (Value String α)) : Prop :=
  regions ≠ [] ∧ ∀ r ∈ regions, fits maxSize r = true

theorem splitStep_fits (fit : fits maxSize r = true)
    (lists : List (List (Value String α)) × List (Value String α)) :
    splitStep maxSize lists r = some (lists.1, lists.2 ++ [r]) := by
  obtain ⟨start, stop, read, small⟩ := fits_iff.mp fit
  simp [splitStep, read, small.not_gt]

/-- Regions that are small enough stay together. -/
theorem splitRegion_settled (settled : Settled maxSize regions) :
    splitRegion regions maxSize = some [regions] := by
  obtain ⟨nonempty, fit⟩ := settled
  have gathered (lists : List (List (Value String α)) × List (Value String α)) :
      regions.foldlM (splitStep maxSize) lists = some (lists.1, lists.2 ++ regions) := by
    clear nonempty
    induction regions generalizing lists with
    | nil => simp
    | cons r rest ih =>
        have later := ih fun other member => fit other (List.mem_cons_of_mem r member)
        rw [List.foldlM_cons, splitStep_fits (fit r List.mem_cons_self)]
        simp [later]
  simp [splitRegion, gathered, nonempty]

/-- One round keeps what is true of the lists so far. -/
theorem splitStep_keeps {lists after : List (List (Value String α)) × List (Value String α)}
    (stepped : splitStep maxSize lists r = some after)
    (settled : ∀ list ∈ lists.1, Settled maxSize list)
    (fit : ∀ r ∈ lists.2, fits maxSize r = true) :
    (∀ list ∈ after.1, Settled maxSize list) ∧ ∀ r ∈ after.2, fits maxSize r = true := by
  obtain ⟨⟨start, stop⟩, read, result⟩ := Option.bind_eq_some_iff.mp stepped
  dsimp only at result
  split at result
  · cases result
    refine ⟨fun list member => ?_, fit⟩
    rcases List.mem_append.mp member with before | piece
    · exact settled list before
    · obtain ⟨chunk, inside, rfl⟩ := List.mem_map.mp piece
      refine ⟨List.cons_ne_nil _ _, fun r member => ?_⟩
      obtain rfl := List.mem_singleton.mp member
      exact fits_iff.mpr ⟨_, _, bounds_chunkRegion chunk, chunks_fit inside⟩
  · rename_i small
    cases result
    refine ⟨settled, fun other member => ?_⟩
    rcases List.mem_append.mp member with before | here
    · exact fit other before
    · obtain rfl := List.mem_singleton.mp here
      exact fits_iff.mpr ⟨start, stop, read, not_lt.mp small⟩

/-- Whatever the regions were, those of the new lists are small enough. -/
theorem splitRegion_fit {lists : List (List (Value String α))}
    (split : splitRegion regions maxSize = some lists) :
    ∀ list ∈ lists, Settled maxSize list := by
  obtain ⟨⟨alone, together⟩, looped, result⟩ := Option.bind_eq_some_iff.mp split
  obtain ⟨settled, fit⟩ := foldlM_keeps
    (fun lists => (∀ list ∈ lists.1, Settled maxSize list) ∧ ∀ r ∈ lists.2, fits maxSize r = true)
    (fun _ _ _ stepped kept => splitStep_keeps stepped kept.1 kept.2) looped (by simp)
  cases result
  intro list member
  split at member
  · exact settled list member
  · rename_i nonempty
    rcases List.mem_append.mp member with before | last
    · exact settled list before
    · obtain rfl := List.mem_singleton.mp last
      exact ⟨by simpa using nonempty, fit⟩

/-- The copies of a kdamond are kept as they are. -/
theorem newKdamonds_again (ordered : maxSize.size ≤ larger.size) {block : List (Value String α)}
    (replaced : newKdamonds maxSize kdamond = some block) {copy : Value String α}
    (member : copy ∈ block) : newKdamonds larger copy = some [copy] := by
  obtain ⟨regions, -, replaced⟩ := Option.bind_eq_some_iff.mp replaced
  obtain ⟨lists, split, copied⟩ := Option.bind_eq_some_iff.mp replaced
  obtain ⟨list, inside, assigned⟩ := exists_of_mem_mapM copied member
  obtain ⟨nonempty, fit⟩ := splitRegion_fit split list inside
  have settled : Settled larger list :=
    ⟨nonempty, fun r member => fits_larger ordered (fit r member)⟩
  have found := get_put assigned
  simp [newKdamonds, found, items, splitRegion_settled settled, put_same found]

theorem rewriteKdamonds_again (ordered : maxSize.size ≤ larger.size) (nodeJson : Value String α) :
    (rewriteKdamonds maxSize nodeJson).bind (rewriteKdamonds larger) =
      rewriteKdamonds maxSize nodeJson := by
  cases rewritten : rewriteKdamonds maxSize nodeJson with
  | none => rfl
  | some after =>
      rw [Option.bind_some]
      obtain ⟨kdamonds, -, replaced⟩ := Option.bind_eq_some_iff.mp rewritten
      obtain ⟨blocks, mapped, assigned⟩ := Option.bind_eq_some_iff.mp replaced
      have found := get_put assigned
      have again : blocks.flatten.mapM (newKdamonds larger) =
          some (blocks.flatten.map ([·])) := by
        refine mapM_of_forall fun copy member => ?_
        obtain ⟨block, listed, inside⟩ := List.mem_flatten.mp member
        obtain ⟨kdamond, -, here⟩ := exists_of_mem_mapM mapped listed
        exact newKdamonds_again ordered here inside
      have flat : (blocks.flatten.map ([·])).flatten = blocks.flatten := by
        rw [← List.flatMap_def, List.flatMap_singleton']
      simp only [rewriteKdamonds, found, items, again, Option.bind_eq_bind, Option.bind_some, flat,
        put_same found]

end

/-- Splitting again, with the same maximal size or a larger one, changes nothing,
    and where every kdamond monitors a region there is something to split again. -/
theorem rewriteKdamonds_stable [CharData] {α : Type} {maxSize larger : MaxSize}
    (ordered : maxSize.size ≤ larger.size) (nodeJson : Value String α) :
    (rewriteKdamonds maxSize nodeJson).bind (rewriteKdamonds larger) =
        rewriteKdamonds maxSize nodeJson ∧
      ∀ kdamonds, Monitored nodeJson kdamonds → (rewriteKdamonds maxSize nodeJson).isSome := by
  refine ⟨rewriteKdamonds_again ordered nodeJson, fun kdamonds monitored => ?_⟩
  obtain ⟨listed, regions⟩ := monitored
  obtain ⟨blocks, mapped, -⟩ := mapM_newKdamonds maxSize regions
  obtain ⟨after, assigned⟩ := put_of_get listed (.arr blocks.flatten)
  simp [rewriteKdamonds, listed, items, mapped, assigned]

section

attribute [local instance] asciiData

theorem rewriteKdamonds_stable_two_regions :
    (rewriteKdamonds ⟨4, by decide⟩ (.obj [("kdamonds", .arr [twoRegions])])).bind
        (rewriteKdamonds ⟨9, by decide⟩) =
      rewriteKdamonds ⟨4, by decide⟩ (.obj [("kdamonds", .arr [twoRegions])]) ∧
      ∀ kdamonds, Monitored (.obj [("kdamonds", .arr [twoRegions])]) kdamonds →
        (rewriteKdamonds ⟨4, by decide⟩ (.obj [("kdamonds", .arr [twoRegions])])).isSome :=
  rewriteKdamonds_stable (by decide) _

end

end Hmsdk.Tools
