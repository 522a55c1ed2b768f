import Hmsdk.Lib.Placement
import Hmsdk.Hmalloc.Mbind

/-! # The extents of the arena

jemalloc asks the hooks for extents and hands them back, while the rest of the
program maps and unmaps memory of its own and may call `update_env`. An arena
remembers which extents jemalloc was handed, with the policy that was in force,
and what the address space would be without them.
-/

namespace Hmsdk.Hmalloc

open Lib.Region Lib.Run Lib.Placement

/-- What `hmmap` binds a mapping to. -/
def Globals.bound (g : Globals) : Option Policy :=
  if 0#64 < g.nodemask then some g.policy else none

structure Extent where
  base : Addr
  size : Size
  policy : Option Policy
  deriving Repr, DecidableEq

namespace Extent

/-- Private zero pages that may be read and written, under the extent's policy. -/
def cell (extent : Extent) (i : Nat) : Cell where
  prot := PROT_READ ||| PROT_WRITE
  flags := MAP_PRIVATE ||| MAP_ANON
  fd := 0
  offset := 0 + i
  policy := extent.policy

def block (extent : Extent) : Block (Option Cell) where
  base := extent.base.toNat
  size := pageSpan extent.size
  value i := some (extent.cell i)

end Extent

/-- `elsewhere` is the address space as it would be without the extents. -/
structure Arena where
  globals : Globals
  space : Space
  elsewhere : Nat → Option Cell
  extents : List Extent

inductive ArenaCall where
  | extentAlloc (newAddr : Addr) (size alignment : Size) (kernel : Kernel)
  | extentDalloc (extent : Extent) (kernel : Kernel)
  | updateEnv (env : Environ)
  | elsewhere (region : Block (Option Cell))

namespace Arena

/-- jemalloc takes any result of `extent_alloc` but null for an extent, and
    keeps the extent when `extent_dalloc` answers `true`. -/
def step (s : Arena) : ArenaCall → Arena
  | .extentAlloc newAddr size alignment kernel =>
      let (base, space) := (extentAlloc s.globals kernel newAddr size alignment).run s.space
      { s with
        space := space
        extents :=
          if base = NULL then s.extents else ⟨base, size, s.globals.bound⟩ :: s.extents }
  | .extentDalloc extent kernel =>
      let (kept, space) := (extentDalloc kernel extent.base extent.size).run s.space
      { s with
        space := space
        extents := if kept then s.extents else s.extents.erase extent }
  | .updateEnv env => { s with globals := Hmalloc.updateEnv env s.globals }
  | .elsewhere region =>
      { s with
        space := { s.space with
          cells := overlay region.base region.size region.value s.space.cells }
        elsewhere := overlay region.base region.size region.value s.elsewhere }

def blocks (s : Arena) : List (Block (Option Cell)) := s.extents.map Extent.block

/-- The address space is made up of the extents, each mapped as a whole with its
    policy, and of what is there without them. -/
structure Accounted (s : Arena) : Prop where
  cells : s.space.cells = lay s.blocks s.elsewhere
  apart : s.blocks.Pairwise Block.Apart
  free : ∀ extent ∈ s.extents, ∀ i < pageSpan extent.size,
    s.elsewhere (extent.base.toNat + i) = none

/-- jemalloc asks for extents with at least a byte and hands back those it was
    given; `mmap` maps nothing at address zero and nothing over a mapping; the
    rest of the program keeps off the extents. -/
def Lawful (s : Arena) : ArenaCall → Prop
  | .extentAlloc _ size _ kernel =>
      size ≠ 0 ∧ ∀ base, kernel.mmap = .maps base →
        base.addr ≠ NULL ∧ ∀ i < pageSpan size, s.space.cells (base.addr.toNat + i) = none
  | .extentDalloc extent _ => extent ∈ s.extents
  | .updateEnv _ => True
  | .elsewhere region => ∀ extent ∈ s.extents, region.Apart extent.block

/-- `mmap` finds room, and what cannot be bound is unmapped. -/
def Undisturbed (s : Arena) : ArenaCall → Prop
  | .extentAlloc _ _ _ kernel =>
      kernel.Creates ∧ (kernel.Binds s.globals ∨ ∃ errno, kernel.munmap = .unmaps errno)
  | _ => True

end Arena

section

variable {g : Globals} {kernel : Kernel} {newAddr addr : Addr} {size alignment : Size}
  {space : Space} {base : PageAddr}

theorem pageSpan_pos (nonzero : size ≠ 0) : 0 < pageSpan size := by
  have positive : 0 < size.toNat := Nat.pos_of_ne_zero fun zero => nonzero (by
    rw [← BitVec.toNat_inj, zero]
    rfl)
  exact positive.trans_le (length_le_pageSpan size)

theorem extentAlloc_unmapped {errno : Errno} (failed : kernel.mmap = .fails errno) :
    (extentAlloc g kernel newAddr size alignment).run space =
      (MAP_FAILED, { space with errno := errno }) := hmmap_unmapped failed

theorem extentAlloc_mapped (mapped : kernel.mmap = .maps base) (bound : kernel.Binds g) :
    (extentAlloc g kernel newAddr size alignment).run space =
      (base.addr, { space with
        cells := lay [Extent.block ⟨base.addr, size, g.bound⟩] space.cells }) :=
  hmmap_mapped mapped bound

/-- A mapping that cannot be bound is given up again, if `munmap` works. -/
theorem extentAlloc_unbound (newAddr : Addr) (alignment : Size)
    (mapped : kernel.mmap = .maps base) (unbound : ¬ kernel.Binds g)
    (fresh : ∀ i < pageSpan size, space.cells (base.addr.toNat + i) = none) :
    ∃ after, (extentAlloc g kernel newAddr size alignment).run space = (NULL, after) ∧
      ((∃ errno, kernel.munmap = .unmaps errno) → after.cells = space.cells) ∧
      ((∃ errno, kernel.munmap = .fails errno) →
        after.cells = lay [Extent.block ⟨base.addr, size, none⟩] space.cells) := by
  obtain ⟨policy, errno, failed⟩ := kernel.not_binds unbound
  refine ⟨_, hmmap_unbound mapped policy failed, ?_, ?_⟩
  · rintro ⟨left, unmaps⟩
    rw [munmap_unmaps unmaps]
    simp only [pure, overlay_overlay]
    exact overlay_same fun i inside => (fresh i inside).symm
  · rintro ⟨left, fails⟩
    rw [munmap_fails fails]
    rfl

theorem extentDalloc_unmaps {errno : Option Errno} (unmaps : kernel.munmap = .unmaps errno) :
    (extentDalloc kernel addr size).run space =
      (false, { errno := errno.getD space.errno
                cells := overlay addr.toNat (pageSpan size) (fun _ => none) space.cells }) := by
  rw [extentDalloc, hmunmap, StateT.run_bind, munmap_unmaps unmaps]
  rfl

theorem extentDalloc_fails {errno : Errno} (fails : kernel.munmap = .fails errno) :
    (extentDalloc kernel addr size).run space = (true, { space with errno := errno }) := by
  rw [extentDalloc, hmunmap, StateT.run_bind, munmap_fails fails]
  rfl

end

namespace Arena

variable {s : Arena} {newAddr : Addr} {size alignment : Size} {kernel : Kernel} {extent : Extent}

theorem Accounted.cell_of_mem (accounted : s.Accounted) (given : extent ∈ s.extents) {i : Nat}
    (inside : i < pageSpan extent.size) :
    s.space.cells (extent.base.toNat + i) = some (extent.cell i) := by
  have member : extent.block ∈ s.blocks := List.mem_map_of_mem given
  rw [accounted.cells]
  exact lay_of_mem accounted.apart member inside

/-- Where nothing is mapped there is no extent, and nothing else either. -/
theorem Accounted.unused (accounted : s.Accounted) {a : Nat} (unmapped : s.space.cells a = none) :
    (∀ extent ∈ s.extents, a ∉ extent.block.range) ∧ s.elsewhere a = none := by
  have outside : ∀ extent ∈ s.extents, a ∉ extent.block.range := by
    intro extent given covered
    obtain ⟨i, inside, rfl⟩ := Block.exists_of_mem_range covered
    have mapped := accounted.cell_of_mem given inside
    exact Option.some_ne_none _ (mapped.symm.trans unmapped)
  refine ⟨outside, ?_⟩
  rw [← unmapped, accounted.cells]
  refine (lay_of_not_mem ?_).symm
  intro b member
  obtain ⟨extent, given, rfl⟩ := List.mem_map.mp member
  exact outside extent given

/-- A new extent goes where nothing is mapped. -/
theorem Accounted.insert (accounted : s.Accounted)
    (fresh : ∀ i < pageSpan extent.size, s.space.cells (extent.base.toNat + i) = none) :
    Accounted { s with
      space := { s.space with cells := lay [extent.block] s.space.cells }
      extents := extent :: s.extents } where
  cells := by
    simp only [blocks, List.map_cons, lay_cons, lay_nil, accounted.cells]
  apart := by
    refine List.pairwise_cons.mpr ⟨?_, accounted.apart⟩
    intro b member
    obtain ⟨other, given, rfl⟩ := List.mem_map.mp member
    refine Set.disjoint_left.mpr fun a covered => ?_
    obtain ⟨i, inside, rfl⟩ := Block.exists_of_mem_range covered
    exact (accounted.unused (fresh i inside)).1 other given
  free := by
    intro other given i inside
    rcases List.mem_cons.mp given with rfl | earlier
    · exact (accounted.unused (fresh i inside)).2
    · exact accounted.free other earlier i inside

/-- An extent that is unmapped leaves a hole. -/
theorem Accounted.erase (accounted : s.Accounted) (given : extent ∈ s.extents) (errno : Errno) :
    Accounted { s with
      space := {
        errno := errno
        cells := overlay extent.base.toNat (pageSpan extent.size) (fun _ => none) s.space.cells }
      extents := s.extents.erase extent } := by
  have split : s.blocks.Perm (extent.block :: (s.extents.erase extent).map Extent.block) :=
    (List.perm_cons_erase given).map Extent.block
  have apart : (extent.block :: (s.extents.erase extent).map Extent.block).Pairwise Block.Apart :=
    (split.pairwise_iff fun together => together.symm).mp accounted.apart
  have hole : overlay extent.base.toNat (pageSpan extent.size) (fun _ => none) s.space.cells =
      lay ((s.extents.erase extent).map Extent.block) s.elsewhere :=
    calc
      _ = overlay extent.block.base extent.block.size
            (fun i => s.elsewhere (extent.block.base + i))
            (lay (extent.block :: (s.extents.erase extent).map Extent.block) s.elsewhere) := by
        rw [accounted.cells, lay_perm split accounted.apart]
        exact overlay_congr fun i inside => (accounted.free extent given i inside).symm
      _ = _ := overlay_lay_cons apart
  exact ⟨hole, (List.pairwise_cons.mp apart).2, fun other member =>
    accounted.free other (List.mem_of_mem_erase member)⟩

theorem Accounted.elsewhere {region : Block (Option Cell)} (accounted : s.Accounted)
    (clear : ∀ extent ∈ s.extents, region.Apart extent.block) :
    (s.step (.elsewhere region)).Accounted where
  cells := by
    have apart : ∀ b ∈ s.blocks, region.Apart b := by
      intro b member
      obtain ⟨extent, given, rfl⟩ := List.mem_map.mp member
      exact clear extent given
    simp only [step, accounted.cells]
    exact (lay_overlay apart).symm
  apart := accounted.apart
  free := by
    intro extent given i inside
    have outside := (clear extent given).symm.not_mem (Block.mem_range (b := extent.block) inside)
    simp only [step]
    exact (overlay_outside outside).trans (accounted.free extent given i inside)

/-- Only these three parts of the state count. -/
theorem Accounted.same {after : Arena} (accounted : s.Accounted)
    (cells : after.space.cells = s.space.cells) (elsewhere : after.elsewhere = s.elsewhere)
    (extents : after.extents = s.extents) : after.Accounted := by
  obtain ⟨made, apart, free⟩ := accounted
  refine ⟨?_, ?_, ?_⟩
  · simpa only [blocks, cells, elsewhere, extents] using made
  · simpa only [blocks, extents] using apart
  · simpa only [elsewhere, extents] using free

theorem step_extentAlloc {base : Addr} {space : Space}
    (called : (extentAlloc s.globals kernel newAddr size alignment).run s.space = (base, space)) :
    s.step (.extentAlloc newAddr size alignment kernel) =
      { s with
        space := space
        extents :=
          if base = NULL then s.extents else ⟨base, size, s.globals.bound⟩ :: s.extents } := by
  simp only [step, called]

theorem step_extentDalloc {kept : Bool} {space : Space}
    (called : (extentDalloc kernel extent.base extent.size).run s.space = (kept, space)) :
    s.step (.extentDalloc extent kernel) =
      { s with
        space := space
        extents := if kept then s.extents else s.extents.erase extent } := by
  simp only [step, called]

/-- An extent at `MAP_FAILED` has no memory, or memory that is something else. -/
theorem unmapped_not_accounted {errno : Errno} (accounted : s.Accounted) (nonzero : size ≠ 0)
    (failed : kernel.mmap = .fails errno) :
    ¬ (s.step (.extentAlloc newAddr size alignment kernel)).Accounted := by
  rw [step_extentAlloc (extentAlloc_unmapped failed), if_neg (by decide : MAP_FAILED ≠ NULL)]
  intro after
  let extent : Extent := ⟨MAP_FAILED, size, s.globals.bound⟩
  have inside : 0 < pageSpan extent.size := pageSpan_pos nonzero
  have given : extent ∈ extent :: s.extents := List.mem_cons_self
  have mapped : s.space.cells (extent.base.toNat + 0) = some (extent.cell 0) :=
    after.cell_of_mem given inside
  have hole : s.elsewhere (extent.base.toNat + 0) = none :=
    after.free extent given 0 inside
  have uncovered : ∀ b ∈ s.blocks, extent.base.toNat + 0 ∉ b.range := fun b member =>
    ((List.pairwise_cons.mp after.apart).1 b member).not_mem
      (Block.mem_range (b := extent.block) inside)
  rw [accounted.cells, lay_of_not_mem uncovered, hole] at mapped
  exact Option.some_ne_none _ mapped.symm

/-- A mapping that is neither handed over nor unmapped belongs to no one. -/
theorem unbound_not_accounted {base : PageAddr} {errno : Errno} (accounted : s.Accounted)
    (nonzero : size ≠ 0) (mapped : kernel.mmap = .maps base) (unbound : ¬ kernel.Binds s.globals)
    (fresh : ∀ i < pageSpan size, s.space.cells (base.addr.toNat + i) = none)
    (left : kernel.munmap = .fails errno) :
    ¬ (s.step (.extentAlloc newAddr size alignment kernel)).Accounted := by
  obtain ⟨space, called, -, stays⟩ :=
    extentAlloc_unbound newAddr alignment mapped unbound fresh
  rw [step_extentAlloc called, if_pos rfl]
  intro after
  have inside : 0 < pageSpan size := pageSpan_pos nonzero
  have same : space.cells = s.space.cells := after.cells.trans accounted.cells.symm
  have here : space.cells (base.addr.toNat + 0) ≠ none := by
    rw [stays ⟨errno, left⟩, lay_cons, lay_nil]
    change overlay base.addr.toNat (pageSpan size) _ _ _ ≠ none
    rw [overlay_at inside]
    exact Option.some_ne_none _
  exact here (by rw [same, fresh 0 inside])

/-- One call keeps the account exactly when `mmap` finds room and nothing that
    cannot be bound is left mapped. -/
theorem step_accounted_iff (accounted : s.Accounted) {call : ArenaCall} (lawful : s.Lawful call) :
    (s.step call).Accounted ↔ s.Undisturbed call := by
  cases call with
  | extentAlloc newAddr size alignment kernel =>
      obtain ⟨nonzero, places⟩ := lawful
      cases mapped : kernel.mmap with
      | fails errno =>
          refine iff_of_false (unmapped_not_accounted accounted nonzero mapped) ?_
          rintro ⟨⟨base, creates⟩, -⟩
          rw [mapped] at creates
          cases creates
      | maps base =>
          obtain ⟨notNull, fresh⟩ := places base mapped
          have creates : kernel.Creates := ⟨base, mapped⟩
          by_cases bound : kernel.Binds s.globals
          · refine iff_of_true ?_ ⟨creates, .inl bound⟩
            rw [step_extentAlloc (extentAlloc_mapped mapped bound), if_neg notNull]
            exact accounted.insert fresh
          · cases left : kernel.munmap with
            | unmaps errno =>
                refine iff_of_true ?_ ⟨creates, .inr ⟨errno, left⟩⟩
                obtain ⟨space, called, undone, -⟩ :=
                  extentAlloc_unbound newAddr alignment mapped bound fresh
                rw [step_extentAlloc called, if_pos rfl]
                exact accounted.same (undone ⟨errno, left⟩) rfl rfl
            | fails errno =>
                refine iff_of_false
                  (unbound_not_accounted accounted nonzero mapped bound fresh left) ?_
                rintro ⟨-, binds | ⟨other, unmaps⟩⟩
                · exact bound binds
                · rw [left] at unmaps
                  cases unmaps
  | extentDalloc extent kernel =>
      refine iff_of_true ?_ trivial
      cases released : kernel.munmap with
      | fails errno =>
          rw [step_extentDalloc (extentDalloc_fails released)]
          exact accounted.same rfl rfl rfl
      | unmaps errno =>
          rw [step_extentDalloc (extentDalloc_unmaps released)]
          exact accounted.erase lawful _
  | updateEnv env => exact iff_of_true (accounted.same rfl rfl rfl) trivial
  | elsewhere region => exact iff_of_true (accounted.elsewhere lawful) trivial

/-- Whatever order jemalloc, the program and `update_env` come in: the address
    space is accounted for at every point of a run exactly when `mmap` always
    finds room and nothing that cannot be bound is left mapped. -/
theorem accounted_iff (start : s.Accounted) {calls : List ArenaCall}
    (run : Each step Lawful s calls) :
    Each step (fun s call => (s.step call).Accounted) s calls ↔ Each step Undisturbed s calls :=
  each_congr start run
    (fun _ _ accounted lawful => step_accounted_iff accounted lawful)
    (fun _ _ _ _ kept => kept)

/-- The arena of a loaded library, in whatever memory the program has by then. -/
def load (g : Globals) (space : Space) : Arena := ⟨g, space, space.cells, []⟩

theorem accounted_load (g : Globals) (space : Space) : (load g space).Accounted :=
  ⟨rfl, List.Pairwise.nil, fun _ given => absurd given List.not_mem_nil⟩

/-- A second extent without a policy, after the environment has changed, and the
    first one handed back. -/
theorem accounted_two :
    let second : Kernel := ⟨.maps ⟨0x20000, by decide⟩, .fails EINVAL, .unmaps none⟩
    let first : Extent := ⟨0x10000, 4096, bindsNodeTwo.bound⟩
    let calls : List ArenaCall :=
      [.extentAlloc NULL 4096 4096 grants, .updateEnv fun _ => none,
        .extentAlloc NULL 4096 4096 second, .elsewhere ⟨0x30000, 1, fun _ => none⟩,
        .extentDalloc first grants]
    Each step (fun s call => (s.step call).Accounted) (load bindsNodeTwo emptySpace) calls := by
  intro second first calls
  have fresh : ∀ i < pageSpan 4096,
      lay [first.block] emptySpace.cells (0x20000 + i) = none := by
    intro i inside
    refine lay_of_not_mem fun b member => ?_
    rw [List.mem_singleton.mp member]
    rintro ⟨-, below⟩
    have ends : first.block.base + first.block.size = 0x11000 := by decide
    omega
  have apart : ∀ base : Addr, base.toNat + 4096 ≤ 0x30000 → ∀ policy : Option Policy,
      (⟨0x30000, 1, fun _ => none⟩ : Block (Option Cell)).Apart
        (Extent.block ⟨base, 4096, policy⟩) := by
    intro base low policy
    refine Set.disjoint_left.mpr fun a here there => ?_
    have above : 0x30000 ≤ a := here.1
    have below : a < base.toNat + pageSpan 4096 := there.2
    have page : pageSpan 4096 = 4096 := by decide
    omega
  have mapped : (load bindsNodeTwo emptySpace).step (.extentAlloc NULL 4096 4096 grants) = _ :=
    step_extentAlloc (extentAlloc_mapped rfl fun _ => rfl)
  have run : Each step Lawful (load bindsNodeTwo emptySpace) calls := by
    refine ⟨⟨by decide, ?_⟩, trivial, ⟨by decide, ?_⟩, ?_, ?_, trivial⟩
    · rintro base ⟨⟩
      exact ⟨by decide, fun _ _ => rfl⟩
    · rintro base ⟨⟩
      rw [mapped]
      exact ⟨by decide, fresh⟩
    · intro extent given
      rcases List.mem_cons.mp given with rfl | earlier
      · exact apart _ (by decide) _
      · rcases List.mem_singleton.mp earlier with rfl
        exact apart _ (by decide) _
    · exact List.mem_cons_of_mem _ List.mem_cons_self
  refine (accounted_iff (accounted_load bindsNodeTwo emptySpace) run).mpr ?_
  exact ⟨⟨⟨_, rfl⟩, .inl fun _ => rfl⟩, trivial,
    ⟨⟨_, rfl⟩, .inl fun policy => absurd policy (by decide)⟩, trivial, trivial, trivial⟩

end Arena

end Hmsdk.Hmalloc
