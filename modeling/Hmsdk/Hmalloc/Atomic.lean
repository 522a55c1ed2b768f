import Hmsdk.Hmalloc.Failure

/-! # What a call of `hmmap` leaves behind

A mapping that cannot be bound is taken down again, and `errno` is put back to
what `mbind` left there. What the mapping had replaced is not put back.
-/

namespace Hmsdk.Hmalloc

open Lib.Region

/-- Page by page, a mapping takes the place of what was there. -/
def remapped (g : Globals) (base : Addr) (length : Size) (prot flags : BitVec 32)
    (fd offset : Int) (cells : Nat → Option Cell) : Nat → Option Cell :=
  overlay base.toNat (pageSpan length) (fun i => some (mappedCell g prot flags fd offset i)) cells

/-- All or nothing: either the mapping was made as asked for, or the mappings
    are as before and `errno` tells which call failed. -/
structure HmmapAtomic (g : Globals) (kernel : Kernel) (length : Size) (prot flags : BitVec 32)
    (fd offset : Int) (before : Space) (result : Addr × Space) : Prop where
  failure : result.1 = MAP_FAILED ∨ result.1 = NULL →
    result.2.cells = before.cells ∧ kernel.failure g = some result.2.errno
  success : result.1 ≠ MAP_FAILED → result.1 ≠ NULL →
    result.2.cells = remapped g result.1 length prot flags fd offset before.cells

/-- What the manual says, by the call that fails: `mmap` leaves everything as it
    was, after `mbind` the area is unmapped and the rest is as it was. -/
structure HmmapEffect (g : Globals) (kernel : Kernel) (length : Size) (prot flags : BitVec 32)
    (fd offset : Int) (before : Space) (result : Addr × Space) : Prop where
  refused : ∀ errno, kernel.mmap = .fails errno →
    result.1 = MAP_FAILED ∧ result.2.errno = errno ∧ result.2.cells = before.cells
  undone : ∀ base errno, kernel.mmap = .maps base → 0#64 < g.nodemask →
    kernel.mbind = .fails errno →
      result.1 = NULL ∧ result.2.errno = errno ∧
        (∀ i < pageSpan length, result.2.cells (base.addr.toNat + i) = none) ∧
        ∀ a, ¬ (base.addr.toNat ≤ a ∧ a < base.addr.toNat + pageSpan length) →
          result.2.cells a = before.cells a
  /-- Where a mapping is made in free space, undoing it restores the mappings. -/
  restored : ∀ base, kernel.mmap = .maps base → ¬ kernel.Binds g →
    (∀ i < pageSpan length, before.cells (base.addr.toNat + i) = none) →
      result.2.cells = before.cells
  mapped : ∀ base, kernel.mmap = .maps base → kernel.Binds g →
    result.1 = base.addr ∧ result.2.errno = before.errno ∧
      result.2.cells = remapped g base.addr length prot flags fd offset before.cells

section

variable {g : Globals} {kernel : Kernel} {addr : Addr} {length : Size} {prot flags : BitVec 32}
  {fd offset : Int} {s : Space} {base : PageAddr}

/-- The undo takes the pages down, and the `errno` of `munmap` is dropped. -/
theorem hmmap_undone {errno : Errno} {left : Option Errno} (mapped : kernel.mmap = .maps base)
    (policy : 0#64 < g.nodemask) (failed : kernel.mbind = .fails errno)
    (unmaps : kernel.munmap = .unmaps left) :
    (hmmap g kernel addr length prot flags fd offset).run s =
      (NULL, ⟨errno, overlay base.addr.toNat (pageSpan length) (fun _ => none) s.cells⟩) := by
  rw [hmmap_unbound mapped policy failed]
  simp only [munmap, StateT.run, unmaps, overlay_overlay]

theorem hmmap_effect {left : Option Errno} (unmaps : kernel.munmap = .unmaps left) :
    HmmapEffect g kernel length prot flags fd offset s
      ((hmmap g kernel addr length prot flags fd offset).run s) where
  refused := by
    intro errno failed
    rw [hmmap_unmapped failed]
    exact ⟨rfl, rfl, rfl⟩
  undone := by
    intro base errno mapped policy failed
    rw [hmmap_undone mapped policy failed unmaps]
    refine ⟨rfl, rfl, ?_, ?_⟩
    · intro i inside
      dsimp only
      exact overlay_at inside
    · intro a outside
      dsimp only
      exact overlay_outside outside
  restored := by
    intro base mapped unbound free
    obtain ⟨policy, errno, failed⟩ := kernel.not_binds unbound
    rw [hmmap_undone mapped policy failed unmaps]
    dsimp only
    apply overlay_same
    intro i inside
    exact (free i inside).symm
  mapped := by
    intro base mapped bound
    rw [hmmap_mapped mapped bound]
    exact ⟨rfl, rfl, rfl⟩

end

/-- A page that `mmap` grants and `mbind` refuses to bind; taking it down sets
    `errno` on the way. -/
def unbinds : Kernel := { grants with mbind := .fails EINVAL, munmap := .unmaps (some 0) }

theorem hmmap_effect_unbound :
    HmmapEffect bindsNodeTwo unbinds 100 3 0x22 (-1) 0 emptySpace
      ((hmmap bindsNodeTwo unbinds NULL 100 3 0x22 (-1) 0).run emptySpace) :=
  hmmap_effect rfl

/-- A mapping at a fixed address in place of another: when it cannot be bound,
    the call fails and the old mapping is gone. -/
theorem hmmap_loses_mapping :
    let occupied : Space := ⟨0, overlay 0x10000 4096 (fun i => some ⟨3, 0x22, -1, i, none⟩)
      fun _ => none⟩
    ¬ HmmapAtomic bindsNodeTwo unbinds 4096 3 0x32 (-1) 0 occupied
      ((hmmap bindsNodeTwo unbinds 0x10000 4096 3 0x32 (-1) 0).run occupied) := by
  intro occupied atomic
  have unchanged := congrFun (atomic.failure (.inr rfl)).1 0x10000
  cases unchanged

end Hmsdk.Hmalloc
