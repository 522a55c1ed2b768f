import Hmsdk.Lib.Region
import Hmsdk.Hmalloc.Environ

/-! # Mappings with a memory policy

`hmmap`, `hmunmap` and the extent hooks over the three system calls they use.
What the kernel answers to each call is an input; what the calls do to the
mappings and to `errno` follows from the answer. The hook that jemalloc calls
has one failure value, `hmmap` has two.
-/

namespace Hmsdk.Hmalloc

open Lib.Region

abbrev Addr := BitVec 64
abbrev Size := BitVec 64
abbrev Errno := Int

def NULL : Addr := 0
def MAP_FAILED : Addr := BitVec.allOnes 64
def PAGE_SIZE : Nat := 4096

def ENOMEM : Errno := 12
def EINVAL : Errno := 22

def PROT_READ : BitVec 32 := 1
def PROT_WRITE : BitVec 32 := 2
def MAP_PRIVATE : BitVec 32 := 2
def MAP_ANON : BitVec 32 := 32

/-- The arguments of `mbind` that stay with the memory it is called for. -/
structure Policy where
  mode : Int
  nodemask : BitVec 64
  maxnode : Int
  deriving Repr, DecidableEq

/-- One mapped byte: its protection, where its contents come from, and the
    policy bound to it. -/
structure Cell where
  prot : BitVec 32
  flags : BitVec 32
  fd : Int
  offset : Int
  policy : Option Policy := none
  deriving Repr, DecidableEq

structure Space where
  errno : Errno
  cells : Nat → Option Cell

/-- An address that `mmap` may return on success. -/
structure PageAddr where
  addr : Addr
  aligned : addr.toNat % PAGE_SIZE = 0

theorem PageAddr.ne_failed (base : PageAddr) : base.addr ≠ MAP_FAILED := by
  intro failed
  have aligned := base.aligned
  rw [failed] at aligned
  exact absurd aligned (by decide)

inductive MmapAnswer where
  | fails (errno : Errno)
  | maps (base : PageAddr)

inductive MbindAnswer where
  | fails (errno : Errno)
  | binds

/-- A successful `munmap` may still leave something in `errno`. -/
inductive MunmapAnswer where
  | fails (errno : Errno)
  | unmaps (errno : Option Errno)

structure Kernel where
  mmap : MmapAnswer
  mbind : MbindAnswer
  munmap : MunmapAnswer

/-- The kernel maps, binds and unmaps whole pages: so many bytes for a length. -/
def pageSpan (length : Size) : Nat := (length.toNat + (PAGE_SIZE - 1)) / PAGE_SIZE * PAGE_SIZE

theorem length_le_pageSpan (length : Size) : length.toNat ≤ pageSpan length := by
  unfold pageSpan PAGE_SIZE
  omega

/-- The address argument is a hint, which the answer has taken into account. -/
def mmap (kernel : Kernel) (_addr : Addr) (length : Size) (prot flags : BitVec 32)
    (fd offset : Int) : StateM Space Addr := fun s =>
  match kernel.mmap with
  | .fails errno => (MAP_FAILED, { s with errno := errno })
  | .maps base =>
      let mapped (i : Nat) : Option Cell :=
        some { prot := prot, flags := flags, fd := fd, offset := offset + i }
      (base.addr, { s with cells := overlay base.addr.toNat (pageSpan length) mapped s.cells })

def mbind (kernel : Kernel) (addr : Addr) (length : Size) (policy : Policy) :
    StateM Space Int := fun s =>
  match kernel.mbind with
  | .fails errno => (-1, { s with errno := errno })
  | .binds =>
      let bound (i : Nat) : Option Cell :=
        (s.cells (addr.toNat + i)).map fun cell => { cell with policy := some policy }
      (0, { s with cells := overlay addr.toNat (pageSpan length) bound s.cells })

def munmap (kernel : Kernel) (addr : Addr) (length : Size) : StateM Space Int := fun s =>
  match kernel.munmap with
  | .fails errno => (-1, { s with errno := errno })
  | .unmaps errno =>
      (0, { errno := errno.getD s.errno
            cells := overlay addr.toNat (pageSpan length) (fun _ => none) s.cells })

def Globals.policy (g : Globals) : Policy := ⟨g.mpolMode, g.nodemask, g.maxnode⟩

def hmmap (g : Globals) (kernel : Kernel) (addr : Addr) (length : Size) (prot flags : BitVec 32)
    (fd offset : Int) : StateM Space Addr := do
  let newAddr ← mmap kernel addr length prot flags fd offset
  if newAddr = MAP_FAILED then
    return MAP_FAILED
  if 0#64 < g.nodemask then
    let ret ← mbind kernel newAddr length g.policy
    if ret ≠ 0 then
      let mbindErrno := (← get).errno
      let _ ← munmap kernel newAddr length
      modify fun s => { s with errno := mbindErrno }
      return NULL
  return newAddr

def hmunmap (kernel : Kernel) (addr : Addr) (length : Size) : StateM Space Int :=
  munmap kernel addr length

/-- The hook maps anywhere: neither the address nor the alignment that jemalloc
    asks for is passed on. -/
def extentAlloc (g : Globals) (kernel : Kernel) (_newAddr : Addr) (size _alignment : Size) :
    StateM Space Addr :=
  hmmap g kernel NULL size (PROT_READ ||| PROT_WRITE) (MAP_PRIVATE ||| MAP_ANON) 0 0

/-- The hook answers `true` when the extent was not released. -/
def extentDalloc (kernel : Kernel) (addr : Addr) (size : Size) : StateM Space Bool := do
  let ret ← hmunmap kernel addr size
  return ret ≠ 0

section Hmmap

variable {g : Globals} {kernel : Kernel} {addr : Addr} {length : Size} {prot flags : BitVec 32}
  {fd offset : Int} {s : Space} {errno : Errno} {base : PageAddr}

theorem mmap_fails (failed : kernel.mmap = .fails errno) :
    (mmap kernel addr length prot flags fd offset).run s =
      pure (MAP_FAILED, { s with errno := errno }) := by
  simp [mmap, failed, StateT.run, pure]

theorem mmap_maps (mapped : kernel.mmap = .maps base) :
    (mmap kernel addr length prot flags fd offset).run s =
      pure (base.addr, { s with
        cells := overlay base.addr.toNat (pageSpan length)
          (fun i => some { prot := prot, flags := flags, fd := fd, offset := offset + i })
          s.cells }) := by
  simp [mmap, mapped, StateT.run, pure]

theorem mbind_fails {policy : Policy} (failed : kernel.mbind = .fails errno) :
    (mbind kernel addr length policy).run s = pure (-1, { s with errno := errno }) := by
  simp [mbind, failed, StateT.run, pure]

theorem mbind_binds {policy : Policy} (bound : kernel.mbind = .binds) :
    (mbind kernel addr length policy).run s =
      pure (0, { s with
        cells := overlay addr.toNat (pageSpan length)
          (fun i => (s.cells (addr.toNat + i)).map fun cell => { cell with policy := some policy })
          s.cells }) := by
  simp [mbind, bound, StateT.run, pure]

theorem munmap_fails (failed : kernel.munmap = .fails errno) :
    (munmap kernel addr length).run s = pure (-1, { s with errno := errno }) := by
  simp [munmap, failed, StateT.run, pure]

theorem munmap_unmaps {left : Option Errno} (unmapped : kernel.munmap = .unmaps left) :
    (munmap kernel addr length).run s =
      pure (0, { errno := left.getD s.errno
                 cells := overlay addr.toNat (pageSpan length) (fun _ => none) s.cells }) := by
  simp [munmap, unmapped, StateT.run, pure]

/-- What a byte of a successful mapping holds. -/
def mappedCell (g : Globals) (prot flags : BitVec 32) (fd offset : Int) (i : Nat) : Cell where
  prot := prot
  flags := flags
  fd := fd
  offset := offset + i
  policy := if 0#64 < g.nodemask then some g.policy else none

theorem hmmap_unmapped (failed : kernel.mmap = .fails errno) :
    (hmmap g kernel addr length prot flags fd offset).run s =
      (MAP_FAILED, { s with errno := errno }) := by
  simp only [hmmap, StateT.run_bind, mmap_fails failed, pure_bind, if_true, StateT.run_pure]
  rfl

theorem hmmap_mapped (mapped : kernel.mmap = .maps base)
    (bound : 0#64 < g.nodemask → kernel.mbind = .binds) :
    (hmmap g kernel addr length prot flags fd offset).run s =
      (base.addr, { s with
        cells := overlay base.addr.toNat (pageSpan length)
          (fun i => some (mappedCell g prot flags fd offset i)) s.cells }) := by
  by_cases policy : 0#64 < g.nodemask
  · simp only [hmmap, StateT.run_bind, mmap_maps mapped, pure_bind, base.ne_failed, if_false,
      policy, if_true, mbind_binds (bound policy), ne_eq, not_true_eq_false, StateT.run_pure,
      overlay_overlay]
    refine congrArg (fun cells => (base.addr, { s with cells := cells })) (overlay_congr ?_)
    intro i inside
    simp [overlay_at inside, mappedCell, policy]
  · simp only [hmmap, StateT.run_bind, mmap_maps mapped, pure_bind, base.ne_failed, if_false,
      policy, StateT.run_pure, mappedCell]
    rfl

/-- `mbind` fails. Its `errno` is the one reported, whatever `munmap` does. -/
theorem hmmap_unbound {bindErrno : Errno} (mapped : kernel.mmap = .maps base)
    (policy : 0#64 < g.nodemask) (failed : kernel.mbind = .fails bindErrno) :
    (hmmap g kernel addr length prot flags fd offset).run s =
      (NULL, {
        errno := bindErrno
        cells := ((munmap kernel base.addr length).run {
          errno := bindErrno
          cells := overlay base.addr.toNat (pageSpan length)
            (fun i => some { prot := prot, flags := flags, fd := fd, offset := offset + i })
            s.cells }).2.cells }) := by
  simp only [hmmap, StateT.run_bind, mmap_maps mapped, pure_bind, base.ne_failed, if_false, policy,
    if_true, mbind_fails failed]
  rfl

end Hmmap

def Kernel.Creates (kernel : Kernel) : Prop := ∃ base, kernel.mmap = .maps base

/-- The mapping was bound, or there is no policy to bind it to. -/
def Kernel.Binds (kernel : Kernel) (g : Globals) : Prop :=
  0#64 < g.nodemask → kernel.mbind = .binds

theorem Kernel.not_binds {g : Globals} (kernel : Kernel) (unbound : ¬ kernel.Binds g) :
    0#64 < g.nodemask ∧ ∃ errno, kernel.mbind = .fails errno := by
  obtain ⟨policy, failed⟩ := Classical.not_imp.mp unbound
  cases answer : kernel.mbind with
  | binds => exact absurd answer failed
  | fails errno => exact ⟨policy, errno, rfl⟩

/-- `size` bytes from `base` on that were not mapped before and are mapped now,
    with the policy when there is one. -/
structure FreshMapping (g : Globals) (before after : Space) (base : Addr) (size : Size) :
    Prop where
  unused : ∀ i < size.toNat, before.cells (base.toNat + i) = none
  live : ∀ i < size.toNat, ∃ cell, after.cells (base.toNat + i) = some cell ∧
    (0#64 < g.nodemask → cell.policy = some g.policy)

/-- How jemalloc reads the hook's result: null is the only failure value, and
    any other result is used as memory. -/
structure HookReports (succeeded : Prop) (result : Addr) (mapping : Prop) : Prop where
  failure : ¬ succeeded → result = NULL
  memory : result ≠ NULL → mapping
  valid : result ≠ MAP_FAILED

/-- The hook reports its outcome as jemalloc reads it exactly when `mmap`
    succeeds. The kernel places a new mapping where nothing is mapped. -/
theorem extentAlloc_reports_iff {g : Globals} {kernel : Kernel} {newAddr : Addr}
    {size alignment : Size} {s : Space}
    (fresh : ∀ base, kernel.mmap = .maps base →
      ∀ i < size.toNat, s.cells (base.addr.toNat + i) = none) :
    HookReports (kernel.Creates ∧ kernel.Binds g)
        ((extentAlloc g kernel newAddr size alignment).run s).1
        (FreshMapping g s ((extentAlloc g kernel newAddr size alignment).run s).2
          ((extentAlloc g kernel newAddr size alignment).run s).1 size) ↔
      kernel.Creates := by
  constructor
  · intro reports
    cases mapped : kernel.mmap with
    | maps base => exact ⟨base, mapped⟩
    | fails errno =>
        rw [extentAlloc, hmmap_unmapped mapped] at reports
        exact absurd rfl reports.valid
  · rintro ⟨base, mapped⟩
    by_cases bound : kernel.Binds g
    · rw [extentAlloc, hmmap_mapped mapped bound]
      refine ⟨fun failed => absurd ⟨⟨base, mapped⟩, bound⟩ failed, fun _ => ?_, base.ne_failed⟩
      refine ⟨fresh base mapped, fun i inside => ?_⟩
      simp only [overlay_at (inside.trans_le (length_le_pageSpan size))]
      exact ⟨_, rfl, fun policy => if_pos policy⟩
    · obtain ⟨policy, errno, failed⟩ := kernel.not_binds bound
      rw [extentAlloc, hmmap_unbound mapped policy failed]
      exact ⟨fun _ => rfl, fun notNull => absurd rfl notNull, (by decide : NULL ≠ MAP_FAILED)⟩

def emptySpace : Space := ⟨0, fun _ => none⟩

/-- The library set up to bind its extents to node 2. -/
def bindsNodeTwo : Globals := { useJemalloc := true, nodemask := 4, mpolMode := MPOL_BIND }

def grants : Kernel := ⟨.maps ⟨0x10000, by decide⟩, .binds, .unmaps none⟩

theorem extentAlloc_reports_page :
    HookReports (grants.Creates ∧ grants.Binds bindsNodeTwo)
      ((extentAlloc bindsNodeTwo grants NULL 4096 4096).run emptySpace).1
      (FreshMapping bindsNodeTwo emptySpace
        ((extentAlloc bindsNodeTwo grants NULL 4096 4096).run emptySpace).2
        ((extentAlloc bindsNodeTwo grants NULL 4096 4096).run emptySpace).1 4096) :=
  (extentAlloc_reports_iff (fun _ _ _ _ => rfl)).mpr ⟨_, rfl⟩

def refuses : Kernel := ⟨.fails ENOMEM, .binds, .unmaps none⟩

/-- Out of memory, the hook returns the failure value of `mmap` and not its own. -/
theorem extentAlloc_passes_failure :
    ¬ refuses.Creates ∧
      ((extentAlloc bindsNodeTwo refuses NULL 4096 4096).run emptySpace).1 = MAP_FAILED ∧
      ((extentAlloc bindsNodeTwo refuses NULL 4096 4096).run emptySpace).1 ≠ NULL := by
  refine ⟨?_, rfl, (by decide : MAP_FAILED ≠ NULL)⟩
  rintro ⟨base, mapped⟩
  cases mapped

end Hmsdk.Hmalloc
