import Hmsdk.Hmalloc.Mapping

/-! # The allocation functions

The wrappers of `hmalloc.c` over jemalloc and over the C library. How an
allocator answers a request is an input: the block it found, if any, and what
the attempt left in `errno`. The wrappers differ in what they make of both.
-/

namespace Hmsdk.Hmalloc

open Lib.Region

/-- The blocks an allocator has given out, with their usable sizes. -/
abbrev Heap := Addr → Option Size

/-- A call into jemalloc. All calls bypass the thread cache; a call that asks
    for no alignment has alignment one. -/
inductive JemallocCall where
  | mallocx (size alignment : Size) (arena : Nat)
  | rallocx (ptr : Addr) (size : Size) (arena : Nat)
  | dallocx (ptr : Addr) (arena : Nat)
  | sallocx (ptr : Addr)
  deriving Repr, DecidableEq

/-- A call into the allocator of the C library. -/
inductive LibcCall where
  | malloc (size : Size)
  | realloc (ptr : Addr) (size : Size)
  | free (ptr : Addr)
  | alignedAlloc (alignment size : Size)
  | posixMemalign (alignment size : Size)
  | mallocUsableSize (ptr : Addr)
  deriving Repr, DecidableEq

/-- The process as the wrappers see it. `calls` lists what jemalloc was asked,
    `libcCalls` what the C library was. -/
structure Process where
  errno : Errno := 0
  jemalloc : Heap := fun _ => none
  libc : Heap := fun _ => none
  memory : Nat → UInt8 := fun _ => 0
  calls : List JemallocCall := []
  libcCalls : List LibcCall := []

/-- An allocator's answer to one request: the block found, and the value the
    attempt left in `errno` where it touched it. -/
structure Answer where
  block : Option (Addr × Size)
  errno : Option Errno := none
  deriving Repr, DecidableEq

namespace Answer

def pointer (answer : Answer) : Addr :=
  match answer.block with
  | none => NULL
  | some (ptr, _) => ptr

def place (answer : Answer) (heap : Heap) : Heap :=
  match answer.block with
  | none => heap
  | some (ptr, usable) => Function.update heap ptr (some usable)

def move (answer : Answer) (old : Addr) (heap : Heap) : Heap :=
  match answer.block with
  | none => heap
  | some (ptr, usable) => Function.update (Function.update heap old none) ptr (some usable)

/-- Memory after a block was moved: the contents go along. -/
def copy (answer : Answer) (old : Addr) (heap : Heap) (memory : Nat → UInt8) : Nat → UInt8 :=
  match answer.block, heap old with
  | some (ptr, usable), some oldUsable =>
      overlay ptr.toNat (min usable.toNat oldUsable.toNat) (fun i => memory (old.toNat + i)) memory
  | _, _ => memory

def leaves (answer : Answer) (errno : Errno) : Errno := answer.errno.getD errno

end Answer

def mallocx (answer : Answer) (size alignment : Size) (arena : Nat) : StateM Process Addr :=
  fun p => (answer.pointer, { p with
    errno := answer.leaves p.errno
    jemalloc := answer.place p.jemalloc
    calls := p.calls ++ [.mallocx size alignment arena] })

def rallocx (answer : Answer) (ptr : Addr) (size : Size) (arena : Nat) : StateM Process Addr :=
  fun p => (answer.pointer, { p with
    errno := answer.leaves p.errno
    jemalloc := answer.move ptr p.jemalloc
    memory := answer.copy ptr p.jemalloc p.memory
    calls := p.calls ++ [.rallocx ptr size arena] })

def dallocx (ptr : Addr) (arena : Nat) : StateM Process Unit :=
  fun p => ((), { p with
    jemalloc := Function.update p.jemalloc ptr none
    calls := p.calls ++ [.dallocx ptr arena] })

def sallocx (ptr : Addr) : StateM Process Size :=
  fun p => ((p.jemalloc ptr).getD 0, { p with calls := p.calls ++ [.sallocx ptr] })

def malloc (answer : Answer) (size : Size) : StateM Process Addr :=
  fun p => (answer.pointer, { p with
    errno := answer.leaves p.errno
    libc := answer.place p.libc
    libcCalls := p.libcCalls ++ [.malloc size] })

def free (ptr : Addr) : StateM Process Unit :=
  modify fun p => { p with
    libc := Function.update p.libc ptr none
    libcCalls := p.libcCalls ++ [.free ptr] }

/-- `realloc` of a block to size zero frees it. -/
def realloc (answer : Answer) (ptr : Addr) (size : Size) : StateM Process Addr :=
  fun p =>
    let asked := p.libcCalls ++ [.realloc ptr size]
    if ptr ≠ NULL ∧ size = 0 then
      (NULL, { p with libc := Function.update p.libc ptr none, libcCalls := asked })
    else (answer.pointer, { p with
      errno := answer.leaves p.errno
      libc := answer.move ptr p.libc
      memory := answer.copy ptr p.libc p.memory
      libcCalls := asked })

def alignedAlloc (answer : Answer) (alignment size : Size) : StateM Process Addr :=
  fun p => (answer.pointer, { p with
    errno := answer.leaves p.errno
    libc := answer.place p.libc
    libcCalls := p.libcCalls ++ [.alignedAlloc alignment size] })

/-- `posix_memalign` with the value that `*memptr` holds before; the result is
    the returned code with the value that `*memptr` holds after. -/
def posixMemalign (answer : Answer) (memptr : Addr) (alignment size : Size) :
    StateM Process (Errno × Addr) :=
  fun p =>
    let asked := p.libcCalls ++ [.posixMemalign alignment size]
    match answer.block with
    | none => ((answer.errno.getD ENOMEM, memptr), { p with libcCalls := asked })
    | some (ptr, _) =>
        ((0, ptr), { p with libc := answer.place p.libc, libcCalls := asked })

def mallocUsableSize (ptr : Addr) : StateM Process Size :=
  fun p => ((p.libc ptr).getD 0, { p with
    libcCalls := p.libcCalls ++ [.mallocUsableSize ptr] })

def memset (ptr : Addr) (byte : UInt8) (n : Size) : StateM Process Unit :=
  modify fun p => { p with memory := overlay ptr.toNat n.toNat (fun _ => byte) p.memory }

def isPow2 (val : Size) : Bool := val &&& (val - 1) == 0

def hmalloc (g : Globals) (answer : Answer) (size : Size) : StateM Process Addr := do
  if !g.useJemalloc then
    return ← malloc answer size
  let ptr ← mallocx answer size 1 g.arenaIndex
  if (← get).errno = ENOMEM then
    return NULL
  return ptr

def hfree (g : Globals) (ptr : Addr) : StateM Process Unit := do
  if ptr = NULL then
    return
  if !g.useJemalloc then
    free ptr
    return
  dallocx ptr g.arenaIndex

def hcalloc (g : Globals) (answer : Answer) (nmemb size : Size) : StateM Process Addr := do
  let ptr ← hmalloc g answer (nmemb * size)
  if ptr ≠ NULL then
    memset ptr 0 (nmemb * size)
  return ptr

def hrealloc (g : Globals) (answer : Answer) (ptr : Addr) (size : Size) :
    StateM Process Addr := do
  if !g.useJemalloc then
    return ← realloc answer ptr size
  if ptr = NULL then
    return ← hmalloc g answer size
  if size = 0 then
    hfree g ptr
    return NULL
  rallocx answer ptr size g.arenaIndex

def halignedAlloc (g : Globals) (answer : Answer) (alignment size : Size) :
    StateM Process Addr := do
  if !g.useJemalloc then
    return ← alignedAlloc answer alignment size
  if alignment = 0 ∨ !isPow2 alignment then
    modify fun p => { p with errno := EINVAL }
    return NULL
  mallocx answer size alignment g.arenaIndex

/-- The returned code, and the value that `*memptr` holds afterwards. -/
def hposixMemalign (g : Globals) (answer : Answer) (memptr : Addr) (alignment size : Size) :
    StateM Process (Errno × Addr) := do
  if !g.useJemalloc then
    return ← posixMemalign answer memptr alignment size
  let oldErrno := (← get).errno
  if alignment = 0 ∨ !isPow2 alignment then
    return (EINVAL, NULL)
  let ptr ← mallocx answer size alignment g.arenaIndex
  if ptr = NULL then
    let ret := (← get).errno
    modify fun p => { p with errno := oldErrno }
    return (ret, ptr)
  return (0, ptr)

def hmallocUsableSize (g : Globals) (ptr : Addr) : StateM Process Size := do
  if !g.useJemalloc then
    return ← mallocUsableSize ptr
  if ptr = NULL then
    return 0
  sallocx ptr

section Jemalloc

variable {g : Globals} {answer : Answer} {p : Process} {ptr memptr : Addr}
  {size nmemb alignment : Size} {arena : Nat}

@[simp] theorem mallocx_run : (mallocx answer size alignment arena).run p =
    pure (answer.pointer, { p with
      errno := answer.leaves p.errno
      jemalloc := answer.place p.jemalloc
      calls := p.calls ++ [.mallocx size alignment arena] }) := rfl

@[simp] theorem rallocx_run : (rallocx answer ptr size arena).run p =
    pure (answer.pointer, { p with
      errno := answer.leaves p.errno
      jemalloc := answer.move ptr p.jemalloc
      memory := answer.copy ptr p.jemalloc p.memory
      calls := p.calls ++ [.rallocx ptr size arena] }) := rfl

@[simp] theorem dallocx_run : (dallocx ptr arena).run p =
    pure ((), { p with
      jemalloc := Function.update p.jemalloc ptr none
      calls := p.calls ++ [.dallocx ptr arena] }) := rfl

/-- `hmalloc` looks at `errno` and not at the pointer. -/
theorem hmalloc_run (jemalloc : g.useJemalloc = true) :
    (hmalloc g answer size).run p =
      (if answer.leaves p.errno = ENOMEM then NULL else answer.pointer, { p with
        errno := answer.leaves p.errno
        jemalloc := answer.place p.jemalloc
        calls := p.calls ++ [.mallocx size 1 g.arenaIndex] }) := by
  by_cases full : answer.leaves p.errno = ENOMEM <;>
    simp [hmalloc, jemalloc, StateT.run_bind, full] <;> rfl

theorem hfree_run (jemalloc : g.useJemalloc = true) :
    (hfree g ptr).run p =
      ((), if ptr = NULL then p else { p with
        jemalloc := Function.update p.jemalloc ptr none
        calls := p.calls ++ [.dallocx ptr g.arenaIndex] }) := by
  by_cases null : ptr = NULL <;> simp [hfree, jemalloc, null] <;> rfl

/-- Clearing the block touches neither heap. -/
theorem hcalloc_run :
    (hcalloc g answer nmemb size).run p =
      let got := (hmalloc g answer (nmemb * size)).run p
      (got.1, if got.1 = NULL then got.2 else { got.2 with
        memory := overlay got.1.toNat (nmemb * size).toNat (fun _ => 0) got.2.memory }) := by
  obtain ⟨⟨ptr, after⟩, called⟩ : ∃ outcome, (hmalloc g answer (nmemb * size)).run p = outcome :=
    ⟨_, rfl⟩
  simp only [hcalloc, StateT.run_bind, called]
  by_cases null : ptr = NULL
  · simp only [null]
    rfl
  · change (if ptr ≠ NULL then _ else _ : StateM Process Addr).run after = _
    rw [if_pos null, if_neg null]
    rfl

theorem hrealloc_run (jemalloc : g.useJemalloc = true) :
    (hrealloc g answer ptr size).run p =
      if ptr = NULL then (hmalloc g answer size).run p
      else if size = 0 then (NULL, ((hfree g ptr).run p).2)
      else (rallocx answer ptr size g.arenaIndex).run p := by
  simp only [hrealloc, jemalloc, Bool.not_true, Bool.false_eq_true, if_false]
  by_cases null : ptr = NULL
  · simp only [if_pos null]
  · by_cases zero : size = 0
    · simp only [if_neg null, if_pos zero]
      rfl
    · simp only [if_neg null, if_neg zero]

theorem halignedAlloc_run (jemalloc : g.useJemalloc = true) :
    (halignedAlloc g answer alignment size).run p =
      if alignment = 0 ∨ !isPow2 alignment then (NULL, { p with errno := EINVAL })
      else (mallocx answer size alignment g.arenaIndex).run p := by
  simp only [halignedAlloc, jemalloc, Bool.not_true, Bool.false_eq_true, if_false]
  by_cases invalid : alignment = 0 ∨ !isPow2 alignment
  · simp only [if_pos invalid]
    rfl
  · simp only [if_neg invalid]

/-- `hposix_memalign` puts `errno` back only where the allocation failed. -/
theorem hposixMemalign_run (jemalloc : g.useJemalloc = true) :
    (hposixMemalign g answer memptr alignment size).run p =
      if alignment = 0 ∨ !isPow2 alignment then ((EINVAL, NULL), p)
      else
        let after := ((mallocx answer size alignment g.arenaIndex).run p).2
        if answer.pointer = NULL then
          ((answer.leaves p.errno, NULL), { after with errno := p.errno })
        else ((0, answer.pointer), after) := by
  simp only [hposixMemalign, jemalloc, Bool.not_true, Bool.false_eq_true, if_false]
  by_cases invalid : alignment = 0 ∨ !isPow2 alignment
  · simp only [if_pos invalid]
    rfl
  · simp only [if_neg invalid, StateT.run_bind, StateT.run_get, mallocx_run, pure_bind]
    by_cases null : answer.pointer = NULL
    · simp only [null]
      rfl
    · simp only [if_neg null]
      rfl

end Jemalloc

end Hmsdk.Hmalloc
