import Hmsdk.Hmalloc.Failure

/-! # Aligned memory

The extent hook is asked for memory at an address or on a boundary and passes
neither on, so whether it honours them is up to `mmap`. `hposix_memalign` checks
the alignment itself and returns its error instead of setting `errno`; the code
for a failed `mallocx` it takes from `errno`, where it stays whatever it was
unless one of the hook's system calls failed.
-/

namespace Hmsdk.Hmalloc

def IsPowerOfTwo (alignment : Size) : Prop := alignment.toNat.isPowerOfTwo

theorem isPow2_iff {alignment : Size} (nonzero : alignment ≠ 0) :
    isPow2 alignment = true ↔ IsPowerOfTwo alignment := by
  have positive : alignment.toNat ≠ 0 := fun zero => nonzero (BitVec.eq_of_toNat_eq zero)
  have less : (alignment - 1).toNat = alignment.toNat - 1 := by bv_omega
  rw [isPow2, beq_iff_eq, IsPowerOfTwo, ← Nat.and_sub_one_eq_zero_iff_isPowerOfTwo positive,
    ← less, ← BitVec.toNat_and]
  exact ⟨fun zero => congrArg BitVec.toNat zero, fun zero => BitVec.eq_of_toNat_eq zero⟩

theorem rejected_iff (alignment : Size) :
    (alignment = 0 ∨ (!isPow2 alignment) = true) ↔ ¬ IsPowerOfTwo alignment := by
  by_cases zero : alignment = 0
  · subst zero
    have notPower : ¬ IsPowerOfTwo 0 := by
      rintro ⟨k, power⟩
      exact absurd power.symm (Nat.two_pow_pos k).ne'
    exact iff_of_true (.inl rfl) notPower
  · rw [← isPow2_iff zero, Bool.not_eq_true', or_iff_right zero, Bool.not_eq_true]

/-- How jemalloc uses the memory a hook hands out: on the boundary it asked for,
    and at the address if it named one. -/
structure HonoursRequest (newAddr : Addr) (alignment : Size) (result : Addr) : Prop where
  boundary : result ≠ NULL → alignment.toNat ∣ result.toNat
  address : result ≠ NULL → newAddr ≠ NULL → result = newAddr

theorem page_dvd {alignment : Size} (power : IsPowerOfTwo alignment)
    (page : PAGE_SIZE ≤ alignment.toNat) : PAGE_SIZE ∣ alignment.toNat := by
  obtain ⟨k, power⟩ := power
  have above : 2 ^ 12 ≤ 2 ^ k := by
    rw [← power]
    exact page
  rw [power]
  exact Nat.pow_dvd_pow 2 ((Nat.pow_le_pow_iff_right (by decide)).mp above)

/-- The failure value of `mmap` is on no boundary. -/
theorem mapFailed_boundary {alignment : Size} (power : IsPowerOfTwo alignment)
    (page : PAGE_SIZE ≤ alignment.toNat) : ¬ alignment.toNat ∣ MAP_FAILED.toNat := by
  intro boundary
  have pages : PAGE_SIZE ∣ MAP_FAILED.toNat := (page_dvd power page).trans boundary
  exact absurd pages (by decide)

/-- The hook honours a request exactly when `mmap` succeeds and, where its
    mapping is handed out, happened to choose a place that the request allows. -/
theorem extentAlloc_honours_iff (g : Globals) (kernel : Kernel) (newAddr : Addr)
    {size alignment : Size} (s : Space) (power : IsPowerOfTwo alignment)
    (page : PAGE_SIZE ≤ alignment.toNat) :
    HonoursRequest newAddr alignment
        ((extentAlloc g kernel newAddr size alignment).run s).1 ↔
      ∃ base, kernel.mmap = .maps base ∧ (kernel.Binds g → base.addr ≠ NULL →
        alignment.toNat ∣ base.addr.toNat ∧ (newAddr ≠ NULL → base.addr = newAddr)) := by
  unfold extentAlloc
  cases mapped : kernel.mmap with
  | fails errno =>
      rw [hmmap_unmapped mapped]
      constructor
      · intro honours
        have notNull : MAP_FAILED ≠ NULL := by decide
        exact absurd (honours.boundary notNull) (mapFailed_boundary power page)
      · rintro ⟨base, other, -⟩
        cases other
  | maps base =>
      by_cases bound : kernel.Binds g
      · rw [hmmap_mapped mapped bound]
        constructor
        · intro honours
          exact ⟨base, rfl, fun _ notNull =>
            ⟨honours.boundary notNull, honours.address notNull⟩⟩
        · rintro ⟨base, same, allowed⟩
          cases same
          exact ⟨fun notNull => (allowed bound notNull).1, fun notNull => (allowed bound notNull).2⟩
      · obtain ⟨policy, errno, failed⟩ := kernel.not_binds bound
        rw [hmmap_unbound mapped policy failed]
        constructor
        · intro _
          exact ⟨base, rfl, fun binds => absurd binds bound⟩
        · intro _
          exact ⟨fun notNull => absurd rfl notNull, fun notNull => absurd rfl notNull⟩

theorem extentAlloc_honours_page :
    HonoursRequest NULL 4096 ((extentAlloc bindsNodeTwo grants NULL 4096 4096).run emptySpace).1 :=
  (extentAlloc_honours_iff bindsNodeTwo grants NULL emptySpace ⟨12, rfl⟩ le_rfl).mpr
    ⟨_, rfl, fun _ _ => ⟨⟨16, rfl⟩, fun named => absurd rfl named⟩⟩

/-- A page that is on no larger boundary, for a request of 2 MiB on a boundary
    of 2 MiB, and one that is not where the request wants it. -/
theorem extentAlloc_misplaced :
    ¬ HonoursRequest NULL 0x200000
        ((extentAlloc bindsNodeTwo grants NULL 0x200000 0x200000).run emptySpace).1 ∧
      ¬ HonoursRequest 0x20000 4096
        ((extentAlloc bindsNodeTwo grants 0x20000 4096 4096).run emptySpace).1 := by
  have result : ∀ newAddr size alignment,
      ((extentAlloc bindsNodeTwo grants newAddr size alignment).run emptySpace).1 = 0x10000 := by
    intro newAddr size alignment
    rfl
  rw [result, result]
  constructor
  · intro honours
    exact absurd (honours.boundary (by decide)) (by decide)
  · intro honours
    exact absurd (honours.address (by decide) (by decide)) (by decide)

/-- What the manual calls a wrong alignment: no power of two, or no multiple of
    the size of a pointer. -/
def BadAlignment (alignment : Size) : Prop := ¬ IsPowerOfTwo alignment ∨ alignment.toNat % 8 ≠ 0

/-- Zero comes with a block, any other code without one, and the code is one of
    the two that the manual lists. -/
structure MemalignAgrees (alignment : Size) (result : Errno × Addr) : Prop where
  zero : result.1 = 0 ↔ result.2 ≠ NULL
  code : result.1 ≠ 0 →
    result.2 = NULL ∧ (result.1 = EINVAL ∧ BadAlignment alignment ∨ result.1 = ENOMEM)

/-- The codes that a failed call may return. -/
def MemalignCode (alignment : Size) (code : Errno) : Prop :=
  code = ENOMEM ∨ code = EINVAL ∧ BadAlignment alignment

theorem memalignAgrees_null {alignment : Size} {code : Errno} :
    MemalignAgrees alignment (code, NULL) ↔ MemalignCode alignment code := by
  have values : ENOMEM ≠ 0 ∧ EINVAL ≠ 0 := by decide
  unfold MemalignCode
  constructor
  · rintro ⟨zero, error⟩
    have nonzero : code ≠ 0 := fun none => (zero.mp none) rfl
    exact (error nonzero).2.symm
  · intro listed
    have nonzero : code ≠ 0 := by
      rcases listed with rfl | ⟨rfl, -⟩
      · exact values.1
      · exact values.2
    exact ⟨by simp [nonzero], fun _ => ⟨rfl, listed.symm⟩⟩

/-- Code and pointer agree exactly when the alignment is rejected, a block is
    found, or what is left in `errno` by the last failing system call of the
    hook, or from before, is one of the documented codes. -/
theorem hposixMemalign_agrees_iff {g : Globals} (jemalloc : g.useJemalloc = true)
    (outcome : Outcome) (memptr : Addr) (alignment size : Size) (p : Process)
    (cells : Nat → Option Cell) :
    MemalignAgrees alignment
        ((hposixMemalign g (outcome.answer g ⟨p.errno, cells⟩) memptr alignment size).run p).1 ↔
      match outcome with
      | .finds .. => True
      | .fails calls => ¬ IsPowerOfTwo alignment ∨
          MemalignCode alignment ((lastFailure g calls).getD p.errno) := by
  rw [hposixMemalign_run jemalloc]
  by_cases power : IsPowerOfTwo alignment
  · rw [if_neg (mt (rejected_iff alignment).mp (not_not.mpr power))]
    cases outcome with
    | finds ptr usable memory left =>
        have found : (Outcome.answer g ⟨p.errno, cells⟩ (.finds ptr usable memory left)).pointer =
            ptr := rfl
        simp only [found, if_neg memory, iff_true]
        exact ⟨by simpa using memory, fun nonzero => absurd rfl nonzero⟩
    | fails calls =>
        have left : (Outcome.answer g ⟨p.errno, cells⟩ (.fails calls)).leaves p.errno =
            (lastFailure g calls).getD p.errno := hookCalls_errno calls
        have null : (Outcome.answer g ⟨p.errno, cells⟩ (.fails calls)).pointer = NULL := rfl
        simp only [null, if_true, left, power, not_true_eq_false, false_or]
        exact memalignAgrees_null
  · have rejected : MemalignAgrees alignment (EINVAL, NULL) :=
      memalignAgrees_null.mpr (.inr ⟨rfl, .inl power⟩)
    rw [if_pos ((rejected_iff alignment).mpr power)]
    cases outcome with
    | finds ptr usable memory left => simpa using rejected
    | fails calls => simpa [power] using rejected

/-- Out of address space, after a failing `mmap`. -/
theorem hposixMemalign_agrees_refused :
    let outcome : Outcome := .fails [⟨refuses, NULL, 4096, 4096⟩]
    MemalignAgrees 64
      ((hposixMemalign bindsNodeTwo (outcome.answer bindsNodeTwo ⟨0, fun _ => none⟩) NULL 64
        4096).run {}).1 :=
  (hposixMemalign_agrees_iff rfl (.fails [⟨refuses, NULL, 4096, 4096⟩]) NULL 64 4096 {}
    fun _ => none).mpr (.inr (.inl rfl))

/-- A size that jemalloc rejects at once: the call returns zero and no block. -/
theorem hposixMemalign_zero_without_block :
    let outcome : Outcome := .fails []
    let result := ((hposixMemalign bindsNodeTwo
      (outcome.answer bindsNodeTwo ⟨0, fun _ => none⟩) NULL 64 (BitVec.allOnes 64)).run {}).1
    result = (0, NULL) ∧ ¬ MemalignAgrees 64 result := by
  intro outcome result
  exact ⟨rfl, fun agrees => agrees.zero.mp rfl rfl⟩

/-- The two wrappers reject what the manual says each of them rejects, before
    they ask jemalloc for anything. -/
structure ValidatesAlignment (g : Globals) (answer : Answer) (memptr : Addr)
    (alignment size : Size) (p : Process) : Prop where
  posixMemalign :
    (((hposixMemalign g answer memptr alignment size).run p).1.1 = EINVAL ∧
      ((hposixMemalign g answer memptr alignment size).run p).2.calls = p.calls) ↔
    BadAlignment alignment
  alignedAlloc :
    (((halignedAlloc g answer alignment size).run p).1 = NULL ∧
      ((halignedAlloc g answer alignment size).run p).2.errno = EINVAL ∧
      ((halignedAlloc g answer alignment size).run p).2.calls = p.calls) ↔
    ¬ IsPowerOfTwo alignment

section

variable {g : Globals} {answer : Answer} {memptr : Addr} {alignment size : Size} {p : Process}

theorem hposixMemalign_rejects_iff (jemalloc : g.useJemalloc = true) :
    (((hposixMemalign g answer memptr alignment size).run p).1.1 = EINVAL ∧
      ((hposixMemalign g answer memptr alignment size).run p).2.calls = p.calls) ↔
    ¬ IsPowerOfTwo alignment := by
  rw [hposixMemalign_run jemalloc, ← rejected_iff]
  by_cases rejected : alignment = 0 ∨ !isPow2 alignment
  · rw [if_pos rejected, iff_true_right rejected]
    exact ⟨rfl, rfl⟩
  · rw [if_neg rejected, iff_false_right rejected]
    rintro ⟨-, silent⟩
    split at silent
    · exact absurd (List.append_right_eq_self.mp silent) (List.cons_ne_nil _ _)
    · exact absurd (List.append_right_eq_self.mp silent) (List.cons_ne_nil _ _)

theorem halignedAlloc_rejects_iff (jemalloc : g.useJemalloc = true) :
    (((halignedAlloc g answer alignment size).run p).1 = NULL ∧
      ((halignedAlloc g answer alignment size).run p).2.errno = EINVAL ∧
      ((halignedAlloc g answer alignment size).run p).2.calls = p.calls) ↔
    ¬ IsPowerOfTwo alignment := by
  rw [halignedAlloc_run jemalloc, ← rejected_iff]
  by_cases rejected : alignment = 0 ∨ !isPow2 alignment
  · rw [if_pos rejected, iff_true_right rejected]
    exact ⟨rfl, rfl, rfl⟩
  · rw [if_neg rejected, iff_false_right rejected]
    rintro ⟨-, -, silent⟩
    exact absurd (List.append_right_eq_self.mp silent) (List.cons_ne_nil _ _)

/-- The powers of two that are smaller than a pointer. -/
def Small (alignment : Size) : Prop := alignment = 1 ∨ alignment = 2 ∨ alignment = 4

theorem small_iff (power : IsPowerOfTwo alignment) : alignment.toNat % 8 ≠ 0 ↔ Small alignment := by
  have values : Small alignment ↔
      alignment.toNat = 1 ∨ alignment.toNat = 2 ∨ alignment.toNat = 4 := by
    unfold Small
    bv_omega
  rw [values]
  obtain ⟨k, exponent⟩ := power
  rcases k with _ | _ | _ | k
  · omega
  · omega
  · omega
  · rw [Nat.pow_add] at exponent
    omega

theorem not_small_of_rejected (rejected : ¬ IsPowerOfTwo alignment) : ¬ Small alignment := by
  rintro (rfl | rfl | rfl)
  · exact rejected ⟨0, rfl⟩
  · exact rejected ⟨1, rfl⟩
  · exact rejected ⟨2, rfl⟩

end

/-- One, two and four are powers of two that `hposix_memalign` takes, though they
    are no multiples of the size of a pointer. Every other alignment is treated
    as the manual says. -/
theorem validatesAlignment_iff {g : Globals} (jemalloc : g.useJemalloc = true) (answer : Answer)
    (memptr : Addr) (alignment size : Size) (p : Process) :
    ValidatesAlignment g answer memptr alignment size p ↔ ¬ Small alignment := by
  have documented : ValidatesAlignment g answer memptr alignment size p ↔
      (¬ IsPowerOfTwo alignment ↔ BadAlignment alignment) := by
    rw [← @hposixMemalign_rejects_iff g answer memptr alignment size p jemalloc]
    exact ⟨fun validates => validates.posixMemalign,
      fun posix => ⟨posix, halignedAlloc_rejects_iff jemalloc⟩⟩
  rw [documented, BadAlignment]
  by_cases power : IsPowerOfTwo alignment
  · rw [small_iff power]
    simp [power]
  · simp [power, not_small_of_rejected power]

theorem validatesAlignment_page :
    ValidatesAlignment bindsNodeTwo ⟨none, some ENOMEM⟩ NULL 4096 64 {} := by
  have large : ¬ Small 4096 := by
    rintro (one | two | four) <;> contradiction
  exact (validatesAlignment_iff rfl ⟨none, some ENOMEM⟩ NULL 4096 64 {}).mpr large

/-- A block on a boundary of four bytes is handed out. -/
theorem hposixMemalign_takes_four :
    ¬ ValidatesAlignment bindsNodeTwo ⟨some (0x10004, 64), none⟩ NULL 4 64 {} := by
  intro validates
  have rejected := validates.posixMemalign.mpr (.inr (by decide))
  exact absurd rejected.1 (by decide)

/-- `errno` is what it was on entry. -/
def KeepsErrno (g : Globals) (answer : Answer) (memptr : Addr) (alignment size : Size)
    (p : Process) : Prop :=
  ((hposixMemalign g answer memptr alignment size).run p).2.errno = p.errno

/-- `errno` is put back after a failure only. A block may have been found by a
    call that set it on the way. -/
theorem keepsErrno_iff {g : Globals} (jemalloc : g.useJemalloc = true) (answer : Answer)
    (memptr : Addr) (alignment size : Size) (p : Process) :
    KeepsErrno g answer memptr alignment size p ↔
      ¬ IsPowerOfTwo alignment ∨ answer.pointer = NULL ∨ answer.leaves p.errno = p.errno := by
  rw [KeepsErrno, hposixMemalign_run jemalloc, ← rejected_iff]
  by_cases rejected : alignment = 0 ∨ !isPow2 alignment
  · rw [if_pos rejected]
    exact iff_of_true rfl (.inl rejected)
  · rw [if_neg rejected, or_iff_right rejected]
    by_cases null : answer.pointer = NULL
    · simp [null]
    · simp only [null, false_or]
      rfl

theorem keepsErrno_untouched :
    KeepsErrno bindsNodeTwo ⟨some (0x10000, 64), none⟩ NULL 64 64 { errno := ENOMEM } :=
  (keepsErrno_iff rfl ⟨some (0x10000, 64), none⟩ NULL 64 64 { errno := ENOMEM }).mpr
    (.inr (.inr rfl))

/-- `mmap` refuses to extend the arena, and then a block is found in it. -/
theorem hposixMemalign_leaves_errno :
    let left := (HookCall.run bindsNodeTwo ⟨0, fun _ => none⟩ ⟨refuses, NULL, 4096, 4096⟩).errno
    ¬ KeepsErrno bindsNodeTwo ⟨some (0x10000, 64), some left⟩ NULL 64 64 {} := by
  intro left keeps
  have changed : ENOMEM ≠ 0 := by decide
  exact changed keeps

end Hmsdk.Hmalloc
