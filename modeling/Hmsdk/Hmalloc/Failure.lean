import Hmsdk.Hmalloc.Allocation

/-! # What a failed allocation reports

The wrappers promise the errors of `malloc`, while `mallocx` and `rallocx` have
none of their own: after a failure `errno` is what it was, or what the extent
hook's system calls made of it.
-/

namespace Hmsdk.Hmalloc

/-- A call of the extent hook by jemalloc. -/
structure HookCall where
  kernel : Kernel
  newAddr : Addr
  size : Size
  alignment : Size

def HookCall.run (g : Globals) (space : Space) (call : HookCall) : Space :=
  ((extentAlloc g call.kernel call.newAddr call.size call.alignment).run space).2

/-- How jemalloc serves a request: with a block, or not at all after some calls
    of the hook, perhaps none. -/
inductive Outcome where
  | finds (ptr : Addr) (usable : Size) (memory : ptr ≠ NULL) (errno : Option Errno)
  | fails (calls : List HookCall)

def Outcome.answer (g : Globals) (space : Space) : Outcome → Answer
  | .finds ptr usable _ errno => ⟨some (ptr, usable), errno⟩
  | .fails calls => ⟨none, some (calls.foldl (HookCall.run g) space).errno⟩

/-- The error with which the hook's system calls fail. `mbind` is only called
    when there is a policy. -/
def Kernel.failure (g : Globals) (kernel : Kernel) : Option Errno :=
  match kernel.mmap, kernel.mbind with
  | .fails errno, _ => some errno
  | .maps _, .fails errno => if 0#64 < g.nodemask then some errno else none
  | .maps _, .binds => none

def lastFailure (g : Globals) : List HookCall → Option Errno
  | [] => none
  | call :: later => (lastFailure g later).or (call.kernel.failure g)

/-- A request that a wrapper passes on to jemalloc. -/
inductive JemallocRequest where
  | hmalloc (size : Size)
  | hcalloc (nmemb size : Size)
  | hrealloc (ptr : Addr) (size : Size) (nonzero : size ≠ 0)
  | halignedAlloc (alignment size : Size) (valid : alignment ≠ 0 ∧ isPow2 alignment = true)

def JemallocRequest.call (g : Globals) (answer : Answer) : JemallocRequest → StateM Process Addr
  | .hmalloc size => Hmalloc.hmalloc g answer size
  | .hcalloc nmemb size => Hmalloc.hcalloc g answer nmemb size
  | .hrealloc ptr size _ => Hmalloc.hrealloc g answer ptr size
  | .halignedAlloc alignment size _ => Hmalloc.halignedAlloc g answer alignment size

section

variable {g : Globals} {space : Space} {p : Process}

/-- The hook leaves the error of the system call that failed, or nothing new. -/
theorem hookCall_errno (call : HookCall) :
    (call.run g space).errno = (call.kernel.failure g).getD space.errno := by
  obtain ⟨⟨mapping, binding, unmapping⟩, newAddr, size, alignment⟩ := call
  unfold HookCall.run extentAlloc
  cases mapping with
  | fails errno =>
      rw [hmmap_unmapped rfl]
      rfl
  | maps base =>
      cases binding with
      | binds =>
          rw [hmmap_mapped rfl fun _ => rfl]
          rfl
      | fails errno =>
          by_cases policy : 0#64 < g.nodemask
          · rw [hmmap_unbound rfl policy rfl]
            simp [Kernel.failure, policy]
          · rw [hmmap_mapped rfl fun bound => absurd bound policy]
            simp [Kernel.failure, policy]

theorem hookCalls_errno (calls : List HookCall) :
    (calls.foldl (HookCall.run g) space).errno = (lastFailure g calls).getD space.errno := by
  induction calls generalizing space with
  | nil => rfl
  | cons call later ih =>
      rw [List.foldl_cons, ih, hookCall_errno, lastFailure]
      cases lastFailure g later <;> rfl

/-- What a wrapper makes of the answer: `errno` is what jemalloc left there, and
    the result is its pointer, or null where `ENOMEM` is left over. -/
structure PassesOn (answer : Answer) (p : Process) (result : Addr × Process) : Prop where
  errno : result.2.errno = answer.leaves p.errno
  pointer : result.1 = answer.pointer ∨ result.1 = NULL ∧ answer.leaves p.errno = ENOMEM

theorem JemallocRequest.passesOn (jemalloc : g.useJemalloc = true) (answer : Answer)
    (request : JemallocRequest) : PassesOn answer p ((request.call g answer).run p) := by
  have viaHmalloc (size : Size) : PassesOn answer p ((Hmalloc.hmalloc g answer size).run p) := by
    rw [hmalloc_run jemalloc]
    refine ⟨rfl, ?_⟩
    by_cases full : answer.leaves p.errno = ENOMEM
    · exact .inr ⟨if_pos full, full⟩
    · exact .inl (if_neg full)
  unfold JemallocRequest.call
  cases request with
  | hmalloc size => exact viaHmalloc size
  | hcalloc nmemb size =>
      have product := viaHmalloc (nmemb * size)
      rw [hcalloc_run]
      refine ⟨?_, product.pointer⟩
      dsimp only
      split <;> exact product.errno
  | hrealloc ptr size nonzero =>
      rw [hrealloc_run jemalloc, if_neg nonzero]
      by_cases null : ptr = NULL
      · rw [if_pos null]
        exact viaHmalloc size
      · rw [if_neg null]
        exact ⟨rfl, .inl rfl⟩
  | halignedAlloc alignment size valid =>
      have passes : ¬ (alignment = 0 ∨ (!isPow2 alignment) = true) := by
        rw [valid.2]
        exact fun rejected => rejected.elim valid.1 Bool.noConfusion
      rw [halignedAlloc_run jemalloc, if_neg passes]
      exact ⟨rfl, .inl rfl⟩

/-- A null result comes with `ENOMEM`. -/
def ReportsEnomem (g : Globals) (request : JemallocRequest) (outcome : Outcome) (p : Process)
    (cells : Nat → Option Cell) : Prop :=
  let result := (request.call g (outcome.answer g ⟨p.errno, cells⟩)).run p
  result.1 = NULL → result.2.errno = ENOMEM

/-- A failure is reported with `ENOMEM` exactly when the hook's last failing
    system call said so, or none failed and `errno` said so on entry. -/
theorem reportsEnomem_iff (jemalloc : g.useJemalloc = true) (request : JemallocRequest)
    (outcome : Outcome) (p : Process) (cells : Nat → Option Cell) :
    ReportsEnomem g request outcome p cells ↔
      match outcome with
      | .finds .. => True
      | .fails calls => (lastFailure g calls).getD p.errno = ENOMEM := by
  obtain ⟨errno, pointer⟩ :=
    request.passesOn (p := p) jemalloc (outcome.answer g ⟨p.errno, cells⟩)
  unfold ReportsEnomem
  cases outcome with
  | finds ptr usable memory left =>
      simp only [iff_true]
      intro null
      rw [errno]
      rcases pointer with same | ⟨-, full⟩
      · exact absurd (same.symm.trans null) memory
      · exact full
  | fails calls =>
      have left : (Outcome.answer g ⟨p.errno, cells⟩ (.fails calls)).leaves p.errno =
          (lastFailure g calls).getD p.errno := hookCalls_errno calls
      have null : ((request.call g (Outcome.answer g ⟨p.errno, cells⟩ (.fails calls))).run p).1 =
          NULL := pointer.elim id And.left
      simp only [null, errno, left, true_imp_iff]

end

/-- Out of address space, after a failing `mmap`. -/
theorem reportsEnomem_refused :
    ReportsEnomem bindsNodeTwo (.hmalloc 4096) (.fails [⟨refuses, NULL, 4096, 4096⟩]) {}
      fun _ => none :=
  (reportsEnomem_iff rfl (.hmalloc 4096) (.fails [⟨refuses, NULL, 4096, 4096⟩]) {}
    fun _ => none).mpr rfl

/-- A size that jemalloc rejects at once leaves `errno` at zero, and a failing
    `mbind` leaves its own error there. -/
theorem reportsEnomem_size :
    let unbinds : Kernel := ⟨.maps ⟨0x10000, by decide⟩, .fails EINVAL, .unmaps none⟩
    let huge : Size := BitVec.allOnes 64
    ¬ ReportsEnomem bindsNodeTwo (.hmalloc huge) (.fails []) {} (fun _ => none) ∧
      ¬ ReportsEnomem bindsNodeTwo (.hcalloc 1 huge) (.fails []) {} (fun _ => none) ∧
      ¬ ReportsEnomem bindsNodeTwo (.hrealloc 0x20000 huge (by decide)) (.fails []) {}
        (fun _ => none) ∧
      ¬ ReportsEnomem bindsNodeTwo (.halignedAlloc 64 4096 (by decide))
        (.fails [⟨unbinds, NULL, 4096, 64⟩]) {} (fun _ => none) := by
  intro unbinds huge
  refine ⟨?_, ?_, ?_, ?_⟩ <;>
    · intro reports
      cases reports rfl

end Hmsdk.Hmalloc
