import Hmsdk.Hmalloc.Ownership
import Hmsdk.Hmalloc.Calloc

/-! # The wrappers in either mode

Each wrapper hands its request to jemalloc or to the C library. What a call does
is said here for both at once: to the heap of the allocator in charge, to the
other heap, to the memory, and what it hands to the caller.
-/

namespace Hmsdk.Hmalloc

open Lib.Region

/-- The heap of the allocator that is not in charge. -/
def Process.idle (g : Globals) (p : Process) : Heap :=
  if g.useJemalloc then p.libc else p.jemalloc

namespace Request

/-- Only jemalloc mode turns a bad boundary down before the allocator sees it. -/
def effectIn (g : Globals) (request : Request) : Effect :=
  if g.useJemalloc then request.effect
  else
    match request with
    | .halignedAlloc _ _ | .hposixMemalign _ _ => .take
    | request => request.effect

/-- The memory after a call that handed over `result`. -/
def fills (answer : Answer) (result : Addr) (heap : Heap) (memory : Nat → UInt8) :
    Request → Nat → UInt8
  | .hcalloc nmemb size =>
      if result = NULL then memory
      else overlay result.toNat (nmemb * size).toNat (fun _ => 0) memory
  | .hrealloc ptr size =>
      if ptr = NULL ∨ size = 0 then memory else answer.copy ptr heap memory
  | _ => memory

/-- A call as a whole. -/
structure Performed (g : Globals) (answer : Answer) (p : Process) (request : Request)
    (outcome : Addr × Process) : Prop where
  heap : outcome.2.heap g = (request.effectIn g).heap answer (p.heap g)
  idle : outcome.2.idle g = p.idle g
  memory : outcome.2.memory = request.fills answer outcome.1 (p.heap g) p.memory
  result : outcome.1 = (request.effectIn g).result answer ∨
    outcome.1 = NULL ∧ request.effectIn g = .take

end Request

section

variable {g : Globals} {answer : Answer} {p : Process} {ptr memptr : Addr}
  {size nmemb alignment : Size}

theorem hmalloc_frame :
    ((hmalloc g answer size).run p).2.idle g = p.idle g ∧
      ((hmalloc g answer size).run p).2.memory = p.memory := by
  by_cases jemalloc : g.useJemalloc = true
  · rw [hmalloc_run jemalloc]
    simp only [Process.idle, jemalloc, if_true, and_self]
  · simp only [hmalloc, jemalloc, Process.idle]
    exact ⟨rfl, rfl⟩

/-- Clearing the block writes to memory only. -/
theorem hcalloc_frame :
    ((hcalloc g answer nmemb size).run p).2.idle g = p.idle g ∧
      ((hcalloc g answer nmemb size).run p).2.memory =
        (Request.hcalloc nmemb size).fills answer ((hcalloc g answer nmemb size).run p).1
          (p.heap g) p.memory := by
  obtain ⟨idle, memory⟩ : ((hmalloc g answer (nmemb * size)).run p).2.idle g = p.idle g ∧
      ((hmalloc g answer (nmemb * size)).run p).2.memory = p.memory := hmalloc_frame
  simp only [hcalloc_run, Request.fills]
  split
  · exact ⟨idle, memory⟩
  · exact ⟨idle, by simp only [memory]⟩

theorem hmalloc_off (off : g.useJemalloc = false) :
    (hmalloc g answer size).run p =
      (answer.pointer, { p with
        errno := answer.leaves p.errno
        libc := answer.place p.libc
        libcCalls := p.libcCalls ++ [.malloc size] }) := by
  simp only [hmalloc, off]
  rfl

theorem hfree_off (off : g.useJemalloc = false) :
    (hfree g ptr).run p =
      ((), if ptr = NULL then p else { p with
        libc := Function.update p.libc ptr none
        libcCalls := p.libcCalls ++ [.free ptr] }) := by
  by_cases null : ptr = NULL
  · simp only [hfree, if_pos null]
    rfl
  · simp only [hfree, if_neg null, off]
    rfl

theorem hrealloc_off (off : g.useJemalloc = false) :
    (hrealloc g answer ptr size).run p =
      if ptr ≠ NULL ∧ size = 0 then
        (NULL, { p with
          libc := Function.update p.libc ptr none
          libcCalls := p.libcCalls ++ [.realloc ptr size] })
      else (answer.pointer, { p with
        errno := answer.leaves p.errno
        libc := answer.move ptr p.libc
        memory := answer.copy ptr p.libc p.memory
        libcCalls := p.libcCalls ++ [.realloc ptr size] }) := by
  simp only [hrealloc, off]
  rfl

theorem halignedAlloc_off (off : g.useJemalloc = false) :
    (halignedAlloc g answer alignment size).run p =
      (answer.pointer, { p with
        errno := answer.leaves p.errno
        libc := answer.place p.libc
        libcCalls := p.libcCalls ++ [.alignedAlloc alignment size] }) := by
  simp only [halignedAlloc, off]
  rfl

theorem hposixMemalign_off (off : g.useJemalloc = false) :
    (hposixMemalign g answer memptr alignment size).run p =
      let asked := p.libcCalls ++ [.posixMemalign alignment size]
      match answer.block with
      | none => ((answer.errno.getD ENOMEM, memptr), { p with libcCalls := asked })
      | some (ptr, _) =>
          ((0, ptr), { p with libc := answer.place p.libc, libcCalls := asked }) := by
  simp only [hposixMemalign, off, Bool.not_false, if_true]
  rfl

/-- With nothing at null there is nothing to take away there or to copy. -/
theorem move_null {heap : Heap} (null : heap NULL = none) :
    answer.move NULL heap = answer.place heap := by
  have same : Function.update heap NULL none = heap := Function.update_eq_self_iff.mpr null.symm
  cases found : answer.block <;> simp only [Answer.move, Answer.place, found, same]

theorem copy_null {heap : Heap} (null : heap NULL = none) (memory : Nat → UInt8) :
    answer.copy NULL heap memory = memory := by
  cases found : answer.block <;> simp only [Answer.copy, found, null]

end

namespace Request

variable {g : Globals} {answer : Answer} {p : Process}

theorem perform_libc_jemalloc (jemalloc : g.useJemalloc = true) (request : Request) :
    ((request.perform g answer).run p).2.libc = p.libc := by
  cases request with
  | hmalloc size => rw [perform, hmalloc_run jemalloc]
  | hcalloc nmemb size =>
      have frame : ((Hmalloc.hcalloc g answer nmemb size).run p).2.idle g = p.idle g :=
        hcalloc_frame.1
      simpa only [perform, Process.idle, jemalloc, if_true] using frame
  | hrealloc ptr size =>
      simp only [perform, hrealloc_run jemalloc]
      by_cases null : ptr = NULL
      · rw [if_pos null, hmalloc_run jemalloc]
      · by_cases zero : size = 0
        · rw [if_neg null, if_pos zero, hfree_run jemalloc]
          simp only [if_neg null]
        · rw [if_neg null, if_neg zero]
          rfl
  | halignedAlloc alignment size =>
      simp only [perform, halignedAlloc_run jemalloc]
      split <;> rfl
  | hposixMemalign alignment size =>
      simp only [perform, StateT.run_bind, hposixMemalign_run jemalloc]
      split
      · rfl
      · split <;> rfl
  | hfree ptr =>
      simp only [perform, StateT.run_bind, hfree_run jemalloc]
      split <;> rfl

theorem perform_memory_jemalloc (jemalloc : g.useJemalloc = true) (request : Request) :
    ((request.perform g answer).run p).2.memory =
      request.fills answer ((request.perform g answer).run p).1 (p.heap g) p.memory := by
  cases request with
  | hmalloc size => exact hmalloc_frame.2
  | hcalloc nmemb size => exact hcalloc_frame.2
  | hrealloc ptr size =>
      simp only [perform, hrealloc_run jemalloc, fills]
      by_cases null : ptr = NULL
      · rw [if_pos null, if_pos (.inl null)]
        exact hmalloc_frame.2
      · by_cases zero : size = 0
        · rw [if_neg null, if_pos zero, if_pos (.inr zero), hfree_run jemalloc]
          simp only [if_neg null]
        · rw [if_neg null, if_neg zero, if_neg (not_or.mpr ⟨null, zero⟩)]
          simp only [Process.heap, jemalloc, if_true]
          rfl
  | halignedAlloc alignment size =>
      simp only [perform, halignedAlloc_run jemalloc, fills]
      split <;> rfl
  | hposixMemalign alignment size =>
      simp only [perform, StateT.run_bind, hposixMemalign_run jemalloc, fills]
      split
      · rfl
      · split <;> rfl
  | hfree ptr =>
      simp only [perform, StateT.run_bind, hfree_run jemalloc, fills]
      split <;> rfl

theorem performed_on (jemalloc : g.useJemalloc = true) (request : Request) :
    request.Performed g answer p ((request.perform g answer).run p) where
  heap := by
    simp only [Process.heap, effectIn, jemalloc, if_true]
    exact perform_heap jemalloc request
  idle := by
    simp only [Process.idle, jemalloc, if_true]
    exact perform_libc_jemalloc jemalloc request
  memory := perform_memory_jemalloc jemalloc request
  result := by
    simp only [effectIn, jemalloc, if_true, perform_result jemalloc]
    split
    · rename_i full
      exact .inr ⟨rfl, full.1.takes⟩
    · exact .inl rfl

/-- What is to be shown in libc mode, where the mode is known. -/
theorem Performed.of_off {request : Request} {outcome : Addr × Process}
    (off : g.useJemalloc = false) {effect : Effect} (effectIn : request.effectIn g = effect)
    (libc : outcome.2.libc = effect.heap answer p.libc) (jemalloc : outcome.2.jemalloc = p.jemalloc)
    (memory : outcome.2.memory = request.fills answer outcome.1 p.libc p.memory)
    (result : outcome.1 = effect.result answer) : request.Performed g answer p outcome where
  heap := by simpa [Process.heap, off, effectIn] using libc
  idle := by simpa [Process.idle, off] using jemalloc
  memory := by simpa [Process.heap, off] using memory
  result := .inl (by rw [effectIn, result])

theorem effectIn_off (off : g.useJemalloc = false) (request : Request) :
    request.effectIn g =
      match request with
      | .halignedAlloc _ _ | .hposixMemalign _ _ => .take
      | request => request.effect := by
  simp only [effectIn, off, Bool.false_eq_true, if_false]

theorem performed_off (off : g.useJemalloc = false) (null : p.libc NULL = none)
    (request : Request) : request.Performed g answer p ((request.perform g answer).run p) := by
  cases request with
  | hmalloc size =>
      rw [perform, hmalloc_off off]
      exact .of_off off (effectIn_off off _) rfl rfl rfl rfl
  | hcalloc nmemb size =>
      have idle : ((Hmalloc.hcalloc g answer nmemb size).run p).2.idle g = p.idle g :=
        hcalloc_frame.1
      have memory : ((Hmalloc.hcalloc g answer nmemb size).run p).2.memory = _ := hcalloc_frame.2
      have heap : ((Hmalloc.hcalloc g answer nmemb size).run p).2.heap g =
        answer.place (p.heap g) := hcalloc_heap
      have takes : (hcalloc nmemb size).effectIn g = .take := effectIn_off off _
      refine .of_off off takes ?_ ?_ ?_ ?_
      · simpa [perform, Process.heap, Effect.heap, off] using heap
      · simpa [perform, Process.idle, off] using idle
      · simpa [perform, Process.heap, off] using memory
      · rw [perform, hcalloc_pointer, hmalloc_off off]
        rfl
  | hrealloc ptr size =>
      have effects : (hrealloc ptr size).effectIn g = (hrealloc ptr size).effect :=
        effectIn_off off _
      rw [perform, hrealloc_off off]
      by_cases isNull : ptr = NULL
      · have takes : (hrealloc ptr size).effect = .take := if_pos isNull
        rw [if_neg fun zero => zero.1 isNull]
        refine .of_off off (effects.trans takes) ?_ rfl ?_ rfl
        · rw [isNull]
          exact move_null null
        · simp only [fills, isNull, true_or, if_true, copy_null null]
      · by_cases zero : size = 0
        · have releases : (hrealloc ptr size).effect = .release ptr :=
            (if_neg isNull).trans (if_pos zero)
          rw [if_pos ⟨isNull, zero⟩]
          refine .of_off off (effects.trans releases) rfl rfl ?_ rfl
          simp only [fills, zero, or_true, if_true]
        · have moves : (hrealloc ptr size).effect = .move ptr :=
            (if_neg isNull).trans (if_neg zero)
          rw [if_neg fun both => zero both.2]
          refine .of_off off (effects.trans moves) rfl rfl ?_ rfl
          simp only [fills, isNull, zero, or_self, if_false]
  | halignedAlloc alignment size =>
      rw [perform, halignedAlloc_off off]
      exact .of_off off (effectIn_off off _) rfl rfl rfl rfl
  | hposixMemalign alignment size =>
      simp only [perform, StateT.run_bind, hposixMemalign_off off]
      cases found : answer.block with
      | none =>
          refine .of_off off (effectIn_off off _) ?_ rfl rfl ?_
          · simp only [Effect.heap, Answer.place, found]
            rfl
          · simp only [Effect.result, Answer.pointer, found]
            exact ite_self NULL
      | some block =>
          refine .of_off off (effectIn_off off _) ?_ rfl rfl ?_
          · simp only [Effect.heap, Answer.place, found]
            rfl
          · simp only [Effect.result, Answer.pointer, found]
            rfl
  | hfree ptr =>
      simp only [perform, StateT.run_bind, hfree_off off]
      by_cases isNull : ptr = NULL
      · rw [if_pos isNull]
        exact .of_off off ((effectIn_off off _).trans (if_pos isNull)) rfl rfl rfl rfl
      · rw [if_neg isNull]
        exact .of_off off ((effectIn_off off _).trans (if_neg isNull)) rfl rfl rfl rfl

/-- In either mode a call acts on the heap of the allocator in charge and leaves
    the other one alone. -/
theorem performed (null : p.heap g NULL = none) (request : Request) :
    request.Performed g answer p ((request.perform g answer).run p) := by
  cases mode : g.useJemalloc with
  | true => exact performed_on mode request
  | false =>
      refine performed_off mode ?_ request
      simpa [Process.heap, mode] using null

end Request

end Hmsdk.Hmalloc
