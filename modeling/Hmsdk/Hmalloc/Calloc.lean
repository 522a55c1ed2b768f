import Hmsdk.Hmalloc.Allocation

/-! # Cleared blocks

`hcalloc` asks for the product of its arguments as a machine word and clears as
many bytes. A caller of `calloc` counts on the product as a number. The two are
the same number below `2 ^ 64` and never above it.
-/

namespace Hmsdk.Hmalloc

open Lib.Region

def Process.heap (g : Globals) (p : Process) : Heap :=
  if g.useJemalloc then p.jemalloc else p.libc

/-- A block that was found is at least as large as the request. -/
def Answer.Serves (answer : Answer) (size : Size) : Prop :=
  ∀ ptr usable, answer.block = some (ptr, usable) → ptr ≠ NULL ∧ size ≤ usable

/-- A live block with room for so many bytes, all of them zero. -/
def Cleared (heap : Heap) (memory : Nat → UInt8) (ptr : Addr) (bytes : Nat) : Prop :=
  ∃ usable, heap ptr = some usable ∧ bytes ≤ usable.toNat ∧
    ∀ i < bytes, memory (ptr.toNat + i) = 0

section

variable {g : Globals} {answer : Answer} {p : Process} {nmemb size : Size}

theorem hmalloc_pointer :
    ((hmalloc g answer size).run p).1 =
      if g.useJemalloc = true ∧ answer.leaves p.errno = ENOMEM then NULL else answer.pointer := by
  by_cases jemalloc : g.useJemalloc = true
  · simp only [hmalloc_run jemalloc, jemalloc, true_and]
  · simp only [hmalloc, jemalloc]
    rfl

theorem hmalloc_heap :
    ((hmalloc g answer size).run p).2.heap g = answer.place (p.heap g) := by
  by_cases jemalloc : g.useJemalloc = true
  · simp only [hmalloc_run jemalloc, Process.heap, jemalloc]
    rfl
  · simp only [hmalloc, jemalloc, Process.heap]
    rfl

theorem hcalloc_pointer :
    ((hcalloc g answer nmemb size).run p).1 =
      ((hmalloc g answer (nmemb * size)).run p).1 := by
  simp only [hcalloc_run]

theorem hcalloc_heap :
    ((hcalloc g answer nmemb size).run p).2.heap g = answer.place (p.heap g) := by
  have heap : ((hmalloc g answer (nmemb * size)).run p).2.heap g = answer.place (p.heap g) :=
    hmalloc_heap
  simp only [hcalloc_run, ← heap]
  split <;> rfl

theorem hcalloc_clears {i : Nat} (inside : i < (nmemb * size).toNat)
    (handed : ((hcalloc g answer nmemb size).run p).1 ≠ NULL) :
    ((hcalloc g answer nmemb size).run p).2.memory
      (((hcalloc g answer nmemb size).run p).1.toNat + i) = 0 := by
  rw [hcalloc_pointer] at handed ⊢
  simp only [hcalloc_run, if_neg handed]
  exact overlay_at inside

/-- What a caller of `calloc` relies on: null, or a cleared block with room for
    the product of the two numbers. -/
def CallocContract (g : Globals) (answer : Answer) (nmemb size : Size) (p : Process) : Prop :=
  let outcome := (hcalloc g answer nmemb size).run p
  outcome.1 = NULL ∨
    Cleared (outcome.2.heap g) outcome.2.memory outcome.1 (nmemb.toNat * size.toNat)

/-- Null is for a request that found no block, or found one with a stale `errno`. -/
theorem hcalloc_null_iff (serves : answer.Serves (nmemb * size)) :
    ((hcalloc g answer nmemb size).run p).1 = NULL ↔
      answer.block = none ∨ (g.useJemalloc = true ∧ answer.leaves p.errno = ENOMEM) := by
  rw [hcalloc_pointer, hmalloc_pointer]
  split
  · rename_i full
    simp only [full, and_self, or_true]
  · rename_i clear
    cases found : answer.block with
    | none => simp [Answer.pointer, found]
    | some block =>
        have notNull : block.1 ≠ NULL := (serves block.1 block.2 found).1
        simp [Answer.pointer, found, notNull, clear]

/-- A block that is handed over is the one that was found. -/
theorem hcalloc_handed (serves : answer.Serves (nmemb * size))
    (handed : ((hcalloc g answer nmemb size).run p).1 ≠ NULL) :
    ∃ usable, answer.block = some (((hcalloc g answer nmemb size).run p).1, usable) ∧
      ((hcalloc g answer nmemb size).run p).2.heap g ((hcalloc g answer nmemb size).run p).1 =
        some usable := by
  have clear := mt (hcalloc_null_iff serves).mpr handed
  rw [not_or] at clear
  obtain ⟨⟨ptr, usable⟩, found⟩ := Option.ne_none_iff_exists'.mp clear.1
  have result : ((hcalloc g answer nmemb size).run p).1 = ptr := by
    rw [hcalloc_pointer, hmalloc_pointer, if_neg clear.2, Answer.pointer, found]
  refine ⟨usable, by rw [result, found], ?_⟩
  rw [result, hcalloc_heap, Answer.place, found]
  simp only [Function.update_self]

/-- What is cleared is the product as a word, which is the product of the
    numbers only below the range of a word. -/
theorem hcalloc_cleared_iff (serves : answer.Serves (nmemb * size))
    (handed : ((hcalloc g answer nmemb size).run p).1 ≠ NULL) :
    Cleared (((hcalloc g answer nmemb size).run p).2.heap g)
        ((hcalloc g answer nmemb size).run p).2.memory ((hcalloc g answer nmemb size).run p).1
        (nmemb.toNat * size.toNat) ↔
      nmemb.toNat * size.toNat < 2 ^ 64 := by
  constructor
  · rintro ⟨usable, -, room, -⟩
    exact lt_of_le_of_lt room usable.isLt
  · intro fits
    obtain ⟨usable, found, live⟩ := hcalloc_handed serves handed
    have product : (nmemb * size).toNat = nmemb.toNat * size.toNat := by
      rw [BitVec.toNat_mul, Nat.mod_eq_of_lt fits]
    refine ⟨usable, live, ?_, ?_⟩
    · rw [← product]
      exact (serves _ usable found).2
    · intro i inside
      exact hcalloc_clears (product ▸ inside) handed

/-- `hcalloc` is as good as `calloc` exactly where the product fits a word or
    nothing is handed out. -/
theorem hcalloc_contract_iff (serves : answer.Serves (nmemb * size)) :
    CallocContract g answer nmemb size p ↔
      nmemb.toNat * size.toNat < 2 ^ 64 ∨ answer.block = none ∨
        (g.useJemalloc = true ∧ answer.leaves p.errno = ENOMEM) := by
  simp only [CallocContract]
  rw [hcalloc_null_iff serves, or_comm]
  apply or_congr_left'
  intro handed
  exact hcalloc_cleared_iff serves (mt (hcalloc_null_iff serves).mp handed)

end

theorem hcalloc_contract_small :
    CallocContract { useJemalloc := true } ⟨some (0x1000, 64), none⟩ 6 8 {} :=
  (hcalloc_contract_iff (by simp [Answer.Serves]; decide)).mpr (.inl (by decide))

theorem hcalloc_overflows :
    let answer : Answer := ⟨some (0x1000, 16), none⟩
    let nmemb : Size := 0x8000000000000008
    answer.Serves (nmemb * 2) ∧ ¬ CallocContract { useJemalloc := true } answer nmemb 2 {} := by
  intro answer nmemb
  refine ⟨by simp [answer, nmemb, Answer.Serves]; decide, ?_⟩
  unfold CallocContract
  rintro (null | ⟨usable, -, room, -⟩)
  · rw [hcalloc_pointer, hmalloc_pointer] at null
    exact absurd null (by decide)
  · have bound := usable.isLt
    simp only [nmemb] at room
    revert room
    simp
    omega

end Hmsdk.Hmalloc
