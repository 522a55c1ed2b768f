import Hmsdk.Hmalloc.Alignment
import Hmsdk.Hmalloc.Ownership

/-! # What jemalloc may be asked

jemalloc does not say what becomes of a request for no bytes, on a boundary that
is no power of two, or about a pointer that it has not handed out. The wrappers
check pointers and boundaries. They pass a size of zero on, unless a block is to
be resized to it.
-/

namespace Hmsdk.Hmalloc

open Lib.Run

def Live (heap : Heap) (ptr : Addr) : Prop := ptr ≠ NULL ∧ heap ptr ≠ none

/-- The calls for which jemalloc documents a result. -/
def JemallocCall.Defined (heap : Heap) : JemallocCall → Prop
  | .mallocx size alignment _ => size ≠ 0 ∧ IsPowerOfTwo alignment
  | .rallocx ptr size _ => size ≠ 0 ∧ Live heap ptr
  | .dallocx ptr _ => Live heap ptr
  | .sallocx ptr => Live heap ptr

/-- A request that takes memory from jemalloc takes at least a byte. The product
    of `hcalloc` is the one that wraps. -/
def Request.Sized : Request → Prop
  | .hmalloc size => size ≠ 0
  | .hcalloc nmemb size => nmemb * size ≠ 0
  | .hrealloc ptr size => ptr = NULL → size ≠ 0
  | .halignedAlloc alignment size | .hposixMemalign alignment size =>
      IsPowerOfTwo alignment → size ≠ 0
  | .hfree _ => True

/-- The one call that a request leads to, if it leads to any. -/
def Request.asks (g : Globals) : Request → Option JemallocCall
  | .hmalloc size => some (.mallocx size 1 g.arenaIndex)
  | .hcalloc nmemb size => some (.mallocx (nmemb * size) 1 g.arenaIndex)
  | .hrealloc ptr size =>
      if ptr = NULL then some (.mallocx size 1 g.arenaIndex)
      else if size = 0 then some (.dallocx ptr g.arenaIndex)
      else some (.rallocx ptr size g.arenaIndex)
  | .halignedAlloc alignment size | .hposixMemalign alignment size =>
      if alignment = 0 ∨ !isPow2 alignment then none
      else some (.mallocx size alignment g.arenaIndex)
  | .hfree ptr => if ptr = NULL then none else some (.dallocx ptr g.arenaIndex)

section

variable {g : Globals} {answer : Answer} {p : Process} {heap : Heap}

theorem Request.perform_calls (jemalloc : g.useJemalloc = true) (request : Request) :
    ((request.perform g answer).run p).2.calls = p.calls ++ (request.asks g).toList := by
  cases request with
  | hmalloc size => simp only [perform, hmalloc_run jemalloc, asks, Option.toList_some]
  | hcalloc nmemb size =>
      simp only [perform, hcalloc_run, hmalloc_run jemalloc, asks, Option.toList_some]
      by_cases null : (if answer.leaves p.errno = ENOMEM then NULL else answer.pointer) = NULL
      · rw [if_pos null]
      · rw [if_neg null]
  | hrealloc ptr size =>
      simp only [perform, hrealloc_run jemalloc, asks]
      by_cases null : ptr = NULL
      · simp only [if_pos null, hmalloc_run jemalloc, Option.toList_some]
      · by_cases zero : size = 0
        · simp only [if_neg null, if_pos zero, hfree_run jemalloc, Option.toList_some]
        · simp only [if_neg null, if_neg zero]
          rfl
  | halignedAlloc alignment size =>
      simp only [perform, halignedAlloc_run jemalloc, asks]
      split
      · exact (List.append_nil p.calls).symm
      · rfl
  | hposixMemalign alignment size =>
      simp only [perform, StateT.run_bind, hposixMemalign_run jemalloc, asks]
      split
      · exact (List.append_nil p.calls).symm
      · split <;> rfl
  | hfree ptr =>
      simp only [perform, StateT.run_bind, hfree_run jemalloc, asks]
      split
      · exact (List.append_nil p.calls).symm
      · rfl

theorem isPowerOfTwo_one : IsPowerOfTwo 1 := ⟨0, rfl⟩

theorem defined_some {call : JemallocCall} :
    (∀ asked ∈ some call, asked.Defined heap) ↔ call.Defined heap := by
  simp only [Option.mem_def, Option.some.injEq, forall_eq']

theorem defined_none : ∀ asked ∈ (none : Option JemallocCall), asked.Defined heap := by simp

/-- With live pointers only the size can be wrong. -/
theorem Request.asks_defined (request : Request)
    (live : ∀ ptr, request.pointer = some ptr → ptr = NULL ∨ Live heap ptr) :
    (∀ call ∈ request.asks g, call.Defined heap) ↔ request.Sized := by
  cases request with
  | hmalloc size => exact defined_some.trans (and_iff_left isPowerOfTwo_one)
  | hcalloc nmemb size => exact defined_some.trans (and_iff_left isPowerOfTwo_one)
  | hrealloc ptr size =>
      rw [asks, Sized]
      by_cases null : ptr = NULL
      · rw [if_pos null, defined_some, forall_prop_of_true null]
        exact and_iff_left isPowerOfTwo_one
      · have owned : Live heap ptr := (live ptr rfl).resolve_left null
        have unasked : ptr = NULL → size ≠ 0 := fun same => absurd same null
        by_cases zero : size = 0
        · rw [if_neg null, if_pos zero, defined_some]
          exact iff_of_true owned unasked
        · rw [if_neg null, if_neg zero, defined_some]
          exact iff_of_true ⟨zero, owned⟩ unasked
  | halignedAlloc alignment size | hposixMemalign alignment size =>
      rw [asks, Sized]
      by_cases power : IsPowerOfTwo alignment
      · rw [if_neg (mt (rejected_iff alignment).mp (not_not.mpr power)), defined_some,
          forall_prop_of_true power]
        exact and_iff_left power
      · rw [if_pos ((rejected_iff alignment).mpr power)]
        exact iff_of_true defined_none fun other => absurd other power
  | hfree ptr =>
      rw [asks, Sized]
      by_cases null : ptr = NULL
      · rw [if_pos null]
        exact iff_of_true defined_none trivial
      · rw [if_neg null, defined_some]
        exact iff_of_true ((live ptr rfl).resolve_left null) trivial

end

/-- What a program does with the wrappers: it makes requests, and it asks for the
    size of a block. -/
inductive Use where
  | request (call : Call)
  | hmallocUsableSize (ptr : Addr)
  deriving Repr, DecidableEq

namespace Use

def step (g : Globals) (s : Session) : Use → Session
  | .request call => s.step g call
  | .hmallocUsableSize ptr =>
      { s with process := ((Hmalloc.hmallocUsableSize g ptr).run s.process).2 }

def pointer : Use → Option Addr
  | .request call => call.request.pointer
  | .hmallocUsableSize ptr => some ptr

/-- The program passes null or what it holds. -/
def Owned (s : Session) (use : Use) : Prop :=
  ∀ ptr, use.pointer = some ptr → ptr = NULL ∨ ptr ∈ s.held

def Sized : Use → Prop
  | .request call => call.request.Sized
  | .hmallocUsableSize _ => True

/-- jemalloc is asked at most once, and what it is asked is defined for the blocks
    that it has handed out by then. -/
def Respects (g : Globals) (s : Session) (use : Use) : Prop :=
  ∃ asked : Option JemallocCall,
    (use.step g s).process.calls = s.process.calls ++ asked.toList ∧
      ∀ call ∈ asked, call.Defined s.process.jemalloc

end Use

/-- What the program holds has been handed out and not been taken back. There may
    be more. -/
def HoldsLive (s : Session) : Prop := ∀ ptr ∈ s.held, Live s.process.jemalloc ptr

section

variable {g : Globals} {s : Session} {answer : Answer} {heap : Heap} {held : Finset Addr}

theorem Live.update {ptr other : Addr} (live : Live heap ptr) (usable : Size) :
    Live (Function.update heap other (some usable)) ptr := by
  refine ⟨live.1, ?_⟩
  by_cases same : ptr = other
  · simp [same]
  · simpa [same] using live.2

/-- A block that is taken back is no longer held. -/
theorem live_erase (live : ∀ ptr ∈ held, Live heap ptr) (old : Addr) :
    ∀ ptr ∈ held.erase old, Live (Function.update heap old none) ptr := by
  intro ptr member
  obtain ⟨other, inside⟩ := Finset.mem_erase.mp member
  exact ⟨(live ptr inside).1, by simpa [other] using (live ptr inside).2⟩

/-- A block that is handed out is held from then on. -/
theorem live_insert (live : ∀ ptr ∈ held, Live heap ptr) {fresh : Addr} (notNull : fresh ≠ NULL)
    (usable : Size) :
    ∀ ptr ∈ insert fresh held, Live (Function.update heap fresh (some usable)) ptr := by
  intro ptr member
  rcases Finset.mem_insert.mp member with rfl | inside
  · exact ⟨notNull, by simp⟩
  · exact (live ptr inside).update usable

/-- Every effect leaves alive what the ledger keeps. -/
theorem Effect.live {effect : Effect} (lawful : effect.Lawful answer heap)
    (live : ∀ ptr ∈ held, Live heap ptr) :
    ∀ ptr ∈ effect.ledger answer held, Live (effect.heap answer heap) ptr := by
  cases effect with
  | keep => exact live
  | release old => exact live_erase live old
  | take =>
      cases found : answer.block with
      | none =>
          simpa only [Effect.ledger, Effect.heap, Answer.pointer, Answer.place, found,
            if_true] using live
      | some block =>
          obtain ⟨fresh, usable⟩ := block
          have notNull := (lawful fresh usable found).1
          simp only [Effect.ledger, Effect.heap, Answer.pointer, Answer.place, found,
            if_neg notNull]
          exact live_insert live notNull usable
  | move old =>
      cases found : answer.block with
      | none =>
          simpa only [Effect.ledger, Effect.heap, Answer.pointer, Answer.move, found,
            if_true] using live
      | some block =>
          obtain ⟨fresh, usable⟩ := block
          have notNull := (lawful fresh usable found).1
          simp only [Effect.ledger, Effect.heap, Answer.pointer, Answer.move, found,
            if_neg notNull]
          exact live_insert (live_erase live old) notNull usable

/-- The caller's ledger is the one it ought to have, or it was handed null and
    entered nothing while the heap gained a block. -/
theorem Request.live (jemalloc : g.useJemalloc = true) {p : Process} (request : Request)
    (lawful : request.effect.Lawful answer p.jemalloc)
    (live : ∀ ptr ∈ held, Live p.jemalloc ptr) :
    ∀ ptr ∈ request.settle ((request.perform g answer).run p).1 held,
      Live ((request.perform g answer).run p).2.jemalloc ptr := by
  have notNull : NULL ∉ held := fun member => (live NULL member).1 rfl
  rw [Request.perform_heap jemalloc, Request.perform_result jemalloc]
  split
  · rename_i lost
    rw [lost.1.settle_null, lost.1.takes]
    intro ptr member
    cases found : answer.block with
    | none => simpa only [Effect.heap, Answer.place, found] using live ptr member
    | some block =>
        simp only [Effect.heap, Answer.place, found]
        exact (live ptr member).update block.2
  · rw [Request.settle_effect notNull]
    exact Effect.live lawful live

end

namespace Use

variable {g : Globals} {s : Session} {use : Use}

/-- The program passes in only what it holds, and jemalloc finds blocks that are
    not in use. -/
def Lawful (s : Session) (use : Use) : Prop :=
  use.Owned s ∧
    match use with
    | .request call => call.request.effect.Lawful call.answer s.process.jemalloc
    | .hmallocUsableSize _ => True

theorem hmallocUsableSize_run (jemalloc : g.useJemalloc = true) (ptr : Addr) (p : Process) :
    ((Hmalloc.hmallocUsableSize g ptr).run p).2 =
      if ptr = NULL then p else { p with calls := p.calls ++ [.sallocx ptr] } := by
  simp only [Hmalloc.hmallocUsableSize, jemalloc, Bool.not_true, Bool.false_eq_true, if_false]
  split <;> rfl

theorem holdsLive_step (jemalloc : g.useJemalloc = true) (holds : HoldsLive s)
    (lawful : use.Lawful s) : HoldsLive (use.step g s) := by
  cases use with
  | request call => exact call.request.live jemalloc lawful.2 holds
  | hmallocUsableSize ptr =>
      intro other member
      have same : (step g s (.hmallocUsableSize ptr)).process.jemalloc = s.process.jemalloc := by
        simp only [step, hmallocUsableSize_run jemalloc]
        split <;> rfl
      rw [same]
      exact holds other member

/-- One use respects what jemalloc wants exactly when it takes no empty block. -/
theorem respects_iff (jemalloc : g.useJemalloc = true) (holds : HoldsLive s)
    (lawful : use.Lawful s) : use.Respects g s ↔ use.Sized := by
  have live : ∀ ptr, use.pointer = some ptr → ptr = NULL ∨ Live s.process.jemalloc ptr :=
    fun ptr passed => (lawful.1 ptr passed).imp_right (holds ptr)
  cases use with
  | request call =>
      have calls : (step g s (.request call)).process.calls =
          s.process.calls ++ (call.request.asks g).toList :=
        Request.perform_calls jemalloc call.request
      rw [Respects, Sized, calls, ← @Request.asks_defined g _ call.request live]
      constructor
      · rintro ⟨asked, same, defined⟩
        have agree : (call.request.asks g).toList = asked.toList := List.append_cancel_left same
        intro made member
        refine defined made (Option.mem_toList.mp ?_)
        rw [← agree]
        exact Option.mem_toList.mpr member
      · intro defined
        exact ⟨_, rfl, defined⟩
  | hmallocUsableSize ptr =>
      refine iff_of_true ?_ trivial
      simp only [Respects, step, hmallocUsableSize_run jemalloc]
      by_cases null : ptr = NULL
      · exact ⟨none, by simp [null], defined_none⟩
      · exact ⟨some (.sallocx ptr), by simp [null],
          defined_some.mpr ((live ptr rfl).resolve_left null)⟩

end Use

/-- Along a whole run jemalloc is asked for nothing undefined exactly when no
    request takes zero bytes. -/
theorem respectsJemalloc_iff {g : Globals} (jemalloc : g.useJemalloc = true) {s : Session}
    (start : HoldsLive s) {uses : List Use} (run : Each (Use.step g) Use.Lawful s uses) :
    Each (Use.step g) (Use.Respects g) s uses ↔ Each (Use.step g) (fun _ => Use.Sized) s uses :=
  each_congr start run
    (fun _ _ holds lawful => Use.respects_iff jemalloc holds lawful)
    (fun _ _ holds lawful _ => Use.holdsLive_step jemalloc holds lawful)

/-- One request of each kind, on blocks that come and go. -/
theorem respectsJemalloc_blocks :
    let uses : List Use :=
      [.request ⟨.hmalloc 16, 0, ⟨some (0x1000, 16), none⟩⟩,
        .request ⟨.hrealloc 0x1000 32, 0, ⟨some (0x2000, 32), none⟩⟩,
        .request ⟨.halignedAlloc 3 0, 0, ⟨none, none⟩⟩,
        .hmallocUsableSize 0x2000, .request ⟨.hrealloc 0x2000 0, 0, ⟨none, none⟩⟩,
        .request ⟨.hfree NULL, 0, ⟨none, none⟩⟩]
    let g : Globals := { useJemalloc := true }
    Each (Use.step g) (Use.Respects g) {} uses := by
  intro uses g
  have start : HoldsLive {} := fun ptr member => absurd member (Finset.notMem_empty ptr)
  have run : Each (Use.step g) Use.Lawful {} uses := by
    refine ⟨⟨?_, ?_⟩, ⟨?_, ?_⟩, ⟨?_, ?_⟩, ⟨?_, ?_⟩, ⟨?_, ?_⟩, ⟨?_, ?_⟩, trivial⟩
    all_goals simp [Use.Owned, Use.pointer, Request.pointer, Request.effect, Effect.Lawful]
    all_goals decide
  have badBoundary : ¬ IsPowerOfTwo 3 := (rejected_iff 3).mp (by decide)
  refine (respectsJemalloc_iff rfl start run).mpr ⟨?_, ?_, ?_, trivial, ?_, trivial, trivial⟩
  · exact (by decide : (16 : Size) ≠ 0)
  · exact fun null => absurd null (by decide)
  · exact fun power => absurd power badBoundary
  · exact fun null => absurd null (by decide)

/-- A size of zero, and a product that wraps to it. -/
theorem respectsJemalloc_empty :
    let g : Globals := { useJemalloc := true }
    ∀ request ∈ [Request.hmalloc 0, .hcalloc 0x100000000 0x100000000],
      let use : Use := .request ⟨request, 0, ⟨some (0x1000, 16), none⟩⟩
      HoldsLive {} ∧ Each (Use.step g) Use.Lawful {} [use] ∧
        ¬ Each (Use.step g) (Use.Respects g) {} [use] := by
  intro g request member use
  have start : HoldsLive {} := fun ptr member => absurd member (Finset.notMem_empty ptr)
  have unsized : ¬ request.Sized := by
    rcases List.mem_pair.mp member with rfl | rfl
    · exact not_not.mpr rfl
    · exact not_not.mpr (by decide)
  have lawful : use.Lawful {} := by
    rcases List.mem_pair.mp member with rfl | rfl
    all_goals
      refine ⟨fun ptr passed => ?_, fun ptr usable found => ?_⟩
      · cases passed
      cases found
      exact ⟨by decide, .inl rfl⟩
  refine ⟨start, ⟨lawful, trivial⟩, fun respects => ?_⟩
  exact unsized ((Use.respects_iff rfl start lawful).mp respects.1)

end Hmsdk.Hmalloc
