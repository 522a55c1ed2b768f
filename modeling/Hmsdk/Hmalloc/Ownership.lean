import Hmsdk.Lib.Run
import Hmsdk.Lib.Ledger
import Hmsdk.Hmalloc.Allocation

/-! # Blocks and their owners

The caller of the wrappers keeps a ledger: it enters a block when a wrapper
hands it over and strikes it out when it releases it. jemalloc keeps its heap.
A block in the heap that is missing from the ledger is lost. Every wrapper acts
on the heap in one of four ways, and for each of them there is a ledger entry
that keeps both sides in agreement.
-/

namespace Hmsdk.Hmalloc

open Lib.Run Lib.Ledger

/-- What a call does to the heap, apart from the answer to it. -/
inductive Effect where
  | keep
  | take
  | move (old : Addr)
  | release (old : Addr)
  deriving Repr, DecidableEq

namespace Effect

def heap (answer : Answer) (heap : Heap) : Effect → Heap
  | .keep => heap
  | .take => answer.place heap
  | .move old => answer.move old heap
  | .release old => Function.update heap old none

/-- The pointer the caller ought to be handed. -/
def result (answer : Answer) : Effect → Addr
  | .take | .move _ => answer.pointer
  | .keep | .release _ => NULL

/-- The ledger the caller ought to have afterwards. -/
def ledger (answer : Answer) (held : Finset Addr) : Effect → Finset Addr
  | .keep => held
  | .take => if answer.pointer = NULL then held else insert answer.pointer held
  | .move old => if answer.pointer = NULL then held else insert answer.pointer (held.erase old)
  | .release old => held.erase old

/-- Blocks come at addresses other than null; a new one at a free address, a
    moved one possibly where it was. -/
def Lawful (answer : Answer) (heap : Heap) (effect : Effect) : Prop :=
  ∀ ptr usable, answer.block = some (ptr, usable) →
    ptr ≠ NULL ∧ (heap ptr = none ∨ effect = .move ptr)

theorem agrees {answer : Answer} {heap : Heap} {held : Finset Addr} {effect : Effect}
    (lawful : effect.Lawful answer heap) (agrees : Agrees heap held) :
    Agrees (effect.heap answer heap) (effect.ledger answer held) := by
  cases effect with
  | keep => exact agrees
  | release old => exact agrees.erase
  | take =>
      cases found : answer.block with
      | none => simpa [Effect.heap, Effect.ledger, Answer.place, Answer.pointer, found] using agrees
      | some block =>
          obtain ⟨ptr, usable⟩ := block
          have notNull := (lawful ptr usable found).1
          simpa [Effect.heap, Effect.ledger, Answer.place, Answer.pointer, found, notNull]
            using agrees.insert usable
  | move old =>
      cases found : answer.block with
      | none => simpa [Effect.heap, Effect.ledger, Answer.move, Answer.pointer, found] using agrees
      | some block =>
          obtain ⟨ptr, usable⟩ := block
          have notNull := (lawful ptr usable found).1
          simpa [Effect.heap, Effect.ledger, Answer.move, Answer.pointer, found, notNull]
            using agrees.erase.insert usable

theorem null_not_mem_ledger {answer : Answer} {held : Finset Addr} {effect : Effect}
    (notNull : NULL ∉ held) : NULL ∉ effect.ledger answer held := by
  cases effect with
  | keep => exact notNull
  | release old => simp [Effect.ledger, notNull]
  | take | move =>
      simp only [Effect.ledger]
      split
      · exact notNull
      · rename_i handed
        simp [Ne.symm handed, notNull]

end Effect

inductive Request where
  | hmalloc (size : Size)
  | hcalloc (nmemb size : Size)
  | hrealloc (ptr : Addr) (size : Size)
  | halignedAlloc (alignment size : Size)
  | hposixMemalign (alignment size : Size)
  | hfree (ptr : Addr)
  deriving Repr, DecidableEq

namespace Request

/-- Make the call. The result is the pointer it hands to the caller, with null
    for none. -/
def perform (g : Globals) (answer : Answer) : Request → StateM Process Addr
  | .hmalloc size => Hmalloc.hmalloc g answer size
  | .hcalloc nmemb size => Hmalloc.hcalloc g answer nmemb size
  | .hrealloc ptr size => Hmalloc.hrealloc g answer ptr size
  | .halignedAlloc alignment size => Hmalloc.halignedAlloc g answer alignment size
  | .hposixMemalign alignment size => do
      let (ret, ptr) ← Hmalloc.hposixMemalign g answer NULL alignment size
      return if ret = 0 then ptr else NULL
  | .hfree ptr => do
      Hmalloc.hfree g ptr
      return NULL

def pointer : Request → Option Addr
  | .hrealloc ptr _ | .hfree ptr => some ptr
  | _ => none

/-- The caller's ledger after a call that handed it `result`. Resizing to zero
    releases the block, and a failed resize leaves it. -/
def settle (result : Addr) (held : Finset Addr) : Request → Finset Addr
  | .hfree ptr => held.erase ptr
  | .hrealloc ptr size =>
      if ptr ≠ NULL ∧ size = 0 then held.erase ptr
      else if result = NULL then held
      else insert result (held.erase ptr)
  | _ => if result = NULL then held else insert result held

def effect : Request → Effect
  | .hmalloc _ | .hcalloc _ _ => .take
  | .hrealloc ptr size => if ptr = NULL then .take else if size = 0 then .release ptr else .move ptr
  | .halignedAlloc alignment _ | .hposixMemalign alignment _ =>
      if alignment = 0 ∨ !isPow2 alignment then .keep else .take
  | .hfree ptr => if ptr = NULL then .keep else .release ptr

/-- The calls whose block comes through `hmalloc`. -/
def ThroughHmalloc : Request → Prop
  | .hmalloc _ | .hcalloc _ _ => True
  | .hrealloc ptr _ => ptr = NULL
  | _ => False

instance : DecidablePred ThroughHmalloc
  | .hmalloc _ | .hcalloc _ _ => .isTrue trivial
  | .hrealloc ptr _ => inferInstanceAs (Decidable (ptr = NULL))
  | .halignedAlloc _ _ | .hposixMemalign _ _ | .hfree _ => .isFalse id

variable {g : Globals} {answer : Answer} {p : Process}

/-- Every wrapper has the effect it is for, whatever it then returns. -/
theorem perform_heap (jemalloc : g.useJemalloc = true) (request : Request) :
    ((request.perform g answer).run p).2.jemalloc = request.effect.heap answer p.jemalloc := by
  cases request with
  | hmalloc size => simp only [perform, hmalloc_run jemalloc, effect, Effect.heap]
  | hcalloc nmemb size =>
      simp only [perform, hcalloc_run, hmalloc_run jemalloc, effect, Effect.heap]
      by_cases null : (if answer.leaves p.errno = ENOMEM then NULL else answer.pointer) = NULL
      · rw [if_pos null]
      · rw [if_neg null]
  | hrealloc ptr size =>
      simp only [perform, hrealloc_run jemalloc, effect]
      by_cases null : ptr = NULL
      · simp only [if_pos null, hmalloc_run jemalloc, Effect.heap]
      · by_cases zero : size = 0
        · simp only [if_neg null, if_pos zero, hfree_run jemalloc, Effect.heap]
        · simp only [if_neg null, if_neg zero]
          rfl
  | halignedAlloc alignment size =>
      simp only [perform, halignedAlloc_run jemalloc, effect]
      split <;> rfl
  | hposixMemalign alignment size =>
      simp only [perform, StateT.run_bind, hposixMemalign_run jemalloc, effect]
      split
      · rfl
      · split <;> rfl
  | hfree ptr =>
      simp only [perform, StateT.run_bind, hfree_run jemalloc, effect]
      split <;> rfl

/-- Only the calls through `hmalloc` may hand over less than they took. -/
theorem perform_result (jemalloc : g.useJemalloc = true) (request : Request) :
    ((request.perform g answer).run p).1 =
      if request.ThroughHmalloc ∧ answer.leaves p.errno = ENOMEM then NULL
      else request.effect.result answer := by
  cases request with
  | hmalloc size => simp [perform, hmalloc_run jemalloc, effect, Effect.result, ThroughHmalloc]
  | hcalloc nmemb size =>
      simp [perform, hcalloc_run, hmalloc_run jemalloc, effect, Effect.result, ThroughHmalloc]
  | hrealloc ptr size =>
      simp only [perform, hrealloc_run jemalloc, effect, ThroughHmalloc]
      by_cases null : ptr = NULL
      · simp [null, hmalloc_run jemalloc, Effect.result]
      · by_cases zero : size = 0
        · simp only [if_pos zero, null, false_and, if_false, Effect.result]
        · simp only [if_neg zero, null, false_and, if_false, Effect.result]
          rfl
  | halignedAlloc alignment size =>
      simp only [perform, halignedAlloc_run jemalloc, effect, ThroughHmalloc, false_and, if_false]
      split <;> rfl
  | hposixMemalign alignment size =>
      simp only [perform, StateT.run_bind, hposixMemalign_run jemalloc, effect, ThroughHmalloc,
        false_and, if_false]
      split
      · rfl
      · by_cases null : answer.pointer = NULL
        · simp only [Effect.result, null]
          exact ite_self NULL
        · simp only [if_neg null]
          rfl
  | hfree ptr =>
      simp only [perform, StateT.run_bind, effect, ThroughHmalloc, false_and, if_false]
      split <;> rfl

theorem settle_effect {held : Finset Addr} (notNull : NULL ∉ held) (request : Request) :
    request.settle (request.effect.result answer) held = request.effect.ledger answer held := by
  cases request with
  | hmalloc | hcalloc => rfl
  | hrealloc ptr size =>
      simp only [settle, effect]
      by_cases null : ptr = NULL
      · simp [null, Effect.result, Effect.ledger, Finset.erase_eq_of_notMem notNull]
      · by_cases zero : size = 0
        · simp only [null, zero, ne_eq, not_false_eq_true, and_self, if_true, if_false,
            Effect.ledger]
        · simp only [if_neg null, zero, and_false, if_false, Effect.result, Effect.ledger]
  | halignedAlloc alignment | hposixMemalign alignment =>
      simp only [settle, effect]
      split <;> rfl
  | hfree ptr =>
      simp only [settle, effect]
      split
      · rename_i null
        rw [null, Finset.erase_eq_of_notMem notNull]
        rfl
      · rfl

theorem ThroughHmalloc.takes {request : Request} (through : request.ThroughHmalloc) :
    request.effect = .take := by
  cases request with
  | hmalloc | hcalloc => rfl
  | hrealloc ptr size => exact if_pos through
  | halignedAlloc | hposixMemalign | hfree => exact through.elim

/-- Handed null by such a call, the caller enters nothing. -/
theorem ThroughHmalloc.settle_null {request : Request} (through : request.ThroughHmalloc)
    (held : Finset Addr) : request.settle NULL held = held := by
  cases request with
  | hmalloc | hcalloc => simp only [settle, if_true]
  | hrealloc ptr size =>
      have null : ptr = NULL := through
      simp [settle, null]
  | halignedAlloc | hposixMemalign | hfree => exact through.elim

end Request

/-- One call, with the value of `errno` the program has when it makes it. -/
structure Call where
  request : Request
  errno : Errno
  answer : Answer
  deriving Repr, DecidableEq

structure Session where
  process : Process := {}
  held : Finset Addr := ∅

namespace Session

def outcome (g : Globals) (s : Session) (call : Call) : Addr × Process :=
  (call.request.perform g call.answer).run { s.process with errno := call.errno }

def step (g : Globals) (s : Session) (call : Call) : Session where
  process := (outcome g s call).2
  held := call.request.settle (outcome g s call).1 s.held

/-- The blocks live in jemalloc are those the program holds. -/
structure Balanced (s : Session) : Prop where
  agrees : Agrees s.process.jemalloc s.held
  notNull : NULL ∉ s.held

/-- The program passes in only what it holds, and jemalloc finds blocks that
    are not in use. -/
structure Lawful (s : Session) (call : Call) : Prop where
  owned : ∀ ptr, call.request.pointer = some ptr → ptr = NULL ∨ ptr ∈ s.held
  found : call.request.effect.Lawful call.answer s.process.jemalloc

/-- `hmalloc` and `hcalloc` return null only where jemalloc found no block. -/
def NullIsFailure (g : Globals) (s : Session) (call : Call) : Prop :=
  match call.request with
  | .hmalloc _ | .hcalloc _ _ => (outcome g s call).1 = NULL → call.answer.block = none
  | _ => True

/-- Where jemalloc finds a block for `hmalloc`, `errno` is not `ENOMEM` by then. -/
def ErrnoIsClear (call : Call) : Prop :=
  call.request.ThroughHmalloc → call.answer.block ≠ none →
    call.answer.leaves call.errno ≠ ENOMEM

instance (call : Call) : Decidable (ErrnoIsClear call) :=
  inferInstanceAs (Decidable (_ → _ → _))

variable {g : Globals} {s : Session} {call : Call}

theorem outcome_result (s : Session) (jemalloc : g.useJemalloc = true) (clear : ErrnoIsClear call) :
    (outcome g s call).1 = call.request.effect.result call.answer := by
  simp only [outcome, Request.perform_result jemalloc]
  split
  · rename_i full
    have none : call.answer.block = none := by
      by_contra found
      exact clear full.1 found full.2
    simp [full.1.takes, Effect.result, Answer.pointer, none]
  · rfl

/-- Otherwise the caller gets null while the heap has gained a block. -/
theorem outcome_lost (s : Session) (jemalloc : g.useJemalloc = true) (set : ¬ ErrnoIsClear call) :
    (outcome g s call).1 = NULL ∧ call.request.effect = .take ∧
      (step g s call).held = s.held ∧ ∃ ptr usable, call.answer.block = some (ptr, usable) := by
  simp only [ErrnoIsClear, not_forall, not_not] at set
  obtain ⟨through, found, full⟩ := set
  have null : (outcome g s call).1 = NULL := by
    simp only [outcome, Request.perform_result jemalloc]
    exact if_pos ⟨through, full⟩
  obtain ⟨⟨ptr, usable⟩, block⟩ := Option.ne_none_iff_exists'.mp found
  refine ⟨null, through.takes, ?_, ptr, usable, block⟩
  simp only [step, null]
  exact through.settle_null s.held

theorem null_is_failure (jemalloc : g.useJemalloc = true) (lawful : s.Lawful call)
    (clear : ErrnoIsClear call) : NullIsFailure g s call := by
  have result := outcome_result s jemalloc clear
  unfold NullIsFailure
  cases request : call.request with
  | hmalloc | hcalloc =>
      intro null
      simp only [result, request, Request.effect, Effect.result, Answer.pointer] at null
      cases found : call.answer.block with
      | none => rfl
      | some block =>
          simp only [found] at null
          exact absurd null (lawful.found block.1 block.2 found).1
  | hrealloc | halignedAlloc | hposixMemalign | hfree => trivial

/-- One call keeps the balance, and means null by null, exactly when `errno`
    is clear. -/
theorem step_balanced_iff (jemalloc : g.useJemalloc = true) (balanced : s.Balanced)
    (lawful : s.Lawful call) :
    ((step g s call).Balanced ∧ NullIsFailure g s call) ↔ ErrnoIsClear call := by
  have heap : (step g s call).process.jemalloc =
      call.request.effect.heap call.answer s.process.jemalloc :=
    Request.perform_heap jemalloc call.request
  constructor
  · rintro ⟨after, -⟩
    by_contra set
    obtain ⟨-, takes, held, ptr, usable, block⟩ := outcome_lost s jemalloc set
    have free : s.process.jemalloc ptr = none := by
      rcases (lawful.found ptr usable block).2 with free | moved
      · exact free
      · simp [takes] at moved
    have agrees := after.agrees
    rw [heap, held, takes] at agrees
    simp only [Effect.heap, Answer.place, block] at agrees
    exact balanced.agrees.lost free usable agrees
  · intro clear
    have result := outcome_result s jemalloc clear
    have held : (step g s call).held = call.request.effect.ledger call.answer s.held := by
      simp only [step, result]
      exact Request.settle_effect balanced.notNull call.request
    refine ⟨⟨?_, ?_⟩, ?_⟩
    · rw [heap, held]
      exact Effect.agrees lawful.found balanced.agrees
    · rw [held]
      exact Effect.null_not_mem_ledger balanced.notNull
    · exact null_is_failure jemalloc lawful clear

/-- No block is lost along a run exactly when `errno` is clear of `ENOMEM`
    whenever jemalloc finds a block for `hmalloc`. -/
theorem no_block_lost_iff (jemalloc : g.useJemalloc = true) (start : s.Balanced)
    {calls : List Call} (run : Each (step g) Lawful s calls) :
    Each (step g) (fun s call => (step g s call).Balanced ∧ NullIsFailure g s call) s calls ↔
      Each (step g) (fun _ call => ErrnoIsClear call) s calls :=
  each_congr start run
    (fun _ _ balanced lawful => step_balanced_iff jemalloc balanced lawful)
    (fun _ _ _ _ kept => kept.1)

theorem no_block_lost_resize :
    let calls : List Call :=
      [⟨.hmalloc 16, 0, ⟨some (0x1000, 16), none⟩⟩, ⟨.hcalloc 2 8, ENOMEM, ⟨none, none⟩⟩,
        ⟨.hrealloc 0x1000 32, ENOMEM, ⟨some (0x2000, 32), none⟩⟩, ⟨.hfree 0x2000, 0, ⟨none, none⟩⟩]
    let g : Globals := { useJemalloc := true }
    Each (step g) (fun s call => (step g s call).Balanced ∧ NullIsFailure g s call) {} calls := by
  intro calls g
  have start : Balanced {} := ⟨by simp [Agrees], by simp⟩
  have run : Each (step g) Lawful {} calls := by
    refine ⟨⟨?_, ?_⟩, ⟨?_, ?_⟩, ⟨?_, ?_⟩, ⟨?_, ?_⟩, trivial⟩
    all_goals simp [Request.pointer, Request.effect, Effect.Lawful]
    all_goals decide
  exact (no_block_lost_iff rfl start run).mpr (by decide)

theorem no_block_lost_stale_errno :
    let call : Call := ⟨.hmalloc 16, ENOMEM, ⟨some (0x1000, 16), none⟩⟩
    let g : Globals := { useJemalloc := true }
    Balanced {} ∧ Each (step g) Lawful {} [call] ∧
      ¬ Each (step g) (fun s call => (step g s call).Balanced ∧ NullIsFailure g s call) {}
        [call] := by
  intro call g
  have start : Balanced {} := ⟨by simp [Agrees], by simp⟩
  have lawful : Lawful {} call :=
    ⟨by simp [call, Request.pointer], by simp [call, Effect.Lawful]; decide⟩
  refine ⟨start, ⟨lawful, trivial⟩, ?_⟩
  intro each
  have clear := (step_balanced_iff rfl start lawful).mp each.1
  exact absurd clear (by decide)

end Session

end Hmsdk.Hmalloc
